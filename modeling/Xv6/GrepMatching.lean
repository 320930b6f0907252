import Mathlib.Computability.Language

/-!
# The matcher of `grep`

`grep.c` matches a line against a regular expression with the operators `^`, `.`, `*`
and `$`.  A string is the list of its characters, so the end of the list is the
terminating zero.

A pattern is read from left to right.  An item is a character followed by a star or a
single character, and the language of the items is their product; the anchors at both
ends say where in the text a word of the language has to be.
-/

open scoped Computability

namespace Xv6

namespace Grep

/-! ## The code -/

mutual

def matchhere (re text : List Char) : Bool :=
  match re with
  | [] => true
  | c :: rest =>
    if rest.head? = some '*' then matchstar c rest.tail text
    else if c = '$' ∧ rest = [] then text.isEmpty
    else
      match text with
      | [] => false
      | t :: text => if c = '.' ∨ c = t then matchhere rest text else false
termination_by (re.length, 0, text.length)
decreasing_by
  · simp only [List.length_tail, List.length_cons]
    exact Prod.Lex.left _ _ (by omega)
  · exact Prod.Lex.left _ _ (by simp)

def matchstar (c : Char) (re text : List Char) : Bool :=
  if matchhere re text then true
  else
    match text with
    | [] => false
    | t :: text => if t = c ∨ c = '.' then matchstar c re text else false
termination_by (re.length, 1, text.length)

end

def matchLoop (re : List Char) : List Char → Bool
  | [] => matchhere re []
  | t :: text => if matchhere re (t :: text) then true else matchLoop re text

def matchText (re text : List Char) : Bool :=
  if re.head? = some '^' then matchhere re.tail text else matchLoop re text

/-! ## The language of a pattern -/

inductive Item
  | one (c : Char)
  | star (c : Char)

def items : List Char → List Item
  | [] => []
  | ['$'] => []
  | c :: '*' :: rest => .star c :: items rest
  | c :: rest => .one c :: items rest

/-- Whether a pattern ends with the anchor `$`. -/
def endsText : List Char → Bool
  | [] => false
  | ['$'] => true
  | _ :: '*' :: rest => endsText rest
  | _ :: rest => endsText rest

def single (c : Char) : Language Char :=
  {word | ∃ x, word = [x] ∧ (c = '.' ∨ x = c)}

def Item.language : Item → Language Char
  | .one c => single c
  | .star c => (single c)∗

def language (re : List Char) : Language Char :=
  ((items re).map Item.language).prod

/-- A word of the language of a pattern begins the text; with the anchor `$` it is the
whole text. -/
def Begins (re text : List Char) : Prop :=
  ∃ word after, text = word ++ after ∧ word ∈ language re ∧ (endsText re = true → after = [])

theorem mem_kstar_single {c : Char} {word : List Char} :
    word ∈ (single c)∗ ↔ ∀ x ∈ word, c = '.' ∨ x = c := by
  constructor
  · rintro ⟨pieces, rfl, areSingle⟩ x isMember
    obtain ⟨piece, isPiece, inPiece⟩ := List.mem_flatten.mp isMember
    obtain ⟨y, rfl, allowed⟩ := areSingle piece isPiece
    rw [List.mem_singleton.mp inPiece]
    exact allowed
  · intro allowed
    refine ⟨word.map fun x => [x], ?_, fun piece isPiece => ?_⟩
    · induction word with
      | nil => rfl
      | cons x word continues =>
        grind
    · obtain ⟨x, isMember, rfl⟩ := List.mem_map.mp isPiece
      exact ⟨x, rfl, allowed x isMember⟩

/-! ## How a pattern begins a text -/

theorem begins_nil (text : List Char) : Begins [] text :=
  ⟨[], text, rfl, rfl, fun isFalse => absurd isFalse Bool.false_ne_true⟩

theorem begins_end (text : List Char) : Begins ['$'] text ↔ text = [] := by
  constructor
  · rintro ⟨word, after, rfl, isWord, atEnd⟩
    rw [show word = [] from isWord, atEnd rfl]
    rfl
  · rintro rfl
    exact ⟨[], [], rfl, rfl, fun _ => rfl⟩

/-- The first item is read and then the rest of the pattern. -/
theorem begins_item {re text : List Char} (item : Item) (rest : List Char)
    (isItems : items re = item :: items rest) (isEnd : endsText re = endsText rest) :
    Begins re text ↔ ∃ before after, text = before ++ after ∧ before ∈ item.language ∧
      Begins rest after := by
  grind [language, Begins, Language.mem_mul]

/-! ## The matcher is exact -/

theorem matchstar_iff {re : List Char}
    (isExact : ∀ text, matchhere re text = true ↔ Begins re text) (c : Char) (text : List Char) :
    matchstar c re text = true ↔ ∃ before after, text = before ++ after ∧
      before ∈ (Item.star c).language ∧ Begins re after := by
  have isStar : ∀ word, word ∈ (Item.star c).language ↔ ∀ x ∈ word, c = '.' ∨ x = c :=
    fun word => mem_kstar_single
  simp only [isStar]
  have stops : ∀ text, matchhere re text = true → ∃ before after, text = before ++ after ∧
      (∀ x ∈ before, c = '.' ∨ x = c) ∧ Begins re after :=
    fun text matches_ => ⟨[], text, rfl, fun _ isNil => absurd isNil List.not_mem_nil,
      (isExact text).mp matches_⟩
  induction text with
  | nil =>
    simp_all [matchstar]
  | cons t text continues =>
    rw [matchstar]
    by_cases here : matchhere re (t :: text) = true
    · grind
    rw [if_neg here]
    constructor
    · grind
    · rintro ⟨before, after, isText, areAllowed, begins⟩
      cases before with
      | nil =>
        grind
      | cons x before =>
        injection isText with isFirst isRest
        have allowed := areAllowed x List.mem_cons_self
        rw [← isFirst] at allowed
        rw [if_pos allowed.symm]
        exact continues.mpr ⟨before, after, isRest,
          fun y isLater => areAllowed y (List.mem_cons_of_mem _ isLater), begins⟩

theorem matchhere_one {c : Char} {rest : List Char} (notStar : rest.head? ≠ some '*')
    (notEnd : ¬ (c = '$' ∧ rest = [])) (text : List Char) :
    matchhere (c :: rest) text = true ↔ ∃ before after, text = before ++ after ∧
      before ∈ (Item.one c).language ∧ matchhere rest after = true := by
  rw [matchhere.eq_def (c :: rest) text]
  dsimp only
  rw [if_neg notStar, if_neg notEnd]
  constructor
  · intro matches_
    cases text with
    | nil => exact absurd matches_ Bool.false_ne_true
    | cons t text =>
      dsimp only at matches_
      by_cases allowed : c = '.' ∨ c = t
      · rw [if_pos allowed] at matches_
        exact ⟨[t], text, rfl, ⟨t, rfl, allowed.imp_right Eq.symm⟩, matches_⟩
      · grind
  · rintro ⟨before, after, rfl, ⟨t, rfl, allowed⟩, matches_⟩
    exact (if_pos (allowed.imp_right Eq.symm)).trans matches_

theorem matchhere_iff (re : List Char) :
    ∀ text, matchhere re text = true ↔ Begins re text := by
  induction re using items.induct with
  | case1 =>
    intro text
    unfold matchhere
    exact iff_of_true rfl (begins_nil text)
  | case2 =>
    intro text
    unfold matchhere
    rw [begins_end]
    exact List.isEmpty_iff
  | case3 c rest continues =>
    intro text
    have isStar : matchhere (c :: '*' :: rest) text = matchstar c rest text := by
      unfold matchhere
      rfl
    have isItems : items (c :: '*' :: rest) = .star c :: items rest := by rw [items]
    have isEnd : endsText (c :: '*' :: rest) = endsText rest := by rw [endsText]
    rw [isStar, begins_item (.star c) rest isItems isEnd]
    exact matchstar_iff continues c text
  | case4 c rest notEnd notStar continues =>
    intro text
    have noStar : rest.head? ≠ some '*' := by
      cases rest with
      | nil => exact Option.some_ne_none _ ∘ Eq.symm
      | cons d rest =>
        intro isStar
        exact notStar rest (by rw [Option.some_inj.mp isStar])
    have isItems : items (c :: rest) = .one c :: items rest := by
      rw [items]
      · exact notEnd
      · exact notStar
    have isEnd : endsText (c :: rest) = endsText rest := by
      rw [endsText]
      · exact notEnd
      · exact notStar
    rw [begins_item (.one c) rest isItems isEnd, matchhere_one noStar fun atEnd =>
      notEnd atEnd.1 atEnd.2]
    simp only [continues]

/-! ## `match` -/

/-- The pattern without the anchor `^`. -/
def body (re : List Char) : List Char :=
  if re.head? = some '^' then re.tail else re

/-- A word of the language of a pattern is in the text, at its start if the pattern
starts with `^` and at its end if the pattern ends with `$`. -/
def Matches (re text : List Char) : Prop :=
  ∃ before word after, text = before ++ word ++ after ∧ word ∈ language (body re) ∧
    (re.head? = some '^' → before = []) ∧ (endsText (body re) = true → after = [])

theorem matchLoop_iff (re text : List Char) :
    matchLoop re text = true ↔ ∃ before rest, text = before ++ rest ∧ Begins re rest := by
  induction text with
  | nil =>
    simp [matchLoop, matchhere_iff]
  | cons t text continues =>
    rw [matchLoop]
    by_cases here : matchhere re (t :: text) = true
    · rw [if_pos here]
      exact iff_of_true rfl ⟨[], t :: text, rfl, (matchhere_iff re _).mp here⟩
    rw [if_neg here, continues]
    constructor
    · grind
    · rintro ⟨before, rest, isText, begins⟩
      cases before with
      | nil =>
        grind [matchhere_iff]
      | cons x before =>
        grind

/-- The matcher finds exactly the texts with a word of the language of the pattern. -/
theorem matchText_iff (re text : List Char) : matchText re text = true ↔ Matches re text := by
  rw [matchText, Matches, body]
  by_cases anchored : re.head? = some '^'
  · simp only [if_pos anchored, matchhere_iff, Begins]
    constructor
    · rintro ⟨word, after, rfl, isWord, atEnd⟩
      exact ⟨[], word, after, rfl, isWord, fun _ => rfl, atEnd⟩
    · rintro ⟨before, word, after, rfl, isWord, atStart, atEnd⟩
      rw [atStart anchored, List.nil_append]
      exact ⟨word, after, rfl, isWord, atEnd⟩
  · simp only [if_neg anchored, matchLoop_iff, Begins]
    constructor
    · rintro ⟨before, _, rfl, word, after, rfl, isWord, atEnd⟩
      exact ⟨before, word, after, (List.append_assoc _ _ _).symm, isWord,
        fun isAnchored => absurd isAnchored anchored, atEnd⟩
    · rintro ⟨before, word, after, rfl, isWord, -, atEnd⟩
      exact ⟨before, word ++ after, List.append_assoc _ _ _, word, after, rfl, isWord, atEnd⟩

end Grep

end Xv6
