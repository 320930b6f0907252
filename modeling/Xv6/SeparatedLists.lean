import Mathlib.Data.List.Basic

/-!
# Lists with a separator

A list is cut at every occurrence of a separator.  All pieces but the last are
complete, and what follows later belongs to the last piece.
-/

namespace Xv6

namespace SeparatedLists

variable {α : Type} [DecidableEq α] {sep : α} {first list more : List α}

def complete (sep : α) (list : List α) : List (List α) :=
  (list.splitOn sep).dropLast

/-- What follows the last separator. -/
def remaining (sep : α) (list : List α) : List α :=
  (list.splitOn sep).getLast (List.splitOn_ne_nil sep list)

theorem splitOn_eq (sep : α) (list : List α) :
    list.splitOn sep = complete sep list ++ [remaining sep list] :=
  (List.dropLast_append_getLast (List.splitOn_ne_nil sep list)).symm

theorem piece_induction {motive : List α → Prop} (sep : α)
    (single : ∀ list, sep ∉ list → motive list)
    (piece : ∀ first list, sep ∉ first → motive list → motive (first ++ sep :: list))
    (list : List α) : motive list := by
  by_cases isMember : sep ∈ list
  · obtain ⟨first, later, isList, notFirst⟩ := List.eq_append_cons_of_mem isMember
    rw [isList]
    exact piece first later notFirst (piece_induction sep single piece later)
  · exact single list isMember
termination_by list.length
decreasing_by
  rw [isList, List.length_append, List.length_cons]
  omega

theorem complete_of_not_mem (isPiece : sep ∉ list) : complete sep list = [] := by
  rw [complete, List.splitOn_eq_singleton isPiece]
  rfl

theorem remaining_of_not_mem (isPiece : sep ∉ list) : remaining sep list = list := by
  simp only [remaining, List.splitOn_eq_singleton isPiece, List.getLast_singleton]

theorem complete_cons (isPiece : sep ∉ first) (list : List α) :
    complete sep (first ++ sep :: list) = first :: complete sep list := by
  rw [complete, List.splitOn_append_cons_self_of_not_mem isPiece,
    List.dropLast_cons_of_ne_nil (List.splitOn_ne_nil sep list)]
  rfl

theorem remaining_cons (isPiece : sep ∉ first) (list : List α) :
    remaining sep (first ++ sep :: list) = remaining sep list := by
  simp only [remaining, List.splitOn_append_cons_self_of_not_mem isPiece,
    List.getLast_cons (List.splitOn_ne_nil sep list)]

/-- The pieces with their separators are the list. -/
theorem flatMap_complete (sep : α) (list : List α) :
    (complete sep list).flatMap (· ++ [sep]) ++ remaining sep list = list := by
  induction list using piece_induction sep with
  | single list isPiece =>
    rw [complete_of_not_mem isPiece, remaining_of_not_mem isPiece]
    rfl
  | piece first list isPiece continues =>
    rw [complete_cons isPiece, remaining_cons isPiece, List.flatMap_cons, List.append_assoc,
      continues, List.append_assoc, List.singleton_append]

theorem length_remaining_le (sep : α) (list : List α) :
    (remaining sep list).length ≤ list.length := by
  have isList := congrArg List.length (flatMap_complete sep list)
  rw [List.length_append] at isList
  omega

theorem not_mem_remaining (sep : α) (list : List α) : sep ∉ remaining sep list := by
  induction list using piece_induction sep with
  | single list isPiece => rwa [remaining_of_not_mem isPiece]
  | piece first list isPiece continues => rwa [remaining_cons isPiece]

/-- With a separator a list is longer than what follows the last one. -/
theorem length_remaining_lt (isMember : sep ∈ list) :
    (remaining sep list).length < list.length := by
  refine Nat.lt_of_le_of_ne (length_remaining_le sep list) fun sameLength => ?_
  have isList := flatMap_complete sep list
  have lengths := congrArg List.length isList
  rw [List.length_append] at lengths
  have noPieces : (complete sep list).flatMap (· ++ [sep]) = [] :=
    List.eq_nil_of_length_eq_zero (by omega)
  rw [noPieces, List.nil_append] at isList
  rw [← isList] at isMember
  exact not_mem_remaining sep list isMember

theorem complete_append (sep : α) (list more : List α) :
    complete sep (list ++ more) =
      complete sep list ++ complete sep (remaining sep list ++ more) := by
  induction list using piece_induction sep with
  | single list isPiece =>
    rw [complete_of_not_mem isPiece, remaining_of_not_mem isPiece, List.nil_append]
  | piece first list isPiece continues =>
    grind [List.append_assoc, complete_cons, remaining_cons]

theorem remaining_append (sep : α) (list more : List α) :
    remaining sep (list ++ more) = remaining sep (remaining sep list ++ more) := by
  induction list using piece_induction sep with
  | single list isPiece => rw [remaining_of_not_mem isPiece]
  | piece first list isPiece continues =>
    rw [List.append_assoc, List.cons_append, remaining_cons isPiece, continues,
      remaining_cons isPiece]

theorem splitOn_append (sep : α) (list more : List α) :
    (list ++ more).splitOn sep =
      complete sep list ++ (remaining sep list ++ more).splitOn sep := by
  rw [splitOn_eq, splitOn_eq sep (remaining sep list ++ more), complete_append, remaining_append,
    List.append_assoc]

/-- Without its beginning a list has no longer pieces. -/
theorem exists_piece_ge (isPiece : sep ∉ first) {piece : List α}
    (isMember : piece ∈ list.splitOn sep) :
    ∃ larger ∈ (first ++ list).splitOn sep, piece.length ≤ larger.length := by
  induction list using piece_induction sep with
  | single list isSingle =>
    simp_all [List.splitOn_eq_singleton]
  | piece next list isNext continues =>
    have notMember : sep ∉ first ++ next := by
      grind
    rw [← List.append_assoc, List.splitOn_append_cons_self_of_not_mem notMember]
    rw [List.splitOn_append_cons_self_of_not_mem isNext, List.mem_cons] at isMember
    rcases isMember with rfl | isLater
    · simp_all
    · exact ⟨piece, List.mem_cons_of_mem _ isLater, Nat.le_refl _⟩

theorem exists_first_ge (isPiece : sep ∉ first) (list : List α) :
    ∃ larger ∈ (first ++ list).splitOn sep, first.length ≤ larger.length := by
  by_cases isMember : sep ∈ first ++ list
  · have inList : sep ∈ list := (List.mem_append.mp isMember).resolve_left isPiece
    obtain ⟨next, later, rfl, isNext⟩ := List.eq_append_cons_of_mem inList
    have notMember : sep ∉ first ++ next := by
      grind
    rw [← List.append_assoc, List.splitOn_append_cons_self_of_not_mem notMember]
    refine ⟨first ++ next, List.mem_cons_self, ?_⟩
    rw [List.length_append]
    omega
  · grind [List.splitOn_eq_singleton, List.length_append]

end SeparatedLists

end Xv6
