import Mathlib.Data.List.TakeWhile
import Mathlib.Data.Fintype.Basic

/-!
# NUL-terminated byte strings

The kernel handles user data as C strings.  A string value is a list of bytes
without NUL; the bytes of an array are read as a string up to their first NUL.
The loops of `strlen`, `strncmp` and `strncpy` are embedded as recursions on
the remaining count, with the end of the list standing for the terminating
NUL.  `strncpy` always stores exactly its count of bytes, so its effect is
described by the list of bytes it stores.
-/

namespace Xv6

namespace CString

/-- The bytes of an array up to, and without, the first NUL. -/
def ofBytes (bytes : List UInt8) : List UInt8 :=
  bytes.takeWhile (· ≠ 0)

def strlen (text : List UInt8) : Nat :=
  (ofBytes text).length

/-- `strncmp`: advance while both strings agree, then subtract the bytes. -/
def strncmp : List UInt8 → List UInt8 → Nat → Int
  | _, _, 0 => 0
  | left, right, count + 1 =>
    if left.headD 0 ≠ 0 ∧ left.headD 0 = right.headD 0 then
      strncmp left.tail right.tail count
    else
      (left.headD 0).toNat - (right.headD 0).toNat

/-- The bytes the two loops of `strncpy` store, in order: the source up to and
including its NUL, then NUL padding up to the count. -/
def strncpyBytes : List UInt8 → Nat → List UInt8
  | _, 0 => []
  | [], count + 1 => 0 :: List.replicate count 0
  | byte :: source, count + 1 =>
    if byte = 0 then 0 :: List.replicate count 0
    else byte :: strncpyBytes source count

/-- `strncpy` into an array.  A count below one stores nothing.  Bytes stored
past the end of the array belong to other objects and are not represented. -/
def strncpy {size : Nat} (target : Fin size → UInt8) (source : List UInt8) (count : Int) :
    Fin size → UInt8 :=
  fun index => (strncpyBytes source count.toNat)[index.val]?.getD (target index)

theorem ofBytes_eq_self {bytes : List UInt8} (free : 0 ∉ bytes) : ofBytes bytes = bytes := by
  grind [ofBytes, List.takeWhile_eq_self_iff]

theorem strlen_eq_length {text : List UInt8} (free : 0 ∉ text) :
    strlen text = text.length := by
  rw [strlen, ofBytes_eq_self free]

/-- The stored bytes are the source string, cut to the count and padded with
NUL. -/
theorem strncpyBytes_eq (source : List UInt8) (count : Nat) :
    strncpyBytes source count =
      (ofBytes source).take count ++
        List.replicate (count - (ofBytes source).length) 0 := by
  induction source generalizing count with
  | nil => cases count <;> simp [strncpyBytes, ofBytes, List.replicate_succ]
  | cons byte source ih =>
    cases count with
    | zero => simp [strncpyBytes]
    | succ count =>
      by_cases nul : byte = 0
      · simp [strncpyBytes, ofBytes, nul, List.replicate_succ]
      · have tail := ih count
        simp [strncpyBytes, ofBytes, nul, tail]

theorem not_mem_ofBytes (bytes : List UInt8) : 0 ∉ ofBytes bytes := fun member => by
  have nonzero := List.mem_takeWhile_imp member
  simp at nonzero

theorem length_ofBytes_le (bytes : List UInt8) : (ofBytes bytes).length ≤ bytes.length :=
  (List.takeWhile_sublist _).length_le

theorem ofBytes_eq (bytes : List UInt8) :
    ofBytes bytes = if bytes.headD 0 = 0 then [] else bytes.headD 0 :: ofBytes bytes.tail := by
  cases bytes with
  | nil => rfl
  | cons byte bytes =>
    by_cases nul : byte = 0
    · simp [ofBytes, nul]
    · simp [ofBytes, nul]

theorem ofBytes_strncpyBytes (source : List UInt8) (count : Nat) :
    ofBytes (strncpyBytes source count) = (ofBytes source).take count := by
  have free : ∀ byte ∈ (ofBytes source).take count, decide (byte ≠ 0) = true := fun byte member =>
    decide_eq_true fun nul =>
      not_mem_ofBytes source (nul ▸ (List.take_sublist _ _).subset member)
  rw [strncpyBytes_eq, ofBytes, List.takeWhile_append_of_pos free]
  cases count - (ofBytes source).length with
  | zero => exact List.append_nil _
  | succ rest => exact List.append_nil _

theorem strncmp_eq_zero_iff (left right : List UInt8) (count : Nat) :
    strncmp left right count = 0 ↔ (ofBytes left).take count = (ofBytes right).take count := by
  induction count generalizing left right with
  | zero => exact iff_of_true rfl rfl
  | succ count ih =>
    rw [strncmp, ofBytes_eq left, ofBytes_eq right]
    by_cases same : left.headD 0 = right.headD 0
    · grind
    · have different : (left.headD 0).toNat ≠ (right.headD 0).toNat := fun equal =>
        same (UInt8.toNat_inj.mp equal)
      rw [if_neg fun both => same both.2]
      refine iff_of_false (by omega) fun equal => same ?_
      split_ifs at equal with leftNul rightNul rightNul
      · rw [leftNul, rightNul]
      · cases equal
      · cases equal
      · exact (List.cons.inj equal).1

@[simp]
theorem strncpyBytes_length (source : List UInt8) (count : Nat) :
    (strncpyBytes source count).length = count := by
  rw [strncpyBytes_eq, List.length_append, List.length_take, List.length_replicate]
  omega

theorem strncpyBytes_congr {first second : List UInt8} (count : Nat)
    (same : ofBytes first = ofBytes second) :
    strncpyBytes first count = strncpyBytes second count := by
  rw [strncpyBytes_eq, strncpyBytes_eq, same]

/-- Copying a source that starts with `text` and a NUL, with room for both,
stores `text` followed by NUL padding. -/
theorem strncpyBytes_of_ofBytes_eq {source text : List UInt8} {count : Nat}
    (same : ofBytes source = text) (fits : text.length < count) :
    strncpyBytes source count = text ++ List.replicate (count - text.length) 0 := by
  rw [strncpyBytes_eq, same, List.take_of_length_le fits.le]

theorem getElem?_strncpyBytes {text : List UInt8} (free : 0 ∉ text) {count index : Nat}
    (inside : index < count) :
    (strncpyBytes text count)[index]? = some (text[index]?.getD 0) := by
  rw [strncpyBytes_eq, ofBytes_eq_self free]
  by_cases early : index < text.length
  · grind
  · grind

theorem strncpy_apply_of_lt {size : Nat} (target : Fin size → UInt8) {text : List UInt8}
    (free : 0 ∉ text) {count : Int} {index : Fin size} (inside : (index.val : Int) < count) :
    strncpy target text count index = text[index.val]?.getD 0 := by
  rw [strncpy, getElem?_strncpyBytes free (by omega), Option.getD_some]

theorem strncpy_apply_of_le {size : Nat} (target : Fin size → UInt8) (source : List UInt8)
    {count : Int} {index : Fin size} (outside : count ≤ index.val) :
    strncpy target source count index = target index := by
  rw [strncpy, List.getElem?_eq_none (by rw [strncpyBytes_length]; omega), Option.getD_none]

/-! ## What an array starts with -/

/-- The array starts with the string and its NUL. -/
def StartsWith (bytes text : List UInt8) : Prop :=
  text ++ [0] <+: bytes

/-- An array and what `strncpy` copies from it start with the same strings. -/
theorem startsWith_strncpyBytes_iff {bytes text : List UInt8} {count : Nat} (free : 0 ∉ text)
    (room : text.length < count) (inside : text.length < bytes.length) :
    StartsWith (strncpyBytes bytes count) text ↔ StartsWith bytes text := by
  rw [StartsWith, StartsWith]
  induction text generalizing bytes count with
  | nil =>
    cases bytes with
    | nil => simp at inside
    | cons byte rest =>
      cases count with
      | zero => simp at room
      | succ count =>
        by_cases nul : byte = 0 <;> simp [strncpyBytes, nul, List.cons_prefix_cons]
  | cons first text ih =>
    cases bytes with
    | nil => simp at inside
    | cons byte rest =>
      cases count with
      | zero => simp at room
      | succ count =>
        have notNul : first ≠ 0 := by
          rintro rfl
          simp at free
        by_cases nul : byte = 0
        · simp [strncpyBytes, nul, List.cons_prefix_cons, notNul]
        · simp_all [Ne.symm, strncpyBytes, List.cons_prefix_cons]

theorem startsWith_ofFn_iff {size : Nat} {array : Fin size → UInt8} {text : List UInt8}
    (inside : text.length < size) :
    StartsWith (List.ofFn array) text ↔
      ∀ index : Fin size, index.val ≤ text.length → array index = text[index.val]?.getD 0 := by
  rw [StartsWith, List.prefix_iff_getElem?]
  constructor
  · intro agrees index bound
    have same := agrees index.val (by simpa using Nat.lt_succ_of_le bound)
    rw [List.getElem?_ofFn, dif_pos index.isLt] at same
    have byte := Option.some.inj same
    rw [byte, List.getElem_append]
    split
    · rename_i early
      simp [early]
    · grind
  · grind

/-- After `strncpy` of a string the array starts with it exactly when what was
left in place beyond the count continues it. -/
theorem startsWith_strncpy_iff {size : Nat} {target : Fin size → UInt8} {text : List UInt8}
    (free : 0 ∉ text) (inside : text.length < size) (count : Int) :
    StartsWith (List.ofFn (strncpy target text count)) text ↔
      ∀ index : Fin size, count ≤ index.val → index.val ≤ text.length →
        target index = text[index.val]?.getD 0 := by
  grind [startsWith_ofFn_iff, strncpy_apply_of_le, strncpy_apply_of_lt]

/-! ## Copying twice -/

/-- `strncpy` replaces the first bytes of the array. -/
theorem ofFn_strncpy {size : Nat} (target : Fin size → UInt8) (source : List UInt8) {count : Nat}
    (fits : count ≤ size) :
    List.ofFn (strncpy target source count) =
      strncpyBytes source count ++ (List.ofFn target).drop count := by
  apply List.ext_getElem
  · simp [fits]
  · intro index left right
    rw [List.getElem_ofFn, List.getElem_append]
    split
    · rename_i early
      rw [strncpy, Int.toNat_natCast, List.getElem?_eq_getElem early, Option.getD_some]
    · rename_i late
      rw [strncpyBytes_length] at late
      rw [strncpy_apply_of_le target source (by simpa using not_lt.mp late), List.getElem_drop,
        List.getElem_ofFn]
      congr 1
      apply Fin.ext
      simp only [strncpyBytes_length]
      omega

theorem strncpyBytes_append {first second : List UInt8} (free : 0 ∉ first) (count : Nat) :
    strncpyBytes (first ++ second) count =
      first.take count ++ strncpyBytes second (count - first.length) := by
  induction first generalizing count with
  | nil => simp
  | cons byte first ih =>
    have notNul : byte ≠ 0 := by
      rintro rfl
      simp at free
    cases count with
    | zero => simp [strncpyBytes]
    | succ count =>
      simp_all [Ne.symm, strncpyBytes]

/-- Copy a string into two arrays and copy the arrays out: the results agree
exactly when the string was terminated, or what the arrays hold beyond the
count reads the same. -/
theorem strncpyBytes_strncpy_eq_iff {size : Nat} {first second : Fin size → UInt8}
    {text : List UInt8} (free : 0 ∉ text) {stored copied : Nat} (fits : stored ≤ size) :
    strncpyBytes (List.ofFn (strncpy first text stored)) copied =
        strncpyBytes (List.ofFn (strncpy second text stored)) copied ↔
      text.length < stored ∨
        strncpyBytes ((List.ofFn first).drop stored) (copied - stored) =
          strncpyBytes ((List.ofFn second).drop stored) (copied - stored) := by
  rw [ofFn_strncpy first text fits, ofFn_strncpy second text fits]
  by_cases terminated : text.length < stored
  · have same : ∀ rest : List UInt8, ofBytes (strncpyBytes text stored ++ rest) = text := by
      intro rest
      rw [strncpyBytes_of_ofBytes_eq (ofBytes_eq_self free) terminated,
        ← Nat.succ_pred_eq_of_pos (Nat.sub_pos_of_lt terminated), List.replicate_succ,
        List.append_assoc, ofBytes, List.takeWhile_append_of_pos, List.cons_append,
        List.takeWhile_cons_of_neg (by simp), List.append_nil]
      intro byte member
      simpa using ne_of_mem_of_not_mem member free
    simp only [terminated, true_or, iff_true]
    exact strncpyBytes_congr copied ((same _).trans (same _).symm)
  · have cut : strncpyBytes text stored = text.take stored := by
      rw [strncpyBytes_eq, ofBytes_eq_self free, Nat.sub_eq_zero_of_le (not_lt.mp terminated),
        List.replicate_zero, List.append_nil]
    have cutFree : 0 ∉ text.take stored := fun member => free (List.mem_of_mem_take member)
    have cutLength : (text.take stored).length = stored := by
      rw [List.length_take, Nat.min_eq_left (not_lt.mp terminated)]
    rw [cut, strncpyBytes_append cutFree, strncpyBytes_append cutFree, cutLength,
      List.append_cancel_left_eq]
    simp only [terminated, false_or]

/-! ## The accesses of a copy -/

/-- An access of a copying loop, by its index from the start of the source or
of the target. -/
inductive CopyAccess
  | load (index : Nat)
  | store (index : Nat) (byte : UInt8)
  deriving DecidableEq

def CopyAccess.index : CopyAccess → Nat
  | .load index => index
  | .store index _ => index

/-- The second loop of `strncpy`: the padding from `index` on. -/
def padAccesses : Nat → Nat → List CopyAccess
  | _, 0 => []
  | index, count + 1 => .store index 0 :: padAccesses (index + 1) count

/-- Both loops of `strncpy`, on a source in memory from `index` on. -/
def strncpyAccesses (source : Nat → UInt8) : Nat → Nat → List CopyAccess
  | _, 0 => []
  | index, count + 1 =>
    .load index :: .store index (source index) ::
      if source index = 0 then padAccesses (index + 1) count
      else strncpyAccesses source (index + 1) count

/-- The memory at a string: its bytes and its NUL, followed by anything. -/
def HoldsString (source : Nat → UInt8) (text : List UInt8) : Prop :=
  ∀ index, index ≤ (ofBytes text).length → source index = text[index]?.getD 0

theorem padAccesses_index_lt {index count : Nat} {access : CopyAccess}
    (member : access ∈ padAccesses index count) : access.index < index + count := by
  induction count generalizing index with
  | zero => cases member
  | succ count ih =>
    rcases List.mem_cons.mp member with rfl | later
    · exact Nat.lt_add_of_pos_right (Nat.succ_pos count)
    · have bound := ih later
      omega

theorem strncpyAccesses_index_lt {source : Nat → UInt8} {index count : Nat} {access : CopyAccess}
    (member : access ∈ strncpyAccesses source index count) : access.index < index + count := by
  induction count generalizing index with
  | zero => cases member
  | succ count ih =>
    rcases List.mem_cons.mp member with rfl | member
    · exact Nat.lt_add_of_pos_right (Nat.succ_pos count)
    rcases List.mem_cons.mp member with rfl | member
    · exact Nat.lt_add_of_pos_right (Nat.succ_pos count)
    have bound : access.index < index + 1 + count := by
      split at member
      · exact padAccesses_index_lt member
      · exact ih member
    omega

theorem padAccesses_store_iff {index count target : Nat} :
    (∃ byte, .store target byte ∈ padAccesses index count) ↔
      index ≤ target ∧ target < index + count := by
  induction count generalizing index with
  | zero =>
    simp only [padAccesses, List.not_mem_nil, exists_false, false_iff]
    omega
  | succ count ih =>
    simp only [padAccesses, List.mem_cons, CopyAccess.store.injEq, exists_or, ih]
    constructor
    · grind
    · grind

theorem strncpyAccesses_store_iff {source : Nat → UInt8} {index count target : Nat} :
    (∃ byte, .store target byte ∈ strncpyAccesses source index count) ↔
      index ≤ target ∧ target < index + count := by
  induction count generalizing index with
  | zero =>
    simp only [strncpyAccesses, List.not_mem_nil, exists_false, false_iff]
    omega
  | succ count ih =>
    have later : (∃ byte, .store target byte ∈
        if source index = 0 then padAccesses (index + 1) count
          else strncpyAccesses source (index + 1) count) ↔
        index + 1 ≤ target ∧ target < index + 1 + count := by
      split
      · exact padAccesses_store_iff
      · exact ih
    simp only [strncpyAccesses, List.mem_cons, CopyAccess.store.injEq, exists_or, later,
      reduceCtorEq, false_or]
    constructor
    · grind
    · grind

theorem padAccesses_load {index count loaded : Nat} :
    .load loaded ∉ padAccesses index count := by
  induction count generalizing index with
  | zero => exact List.not_mem_nil
  | succ count ih =>
    intro member
    rcases List.mem_cons.mp member with same | later
    · cases same
    · exact ih later

theorem strncpyAccesses_load_le {source : Nat → UInt8} {index count stop loaded : Nat}
    (nul : source stop = 0) (before : index ≤ stop)
    (member : .load loaded ∈ strncpyAccesses source index count) : loaded ≤ stop := by
  induction count generalizing index with
  | zero => cases member
  | succ count ih =>
    rcases List.mem_cons.mp member with same | member
    · grind
    rcases List.mem_cons.mp member with same | member
    · cases same
    split at member
    · exact absurd member padAccesses_load
    · grind

end CString

abbrev CStr : Type :=
  { bytes : List UInt8 // 0 ∉ bytes }

end Xv6
