import Mathlib.Data.BitVec
import Mathlib.Data.List.Basic

/-!
# Ring buffers with free-running indices

A ring of `size` cells is addressed by machine words that are only ever
incremented or decremented, and reduced modulo `size` at each access.  When `size`
divides the number of words, the reduction commutes with the wrap of the words, so
the cells between two indices form a queue even across the wrap.
-/

namespace Xv6

namespace RingBuffer

variable {width size : Nat} {α : Type}

/-! ## Distances -/

def distance (first last : BitVec width) : Nat :=
  (last - first).toNat

theorem distance_lt (first last : BitVec width) : distance first last < 2 ^ width :=
  (last - first).isLt

@[simp]
theorem distance_self (index : BitVec width) : distance index index = 0 := by
  simp [distance]

theorem add_distance (first last : BitVec width) :
    first + BitVec.ofNat width (distance first last) = last := by
  rw [distance, BitVec.ofNat_toNat, BitVec.setWidth_eq, BitVec.add_comm, BitVec.sub_add_cancel]

variable {first last : BitVec width}

theorem distance_eq_zero_iff : distance first last = 0 ↔ first = last := by
  constructor
  · intro zero
    have sum := add_distance first last
    rw [zero] at sum
    simpa using sum
  · rintro rfl
    exact distance_self first

theorem distance_add {count : Nat} (fits : count < 2 ^ width) :
    distance first (first + BitVec.ofNat width count) = count := by
  rw [distance, BitVec.add_comm, BitVec.add_sub_cancel, BitVec.toNat_ofNat, Nat.mod_eq_of_lt fits]

theorem eq_add_iff_distance {count : Nat} (fits : count < 2 ^ width) :
    last = first + BitVec.ofNat width count ↔ distance first last = count := by
  grind [distance_add, add_distance]

theorem succ_add (first : BitVec width) (count : Nat) :
    first + 1 + BitVec.ofNat width count = first + BitVec.ofNat width (count + 1) := by
  rw [BitVec.ofNat_add, BitVec.add_assoc]
  exact congrArg (first + ·) (BitVec.add_comm _ _)

theorem distance_succ_right (fits : distance first last + 1 < 2 ^ width) :
    distance first (last + 1) = distance first last + 1 := by
  rw [← eq_add_iff_distance fits, BitVec.ofNat_add, ← BitVec.add_assoc, add_distance]
  rfl

theorem distance_succ_left (positive : 0 < distance first last) :
    distance (first + 1) last = distance first last - 1 := by
  have bound := distance_lt first last
  rw [← eq_add_iff_distance (by omega), succ_add, Nat.sub_add_cancel positive, add_distance]

theorem distance_pred_right (positive : 0 < distance first last) :
    distance first (last - 1) = distance first last - 1 := by
  have bound := distance_lt first last
  rw [← eq_add_iff_distance (by omega), BitVec.sub_eq_iff_eq_add, BitVec.add_assoc]
  have sum : BitVec.ofNat width (distance first last - 1) + 1 =
      BitVec.ofNat width (distance first last) := by
    rw [← Nat.sub_add_cancel positive, BitVec.ofNat_add, Nat.add_sub_cancel]
    rfl
  rw [sum, add_distance]

theorem distance_trans {middle : BitVec width}
    (fits : distance first middle + distance middle last < 2 ^ width) :
    distance first last = distance first middle + distance middle last := by
  rw [← eq_add_iff_distance fits, BitVec.ofNat_add, ← BitVec.add_assoc, add_distance, add_distance]

/-! ## Cells -/

section Cells

variable [NeZero size]

def cell (size : Nat) [NeZero size] (index : BitVec width) : Fin size :=
  Fin.ofNat size index.toNat

def put (buffer : Fin size → α) (index : BitVec width) (value : α) : Fin size → α :=
  Function.update buffer (cell size index) value

def slice (buffer : Fin size → α) (first : BitVec width) (count : Nat) : List α :=
  (List.range count).map fun offset => buffer (cell size (first + BitVec.ofNat width offset))

@[simp]
theorem slice_length (buffer : Fin size → α) (first : BitVec width) (count : Nat) :
    (slice buffer first count).length = count := by
  simp [slice]

@[simp]
theorem slice_zero (buffer : Fin size → α) (first : BitVec width) : slice buffer first 0 = [] :=
  rfl

theorem slice_succ (buffer : Fin size → α) (first : BitVec width) (count : Nat) :
    slice buffer first (count + 1) =
      slice buffer first count ++ [buffer (cell size (first + BitVec.ofNat width count))] := by
  simp [slice, List.range_succ]

theorem slice_succ_left (buffer : Fin size → α) (first : BitVec width) (count : Nat) :
    slice buffer first (count + 1) =
      buffer (cell size first) :: slice buffer (first + 1) count := by
  rw [slice, List.range_succ_eq_map, List.map_cons, List.map_map, slice]
  congr 1
  · simp
  · apply List.map_congr_left
    intro offset _
    rw [Function.comp_apply, succ_add]

theorem slice_add (buffer : Fin size → α) (first : BitVec width) (count more : Nat) :
    slice buffer first (count + more) =
      slice buffer first count ++
        slice buffer (first + BitVec.ofNat width count) more := by
  induction more with
  | zero => simp
  | succ more ih =>
    rw [← Nat.add_assoc, slice_succ, ih, slice_succ, List.append_assoc, BitVec.ofNat_add,
      BitVec.add_assoc]

variable (divides : size ∣ 2 ^ width)

include divides

theorem cell_add (first : BitVec width) (offset : Nat) :
    (cell size (first + BitVec.ofNat width offset)).val = (first.toNat + offset) % size := by
  rw [cell, Fin.val_ofNat, BitVec.toNat_add, BitVec.toNat_ofNat, Nat.add_mod_mod,
    Nat.mod_mod_of_dvd _ divides]

variable {first : BitVec width}

theorem cell_add_ne {offset other : Nat} (less : offset < other) (near : other - offset < size) :
    cell size (first + BitVec.ofNat width offset) ≠
      cell size (first + BitVec.ofNat width other) := by
  intro same
  have values := congrArg Fin.val same
  rw [cell_add divides, cell_add divides] at values
  have multiple : size ∣ first.toNat + other - (first.toNat + offset) :=
    (Nat.modEq_iff_dvd' (by omega)).mp values
  have zero := Nat.eq_zero_of_dvd_of_lt multiple (by omega)
  omega

theorem slice_put {count offset : Nat} (outside : count ≤ offset) (near : offset < size)
    (buffer : Fin size → α) (value : α) :
    slice (put buffer (first + BitVec.ofNat width offset) value) first count =
      slice buffer first count := by
  apply List.map_congr_left
  intro index member
  have bound : index < count := List.mem_range.mp member
  have different : cell size (first + BitVec.ofNat width index) ≠
      cell size (first + BitVec.ofNat width offset) :=
    cell_add_ne divides (by omega) (by omega)
  exact Function.update_of_ne different value buffer

theorem slice_put_succ {count : Nat} (room : count < size) (buffer : Fin size → α) (value : α) :
    slice (put buffer (first + BitVec.ofNat width count) value) first (count + 1) =
      slice buffer first count ++ [value] := by
  rw [slice_succ, slice_put divides le_rfl room, put, Function.update_self]

end Cells

end RingBuffer

end Xv6
