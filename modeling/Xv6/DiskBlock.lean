import Mathlib.Data.BitVec
import Mathlib.Data.Fintype.Basic
import Mathlib.Data.Nat.Bitwise
import Mathlib.Tactic.IntervalCases

/-!
# Disk blocks as bytes and as words

A disk block is an array of bytes that parts of the file system read as an
array of 32-bit little-endian words: the header of the log and the blocks of
indirect addresses.  A word that was stored is read back, and storing it leaves
the other words alone.
-/

namespace Xv6

namespace DiskBlock

/-- `BSIZE`: bytes of a block. -/
abbrev bsize : Nat := 512

abbrev wordCount : Nat := 128

abbrev Data : Type :=
  Fin bsize → UInt8

/-- The byte at an index.  No access of the model is outside the block. -/
def byte (data : Data) (index : Nat) : UInt8 :=
  if inside : index < bsize then data ⟨index, inside⟩ else 0

def word (data : Data) (index : Nat) : BitVec 32 :=
  (byte data (4 * index + 3)).toBitVec ++ (byte data (4 * index + 2)).toBitVec ++
    (byte data (4 * index + 1)).toBitVec ++ (byte data (4 * index)).toBitVec

def setWord (data : Data) (index : Nat) (value : BitVec 32) : Data :=
  fun position =>
    if position.val / 4 = index then
      UInt8.ofBitVec (value.extractLsb' (8 * (position.val % 4)) 8)
    else data position

def setWords (data : Data) (index : Nat) : List (BitVec 32) → Data
  | [] => data
  | value :: rest => setWords (setWord data index value) (index + 1) rest

variable {index other : Nat}

theorem byte_setWord_self (data : Data) (inside : index < wordCount) (value : BitVec 32)
    {part : Nat} (small : part < 4) :
    (byte (setWord data index value) (4 * index + part)).toBitVec =
      value.extractLsb' (8 * part) 8 := by
  grind [byte, setWord]

theorem byte_setWord_of_ne (data : Data) (different : other ≠ index) (value : BitVec 32)
    {part : Nat} (small : part < 4) :
    byte (setWord data index value) (4 * other + part) = byte data (4 * other + part) := by
  grind [byte, setWord]

@[simp]
theorem word_setWord_self (data : Data) (inside : index < wordCount) (value : BitVec 32) :
    word (setWord data index value) index = value := by
  rw [word, byte_setWord_self data inside value (by decide : 3 < 4),
    byte_setWord_self data inside value (by decide : 2 < 4),
    byte_setWord_self data inside value (by decide : 1 < 4),
    ← Nat.add_zero (4 * index), byte_setWord_self data inside value (by decide : 0 < 4)]
  ext position bound
  grind

theorem word_setWord_of_ne (data : Data) (different : other ≠ index) (value : BitVec 32) :
    word (setWord data index value) other = word data other := by
  rw [word, word, byte_setWord_of_ne data different value (by decide : 3 < 4),
    byte_setWord_of_ne data different value (by decide : 2 < 4),
    byte_setWord_of_ne data different value (by decide : 1 < 4),
    ← Nat.add_zero (4 * other), byte_setWord_of_ne data different value (by decide : 0 < 4)]

theorem word_setWords_of_lt (data : Data) (before : other < index) (values : List (BitVec 32)) :
    word (setWords data index values) other = word data other := by
  induction values generalizing data index with
  | nil => rfl
  | cons value rest ih =>
    rw [setWords, ih _ (by omega), word_setWord_of_ne _ (by omega)]

theorem word_setWords (data : Data) {values : List (BitVec 32)}
    (inside : index + values.length ≤ wordCount) (offset : Nat) (bound : offset < values.length) :
    word (setWords data index values) (index + offset) = values[offset] := by
  induction values generalizing data index offset with
  | nil => cases bound
  | cons value rest ih =>
    rw [List.length_cons] at inside bound
    rw [setWords]
    cases offset with
    | zero =>
      rw [Nat.add_zero, word_setWords_of_lt _ (by omega)]
      exact word_setWord_self data (by omega) value
    | succ offset =>
      rw [← Nat.add_assoc, Nat.add_right_comm]
      exact ih _ (by omega) offset (by omega)

/-! ## Single bytes and bits -/

def setByte (data : Data) (index : Nat) (value : UInt8) : Data :=
  fun position => if position.val = index then value else data position

theorem byte_setByte_self (data : Data) (inside : index < bsize) (value : UInt8) :
    byte (setByte data index value) index = value := by
  simp [byte, setByte, inside]

theorem byte_setByte_of_ne (data : Data) (different : other ≠ index) (value : UInt8) :
    byte (setByte data index value) other = byte data other := by
  simp [byte, setByte, different]

def mask (bit : Nat) : UInt8 :=
  1 <<< UInt8.ofNat (bit % 8)

def bitClear (data : Data) (bit : Nat) : Bool :=
  byte data (bit / 8) &&& mask bit == 0

def setBit (data : Data) (bit : Nat) : Data :=
  setByte data (bit / 8) (byte data (bit / 8) ||| mask bit)

def clearBit (data : Data) (bit : Nat) : Data :=
  setByte data (bit / 8) (byte data (bit / 8) &&& ~~~ mask bit)

theorem toNat_mask (bit : Nat) : (mask bit).toNat = 2 ^ (bit % 8) := by
  have small : bit % 8 < 8 := Nat.mod_lt _ (by decide)
  rw [mask]
  interval_cases bit % 8 <;> rfl

theorem bitClear_eq (data : Data) (bit : Nat) :
    bitClear data bit = !(byte data (bit / 8)).toNat.testBit (bit % 8) := by
  have zero : byte data (bit / 8) &&& mask bit = 0 ↔
      (byte data (bit / 8)).toNat &&& 2 ^ (bit % 8) = 0 := by
    rw [← toNat_mask, ← UInt8.toNat_and, ← UInt8.toNat_inj]
    rfl
  rw [bitClear, Bool.eq_iff_iff, beq_iff_eq, zero, Nat.and_two_pow]
  cases (byte data (bit / 8)).toNat.testBit (bit % 8) <;> simp

abbrev bitCount : Nat := 4096

theorem bitClear_setBit (data : Data) {bit : Nat} (inside : bit < bitCount) (other : Nat) :
    bitClear (setBit data bit) other = (bitClear data other && decide (other ≠ bit)) := by
  change bit < 4096 at inside
  rw [bitClear_eq, bitClear_eq, setBit]
  by_cases sameByte : other / 8 = bit / 8
  · grind [byte_setByte_self, UInt8.toNat_or, toNat_mask]
  · grind [byte_setByte_of_ne]

theorem bitClear_clearBit (data : Data) {bit : Nat} (inside : bit < bitCount) (other : Nat) :
    bitClear (clearBit data bit) other = (bitClear data other || decide (other = bit)) := by
  change bit < 4096 at inside
  rw [bitClear_eq, bitClear_eq, clearBit]
  by_cases sameByte : other / 8 = bit / 8
  · have small : 2 ^ (bit % 8) < 2 ^ 8 := Nat.pow_lt_pow_right (by decide) (by omega)
    have complement : (~~~ mask bit).toNat = 2 ^ 8 - (2 ^ (bit % 8) + 1) := by
      rw [UInt8.toNat_not, toNat_mask]
      change 256 - 1 - _ = 256 - _
      omega
    have bits : bit % 8 = other % 8 ↔ other = bit := by omega
    have low : other % 8 < 8 := by omega
    rw [sameByte, byte_setByte_self data (by change _ < 512; omega), UInt8.toNat_and, complement,
      Nat.testBit_and, Nat.testBit_two_pow_sub_succ small, Nat.testBit_two_pow]
    simp [bits, low]
  · grind [byte_setByte_of_ne]

/-! ## Runs of bytes -/

def bytes (data : Data) (index count : Nat) : List UInt8 :=
  (List.range count).map fun offset => byte data (index + offset)

def setBytes (data : Data) (index : Nat) (values : List UInt8) : Data :=
  fun position =>
    if index ≤ position.val then values.getD (position.val - index) (data position)
    else data position

theorem byte_setBytes (data : Data) {values : List UInt8} {position : Nat}
    (inside : position < bsize) :
    byte (setBytes data index values) position =
      if index ≤ position then values.getD (position - index) (byte data position)
      else byte data position := by
  simp [byte, setBytes, inside]

end DiskBlock

end Xv6
