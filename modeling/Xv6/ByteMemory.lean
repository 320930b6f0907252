import Mathlib.Data.BitVec
import Mathlib.Data.List.Basic

/-!
# Byte memories with wrapping addresses

A memory maps every address of a fixed width to a byte.  Addresses are added
and subtracted modulo the width, so an interval that is shorter than the whole
address space has pairwise different addresses, and what is written to it can
be read back.
-/

namespace Xv6

abbrev ByteMemory (width : Nat) : Type :=
  BitVec width → UInt8

namespace ByteMemory

variable {width : Nat}

def readBytes (memory : ByteMemory width) (address : BitVec width) (count : Nat) : List UInt8 :=
  (List.range count).map fun offset => memory (address + BitVec.ofNat width offset)

def writeBytes (memory : ByteMemory width) (address : BitVec width) (bytes : List UInt8) :
    ByteMemory width :=
  fun query => bytes[(query - address).toNat]?.getD (memory query)

@[simp]
theorem readBytes_length (memory : ByteMemory width) (address : BitVec width) (count : Nat) :
    (memory.readBytes address count).length = count := by
  simp [readBytes]

theorem writeBytes_apply_of_lt (memory : ByteMemory width) (address : BitVec width)
    {bytes : List UInt8} (fits : bytes.length ≤ 2 ^ width) {offset : Nat}
    (inside : offset < bytes.length) :
    memory.writeBytes address bytes (address + BitVec.ofNat width offset) = bytes[offset] := by
  have distance : (address + BitVec.ofNat width offset - address).toNat = offset := by
    grind
  rw [writeBytes, distance, List.getElem?_eq_getElem inside, Option.getD_some]

theorem readBytes_writeBytes (memory : ByteMemory width) (address : BitVec width)
    {bytes : List UInt8} (fits : bytes.length ≤ 2 ^ width) {count : Nat}
    (inside : count ≤ bytes.length) :
    (memory.writeBytes address bytes).readBytes address count = bytes.take count := by
  apply List.ext_getElem
  · simp [inside]
  · intro offset left right
    have early : offset < count := by simpa using left
    simp only [readBytes, List.getElem_map, List.getElem_range, List.getElem_take]
    exact writeBytes_apply_of_lt memory address fits (by omega)

end ByteMemory

end Xv6
