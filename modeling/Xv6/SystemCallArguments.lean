import Xv6.ByteMemory
import Xv6.CStrings

/-!
# Fetching system call arguments

A system call finds its arguments on the user stack, above the saved program
counter.  The fetching functions check addresses against the size of the
process with 32-bit unsigned arithmetic that wraps, and give up when a check
fails.  A string argument is scanned up to its NUL, which must lie below the
size of the process.
-/

namespace Xv6

open CString

/-- The user memory of a process: its size, its saved stack pointer, and the
bytes at its virtual addresses. -/
structure UserMemory where
  sz : BitVec 32
  esp : BitVec 32
  memory : ByteMemory 32

namespace UserMemory

def word (user : UserMemory) (addr : BitVec 32) : BitVec 32 :=
  (user.memory (addr + 3)).toBitVec ++ (user.memory (addr + 2)).toBitVec ++
    (user.memory (addr + 1)).toBitVec ++ (user.memory addr).toBitVec

def fetchint (user : UserMemory) (addr : BitVec 32) : Option (BitVec 32) :=
  if addr ≥ user.sz ∨ addr + 4 > user.sz then none else some (user.word addr)

/-- The loop of `fetchstr`, over the addresses left below the process size. -/
def scanstr (user : UserMemory) : Nat → BitVec 32 → Option CStr
  | 0, _ => none
  | left + 1, addr =>
    if nul : user.memory addr = 0 then some ⟨[], List.not_mem_nil⟩
    else
      (user.scanstr left (addr + 1)).map fun rest =>
        ⟨user.memory addr :: rest.val, by simp [Ne.symm nul, rest.property]⟩

/-- `fetchstr`, with the string in place of the pointer to it. -/
def fetchstr (user : UserMemory) (addr : BitVec 32) : Option CStr :=
  if addr ≥ user.sz then none else user.scanstr (user.sz - addr).toNat addr

/-- `argint`: the word of the `n`th argument. -/
def argint (user : UserMemory) (n : Nat) : Option (BitVec 32) :=
  user.fetchint (user.esp + 4 + 4 * BitVec.ofNat 32 n)

/-- `argptr`: the `n`th argument as a pointer to `size` bytes. -/
def argptr (user : UserMemory) (n : Nat) (size : Int) : Option (BitVec 32) :=
  (user.argint n).bind fun pointer =>
    if size < 0 ∨ pointer ≥ user.sz ∨ pointer + BitVec.ofInt 32 size > user.sz then none
    else some pointer

/-- `argstr`: the `n`th argument as a string. -/
def argstr (user : UserMemory) (n : Nat) : Option CStr :=
  (user.argint n).bind user.fetchstr

end UserMemory

end Xv6
