import Mathlib.Algebra.Ring.Nat
import Mathlib.Logic.Function.Basic
import Xv6.StoppableCode

/-!
# Physical pages and page tables

`kalloc.c` keeps the free pages of physical memory in a list, and `vm.c` builds
page directories, page tables and user memory from them.  A page is known by its
number, whether the kernel reaches it by its physical or its virtual address, and
holds 1024 words of 32 bits.  An entry of a directory or of a table is the number
of a page times 4096 plus flags, and virtual addresses that are multiples of a page
are page numbers too.

Code stops at a call of `panic`, at a read through the null pointer, and when a loop
has gone more rounds than the pages of an address space.  It also stops where a page
that is on the free list would be freed, which `kfree` does not check.  Any call of
`kalloc` may fail, also while there are free pages.
-/

namespace Xv6

namespace Vm

inductive Stop
  | panic
  | endless
  | fault
  | freedTwice
  deriving DecidableEq, Repr

/-- Physical memory.  The allocator manages the pages from `bottom`, the first that
starts at or after `end`, up to `PHYSTOP`, and `data` is the page the kernel's data
starts with.  An entry `true` of `failures` says that the call of `kalloc` at that
place of the sequence fails, and `refusals` counts the calls that have failed. -/
structure Memory where
  word : Nat → Nat → Nat
  freelist : List Nat
  failures : List Bool
  refusals : Nat
  bottom : Nat
  data : Nat

abbrev Code :=
  StateT Memory (Except Stop)

abbrev Present (entry : Nat) : Prop :=
  entry % 2 = 1

abbrev User (entry : Nat) : Prop :=
  entry / 4 % 2 = 1

/-- The page number of `PGROUNDUP(size)`. -/
def pageUp (size : Nat) : Nat :=
  (size + 4095) % 0x100000000 / 4096

namespace Memory

def setPage (memory : Memory) (page : Nat) (words : Nat → Nat) : Memory :=
  { memory with word := Function.update memory.word page words }

def setWord (memory : Memory) (page index value : Nat) : Memory :=
  memory.setPage page (Function.update (memory.word page) index value)

def byte (memory : Memory) (page offset : Nat) : Nat :=
  memory.word page (offset / 4) / 256 ^ (offset % 4) % 256

def setByte (memory : Memory) (page offset value : Nat) : Memory :=
  let word := memory.word page (offset / 4)
  let place := 256 ^ (offset % 4)
  memory.setWord page (offset / 4) (word % place + place * (value + 256 * (word / place / 256)))

/-- `memmove` into a page. -/
def setBytes (memory : Memory) (page offset : Nat) : List Nat → Memory
  | [] => memory
  | value :: values => (memory.setByte page offset value).setBytes page (offset + 1) values

def refuse (memory : Memory) (failures : List Bool) : Memory :=
  { memory with failures := failures, refusals := memory.refusals + 1 }

def take (memory : Memory) (failures : List Bool) (freelist : List Nat) : Memory :=
  { memory with failures := failures, freelist := freelist }

def kalloc (memory : Memory) : Option Nat × Memory :=
  if memory.failures.head? = some true then (none, memory.refuse memory.failures.tail)
  else
    match memory.freelist with
    | [] => (none, memory.refuse memory.failures.tail)
    | page :: freelist => (some page, memory.take memory.failures.tail freelist)

/-- `kfree` filled a page and put it on the free list. -/
def release (memory : Memory) (page : Nat) : Memory :=
  { memory.setPage page fun _ => 0x01010101 with freelist := page :: memory.freelist }

end Memory

/-- `kalloc`: the number of a page, or `none` for the null pointer. -/
def kalloc : Code (Option Nat) :=
  modifyGet Memory.kalloc

def kfree (page : Nat) : Code Unit := do
  let memory ← get
  if page < memory.bottom ∨ 0xE000 ≤ page then throw .panic
  else if page ∈ memory.freelist then throw .freedTwice
  else modify (·.release page)

/-- `walkpgdir`: the table and the index of the entry of a virtual page. -/
def walkpgdir (pgdir va : Nat) (alloc : Bool) : Code (Option (Nat × Nat)) := do
  let memory ← get
  let pde := memory.word pgdir (va / 1024)
  if Present pde then pure (some (pde / 4096, va % 1024))
  else if alloc then
    match ← kalloc with
    | none => pure none
    | some pgtab =>
      modify fun memory =>
        (memory.setPage pgtab fun _ => 0).setWord pgdir (va / 1024) (4096 * pgtab ||| 7)
      pure (some (pgtab, va % 1024))
  else pure none

/-- `mappages`, for the number of pages from the one of `va` to the one of the last
byte. -/
def mappages (pgdir perm : Nat) : Nat → Nat → Nat → Code Bool
  | 0, _, _ => pure true
  | count + 1, a, pa => do
    match ← walkpgdir pgdir a true with
    | none => pure false
    | some (pgtab, index) =>
      let memory ← get
      if Present (memory.word pgtab index) then throw .panic
      else
        modify (·.setWord pgtab index (4096 * pa ||| perm ||| 1))
        mappages pgdir perm count (a + 1) (pa + 1)

/-- The page an entry refers to is freed and the entry cleared, if it is present. -/
def clearEntry (pgtab index : Nat) : Code Unit := do
  let memory ← get
  let entry := memory.word pgtab index
  if Present entry then
    if entry / 4096 = 0 then throw .panic
    else
      kfree (entry / 4096)
      modify (·.setWord pgtab index 0)
  else pure ()

/-- A round of the loop in `deallocuvm`, and the page of the next one. -/
def deallocPage (pgdir a : Nat) : Code Nat := do
  match ← walkpgdir pgdir a false with
  | none => pure ((a / 1024 + 1) * 1024 % 0x100000)
  | some (pgtab, index) =>
    clearEntry pgtab index
    pure ((a + 1) % 0x100000)

def deallocLoop (pgdir oldsz : Nat) : Nat → Nat → Code Unit
  | 0, _ => throw .endless
  | rounds + 1, a =>
    if 4096 * a < oldsz then do
      let next ← deallocPage pgdir a
      deallocLoop pgdir oldsz rounds next
    else pure ()

def deallocuvm (pgdir oldsz newsz : Nat) : Code Nat :=
  if oldsz ≤ newsz then pure oldsz
  else do
    deallocLoop pgdir oldsz 0x100001 (pageUp newsz)
    pure newsz

def freeTables (pgdir : Nat) : List Nat → Code Unit
  | [] => pure ()
  | index :: rest => do
    let memory ← get
    let pde := memory.word pgdir index
    if Present pde then do
      kfree (pde / 4096)
      freeTables pgdir rest
    else freeTables pgdir rest

def freevm (pgdir : Nat) : Code Unit := do
  let _ ← deallocuvm pgdir 0x80000000 0
  freeTables pgdir (List.range 1024)
  kfree pgdir

/-- An entry of `kmap`: the first virtual page, the number of pages, the first
physical page and the flags. -/
structure Kmap where
  virt : Nat
  count : Nat
  phys : Nat
  perm : Nat

def kmap (data : Nat) : List Kmap :=
  [⟨0x80000, 0x100, 0, 2⟩,
    ⟨0x80100, data - 0x100, 0x100, 0⟩,
    ⟨0x80000 + data, 0xE000 - data, data, 2⟩,
    ⟨0xFE000, 0x2000, 0xFE000, 2⟩]

def mapKernel (pgdir : Nat) : List Kmap → Code Bool
  | [] => pure true
  | k :: rest => do
    if ← mappages pgdir k.perm k.count k.virt k.phys then mapKernel pgdir rest
    else pure false

def setupkvm : Code (Option Nat) := do
  match ← kalloc with
  | none => pure none
  | some pgdir =>
    modify (·.setPage pgdir fun _ => 0)
    let memory ← get
    if ← mapKernel pgdir (kmap memory.data) then pure (some pgdir)
    else
      freevm pgdir
      pure none

def allocLoop (pgdir oldsz newsz : Nat) : Nat → Nat → Code Bool
  | 0, _ => throw .endless
  | rounds + 1, a =>
    if 4096 * a < newsz then do
      match ← kalloc with
      | none =>
        let _ ← deallocuvm pgdir newsz oldsz
        pure false
      | some mem =>
        modify (·.setPage mem fun _ => 0)
        if ← mappages pgdir 6 1 a mem then
          allocLoop pgdir oldsz newsz rounds ((a + 1) % 0x100000)
        else
          let _ ← deallocuvm pgdir newsz oldsz
          kfree mem
          pure false
    else pure true

def allocuvm (pgdir oldsz newsz : Nat) : Code Nat :=
  if 0x80000000 ≤ newsz then pure 0
  else if newsz < oldsz then pure oldsz
  else do
    if ← allocLoop pgdir oldsz newsz 0x100001 (pageUp oldsz) then pure newsz
    else pure 0

def clearpteu (pgdir uva : Nat) : Code Unit := do
  match ← walkpgdir pgdir uva false with
  | none => throw .panic
  | some (pgtab, index) =>
    modify fun memory =>
      let entry := memory.word pgtab index
      memory.setWord pgtab index (entry - entry / 4 % 2 * 4)

def copyLoop (pgdir d sz : Nat) : Nat → Nat → Code Bool
  | 0, _ => throw .endless
  | rounds + 1, i =>
    if 4096 * i < sz then do
      match ← walkpgdir pgdir i false with
      | none => throw .panic
      | some (pgtab, index) =>
        let memory ← get
        let entry := memory.word pgtab index
        if Present entry then
          match ← kalloc with
          | none => pure false
          | some mem =>
            modify fun memory => memory.setPage mem (memory.word (entry / 4096))
            if ← mappages d (entry % 4096) 1 i mem then
              copyLoop pgdir d sz rounds ((i + 1) % 0x100000)
            else
              kfree mem
              pure false
        else throw .panic
    else pure true

def copyuvm (pgdir sz : Nat) : Code (Option Nat) := do
  match ← setupkvm with
  | none => pure none
  | some d =>
    if ← copyLoop pgdir d sz 0x100001 0 then pure (some d)
    else
      freevm d
      pure none

/-- `uva2ka`: the page of a user address.  The entry is read also where `walkpgdir`
returned the null pointer. -/
def uva2ka (pgdir uva : Nat) : Code (Option Nat) := do
  match ← walkpgdir pgdir uva false with
  | none => throw .fault
  | some (pgtab, index) =>
    let memory ← get
    let entry := memory.word pgtab index
    if Present entry ∧ User entry then pure (some (entry / 4096)) else pure none

def copyoutLoop (pgdir : Nat) : Nat → Nat → List Nat → Code Bool
  | _, _, [] => pure true
  | 0, _, _ :: _ => throw .endless
  | rounds + 1, va, p :: rest => do
    match ← uva2ka pgdir (va / 4096) with
    | none => pure false
    | some pa0 =>
      let n := min (4096 - va % 4096) (p :: rest).length
      modify (·.setBytes pa0 (va % 4096) ((p :: rest).take n))
      copyoutLoop pgdir rounds ((va / 4096 + 1) * 4096 % 0x100000000) ((p :: rest).drop n)

/-- `copyout`: whether it returns 0.  The source is given by its bytes. -/
def copyout (pgdir va : Nat) (p : List Nat) : Code Bool :=
  copyoutLoop pgdir p.length va p

end Vm

end Xv6
