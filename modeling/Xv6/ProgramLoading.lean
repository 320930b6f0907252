import Xv6.CopyOut
import Xv6.KernelMappings

/-!
# Programs loaded into an address space

`exec` makes an address space, loads the segments of a program into it, adds a guard
page and a page for the stack, and copies the arguments to the stack.  It then takes
the place of the old address space, or is given up.  A program is given by the bytes
of its file, and an argument by its bytes without the terminating zero.
-/

namespace Xv6

namespace Vm

open Memory

/-- What `exec` changes of a process: its address space, two registers of the trap
frame and the name. -/
structure Task where
  pgdir : Nat
  sz : Nat
  eip : Nat
  esp : Nat
  name : List Nat
  deriving DecidableEq

def littleEndian : List Nat → Nat
  | [] => 0
  | byte :: bytes => byte + 256 * littleEndian bytes

def field (header : List Nat) (offset size : Nat) : Nat :=
  littleEndian ((header.drop offset).take size)

/-- `readi` on a file: the bytes read, or `none` for -1. -/
def readi (file : List Nat) (off n : Nat) : Option (List Nat) :=
  if file.length < off ∨ 0x100000000 ≤ off + n then none else some ((file.drop off).take n)

def readAll (file : List Nat) (off n : Nat) : Option (List Nat) :=
  (readi file off n).filter (·.length = n)

def loaduvmLoop (pgdir addr : Nat) (file : List Nat) (offset sz : Nat) : Nat → Nat → Code Bool
  | 0, _ => throw .endless
  | rounds + 1, i =>
    if i < sz then do
      match ← walkpgdir pgdir ((addr + i) % 0x100000000 / 4096) false with
      | none => throw .panic
      | some (pgtab, index) =>
        let memory ← get
        let n := min (sz - i) 4096
        match readi file ((offset + i) % 0x100000000) n with
        | none => pure false
        | some bytes =>
          modify (·.setBytes (memory.word pgtab index / 4096) 0 bytes)
          if bytes.length = n then loaduvmLoop pgdir addr file offset sz rounds (i + 4096)
          else pure false
    else pure true

def loaduvm (pgdir addr : Nat) (file : List Nat) (offset sz : Nat) : Code Bool :=
  if addr % 4096 = 0 then loaduvmLoop pgdir addr file offset sz 0x100001 0 else throw .panic

/-- The loop over the program headers: the size after the segments, or `none` for
`goto bad`. -/
def loadSegments (pgdir : Nat) (file : List Nat) : Nat → Nat → Nat → Code (Option Nat)
  | 0, _, sz => pure (some sz)
  | count + 1, off, sz =>
    match readAll file off 32 with
    | none => pure none
    | some ph =>
      let vaddr := field ph 8 4
      let filesz := field ph 16 4
      let memsz := field ph 20 4
      let next := (off + 32) % 0x100000000
      if field ph 0 4 ≠ 1 then loadSegments pgdir file count next sz
      else if memsz < filesz then pure none
      else if (vaddr + memsz) % 0x100000000 < vaddr then pure none
      else do
        let sz ← allocuvm pgdir sz ((vaddr + memsz) % 0x100000000)
        if sz = 0 then pure none
        else if vaddr % 4096 ≠ 0 then pure none
        else if ← loaduvm pgdir vaddr file (field ph 4 4) filesz then
          loadSegments pgdir file count next sz
        else pure none

def addStack (pgdir sz : Nat) : Code (Option Nat) := do
  let sz ← allocuvm pgdir (4096 * pageUp sz) ((4096 * pageUp sz + 2 * 4096) % 0x100000000)
  if sz = 0 then pure none
  else do
    clearpteu pgdir ((sz - 2 * 4096) / 4096)
    pure (some sz)

/-- The part of `exec` up to the arguments: the new directory and the size. -/
def loadProgram (file : List Nat) : Code (Option (Nat × Nat)) :=
  match readAll file 0 52 with
  | none => pure none
  | some elf =>
    if field elf 0 4 ≠ 0x464C457F then pure none
    else do
      match ← setupkvm with
      | none => pure none
      | some pgdir =>
        match ← loadSegments pgdir file (field elf 44 2) (field elf 28 4) 0 with
        | none =>
          freevm pgdir
          pure none
        | some sz =>
          match ← addStack pgdir sz with
          | none =>
            freevm pgdir
            pure none
          | some sz => pure (some (pgdir, sz))

def minus (sp n : Nat) : Nat :=
  (sp + 0x100000000 - n) % 0x100000000

/-- The stack pointer below a string with its terminating zero. -/
def pushed (sp length : Nat) : Nat :=
  minus sp (length + 1) / 4 * 4

/-- The loop that pushes the argument strings: the stack pointer and the addresses of
the strings, or `none` for `goto bad`. -/
def pushStrings (pgdir : Nat) : List (List Nat) → Nat → List Nat → Code (Option (Nat × List Nat))
  | [], sp, ustack => pure (some (sp, ustack))
  | arg :: argv, sp, ustack =>
    if 32 ≤ ustack.length then pure none
    else do
      if ← copyout pgdir (pushed sp arg.length) (arg ++ [0]) then
        pushStrings pgdir argv (pushed sp arg.length) (ustack ++ [pushed sp arg.length])
      else pure none

def wordBytes (word : Nat) : List Nat :=
  [word % 256, word / 256 % 256, word / 65536 % 256, word / 16777216 % 256]

/-- `ustack`: the fake return address, the number of arguments, the pointer to the
addresses of the strings, these addresses and a zero. -/
def ustackWords (sp : Nat) (ustack : List Nat) : List Nat :=
  [0xFFFFFFFF, ustack.length, minus sp ((ustack.length + 1) * 4)] ++ ustack ++ [0]

def pushArguments (pgdir sz : Nat) (argv : List (List Nat)) : Code (Option Nat) := do
  match ← pushStrings pgdir argv sz [] with
  | none => pure none
  | some (sp, ustack) =>
    let top := minus sp ((3 + ustack.length + 1) * 4)
    if ← copyout pgdir top ((ustackWords sp ustack).flatMap wordBytes) then pure (some top)
    else pure none

def lastName : List Nat → List Nat → List Nat
  | [], last => last
  | c :: path, last => lastName path (if c = 47 then path else last)

/-- `exec`: what it returns, and the process after it.  There is no file if `namei`
fails. -/
def exec (task : Task) (path : List Nat) (file : Option (List Nat)) (argv : List (List Nat)) :
    Code (Int × Task) := do
  match file with
  | none => pure (-1, task)
  | some file =>
    match ← loadProgram file with
    | none => pure (-1, task)
    | some (pgdir, sz) =>
      match ← pushArguments pgdir sz argv with
      | none =>
        freevm pgdir
        pure (-1, task)
      | some sp =>
        freevm task.pgdir
        pure (0, ⟨pgdir, sz, field file 24 4, sp, (lastName path path).take 15⟩)

/-! ## The size of a program -/

/-- The page `k` of a segment can be read from the file. -/
def readable (file : List Nat) (offset size k : Nat) : Bool :=
  (readAll file ((offset + 4096 * k) % 0x100000000) (min (size - 4096 * k) 4096)).isSome

variable {memory next last : Memory} {pgdir page va sz newsz : Nat} {rest owned : Nat → Nat}
  {file : List Nat}

theorem Short.mono {count more : Nat} (isShort : Short memory count) (isLess : count ≤ more) :
    Short memory more :=
  fun isNil => (isShort isNil).trans (Nat.add_le_add_left isLess 1026)

/-! ## An address space that is being filled -/

/-- An address space with the pages below a size and the kernel. -/
structure Loading (memory next : Memory) (pgdir sz : Nat) : Prop where
  moves : Moves memory next 0 (next.uses pgdir)
  small : sz < 0x80000000
  user : ∀ va < pages sz, ∃ page, next.entry pgdir va = some (4096 * page + 7)
  above : ∀ va, pages sz ≤ va → next.entry pgdir va = kernelEntry memory.data va
  filled : ∀ index, next.table pgdir index ≠ none →
    ∃ va, va / 1024 = index ∧ next.entry pgdir va ≠ none

theorem NewDirectory.loading (isNew : NewDirectory memory next pgdir) :
    Loading memory next pgdir 0 :=
  ⟨isNew.moves, by decide, fun va isSmall => absurd isSmall (Nat.not_lt_zero va),
    fun va _ => congrFun isNew.entry va, isNew.filled⟩

theorem Loading.sound (loading : Loading memory next pgdir sz) (sound : Sound memory rest) :
    Sound next (next.uses pgdir + rest) := by
  have soundMore : Sound memory (0 + rest) := by rwa [zero_add]
  exact soundMore.moves_add loading.moves

theorem Loading.allocates (loading : Loading memory next pgdir sz) (small : newsz < 0x80000000)
    (ordered : sz ≤ newsz) (allocates : Allocates next last pgdir (pages sz) (pages newsz)) :
    Loading memory last pgdir newsz := by
  have isOrdered : pages sz ≤ pages newsz :=
    Nat.div_le_div_right (Nat.add_le_add_right ordered 4095)
  refine ⟨loading.moves.trans allocates.moves, small, fun va below => ?_, fun va above => ?_,
    fun index isTable => ?_⟩
  · by_cases isOld : va < pages sz
    · rw [allocates.others va (.inl isOld)]
      exact loading.user va isOld
    · obtain ⟨page, -, isEntry, -⟩ := allocates.mapped va (by omega) below
      exact ⟨page, isEntry⟩
  · rw [allocates.others va (.inr above), loading.above va (by omega)]
  · by_cases isSame : last.table pgdir index = next.table pgdir index
    · obtain ⟨va, isIndex, isMapped⟩ := loading.filled index (isSame ▸ isTable)
      refine ⟨va, isIndex, ?_⟩
      by_cases isAdded : pages sz ≤ va ∧ va < pages newsz
      · obtain ⟨page, -, isEntry, -⟩ := allocates.mapped va isAdded.1 isAdded.2
        rw [isEntry]
        exact Option.some_ne_none _
      · rwa [allocates.others va (by omega)]
    · exact allocates.filled index isSame

/-- A change of memory that keeps the address space. -/
theorem Loading.congr (loading : Loading memory next pgdir sz)
    (moves : Moves next last (next.uses pgdir) (next.uses pgdir))
    (sameTable : last.table pgdir = next.table pgdir)
    (sameEntry : last.entry pgdir = next.entry pgdir) : Loading memory last pgdir sz := by
  refine ⟨?_, loading.small, ?_, ?_, ?_⟩
  · rw [uses_congr sameTable sameEntry]
    exact loading.moves.trans moves
  · rw [sameEntry]
    exact loading.user
  · rw [sameEntry]
    exact loading.above
  · rw [sameEntry, sameTable]
    exact loading.filled

theorem moves_setBytes (memory : Memory) (offset : Nat) (bytes : List Nat)
    (isOwned : 0 < owned page) :
    Moves memory (memory.setBytes page offset bytes) owned owned := by
  have same := setBytes_same page bytes memory offset
  refine ⟨fun other => by rw [same.freelist], fun other unowned => ?_, same.bottom, same.data,
    fun isNil => same.failures.trans isNil⟩
  refine word_setBytes_of_ne ?_ bytes memory offset
  rintro rfl
  omega

theorem Loading.setBytes (loading : Loading memory next pgdir sz) (sound : Sound memory rest)
    (isBelow : va < pages sz) (isEntry : next.entry pgdir va = some (4096 * page + 7))
    (offset : Nat) (bytes : List Nat) :
    Loading memory (next.setBytes page offset bytes) pgdir sz := by
  have isUser : va < 0x80000 := by
    have := loading.small
    unfold pages at isBelow
    omega
  have isFrame := Allocates.frame_of_mapped isEntry
  have soundNext := loading.sound sound
  have noPart := tables_frame_eq_zero soundNext.uses_le_one isUser isFrame
  obtain ⟨notDirectory, notTable⟩ := ne_of_tables_eq_zero noPart
  have isUsed := next.uses_ge pgdir page isUser
  rw [isFrame, weight_some, one_self] at isUsed
  have sameDirectory := word_setBytes_of_ne notDirectory.symm bytes next offset
  refine loading.congr (moves_setBytes next offset bytes (by omega)) (table_congr sameDirectory)
    (entry_congr sameDirectory fun index pgtab isTable => word_setBytes_of_ne ?_ bytes next offset)
  rintro rfl
  exact notTable index isTable

/-- A program is loaded: its pages, a guard page, a page for the stack, and the kernel. -/
structure Loaded (memory next : Memory) (pgdir sz : Nat) : Prop where
  moves : Moves memory next 0 (next.uses pgdir)
  aligned : sz % 4096 = 0
  bounds : 8192 ≤ sz ∧ sz < 0x80000000
  user : ∀ va, va + 2 < sz / 4096 ∨ va + 1 = sz / 4096 →
    ∃ page, next.entry pgdir va = some (4096 * page + 7)
  guard : ∃ page, next.entry pgdir (sz / 4096 - 2) = some (4096 * page + 3)
  above : ∀ va, sz / 4096 ≤ va → next.entry pgdir va = kernelEntry memory.data va
  filled : ∀ index, next.table pgdir index ≠ none →
    ∃ va, va / 1024 = index ∧ next.entry pgdir va ≠ none

theorem Loading.round (loading : Loading memory next pgdir sz)
    (small : 4096 * pages sz < 0x80000000) : Loading memory next pgdir (4096 * pages sz) := by
  have isPages : pages (4096 * pages sz) = pages sz := by
    unfold pages
    omega
  refine ⟨loading.moves, small, ?_, ?_, loading.filled⟩
  · rw [isPages]
    exact loading.user
  · rw [isPages]
    exact loading.above

end Vm

end Xv6
