import Xv6.ProgramLoading

/-!
# The arguments of a program

`exec` copies the argument strings to the stack page from its top down, and then the
array that points to them.  What does not fit hits the guard page, or wraps around and
hits the devices or the kernel, which no user may access.  Between the two there are no
page tables, so a string of more than 32 megabytes makes `copyout` read an entry through
the null pointer.
-/

namespace Xv6

namespace Vm

open Memory

variable {allowed : Stop → Prop} {memory next last : Memory} {pgdir page va sz sp top : Nat}
  {rest : Nat → Nat} {bytes : List Nat}

/-! ## The address space of a loaded program -/

/-- What the copies to the stack find in the address space. -/
structure OnStack (memory : Memory) (pgdir sz top : Nat) : Prop where
  aligned : sz % 4096 = 0
  bounds : 8192 ≤ sz ∧ sz < 0x80000000
  separate : Separate memory pgdir
  owned : ∀ va page, access memory pgdir va = some page → 1 ≤ memory.uses pgdir page
  stack : access memory pgdir (sz / 4096 - 1) = some top
  guard : access memory pgdir (sz / 4096 - 2) = none
  user : ∀ va < sz / 4096, memory.table pgdir (va / 1024) ≠ none
  kernel : ∀ va, 0x80000 ≤ va → va < 0x100000 → access memory pgdir va = none ∧
    (memory.table pgdir (va / 1024) = none ↔ 0x8E000 ≤ va ∧ va < 0xFE000)

theorem table_of_entry (isMapped : memory.entry pgdir va ≠ none) :
    memory.table pgdir (va / 1024) ≠ none :=
  fun noTable => isMapped (entry_of_no_table noTable)

theorem Loaded.onStack (loaded : Loaded memory next pgdir sz) (sound : Sound memory rest) :
    ∃ top, OnStack next pgdir sz top := by
  have bounds := loaded.bounds
  have aligned := loaded.aligned
  have soundMore : Sound memory (0 + rest) := by rwa [zero_add]
  have soundNext := soundMore.moves_add loaded.moves
  have isMapped : ∀ va < sz / 4096, next.entry pgdir va ≠ none := by
    intro va isBelow
    by_cases isGuard : va = sz / 4096 - 2
    · obtain ⟨page, isEntry⟩ := loaded.guard
      rw [isGuard, isEntry]
      exact Option.some_ne_none _
    · obtain ⟨page, isEntry⟩ := loaded.user va (by omega)
      rw [isEntry]
      exact Option.some_ne_none _
  have isKernel : ∀ va, sz / 4096 ≤ va → access next pgdir va = none := by
    intro va isAbove
    rw [access, loaded.above va isAbove]
    cases isEntry : kernelEntry memory.data va with
    | none => rfl
    | some entry =>
      rw [Option.bind_some, if_neg ((kernelEntry_kernel sound.data va).2 entry isEntry)]
  have isFrame : ∀ va page, access next pgdir va = some page →
      va < 0x80000 ∧ next.frame pgdir va = some page := by
    intro va page isAccess
    constructor
    · grind
    · obtain ⟨entry, isEntry, isPage⟩ := Option.bind_eq_some_iff.mp isAccess
      split at isPage
      · rw [frame, isEntry, Option.map_some, isPage]
      · cases isPage
  obtain ⟨top, isTop⟩ := loaded.user (sz / 4096 - 1) (by omega)
  refine ⟨top, aligned, bounds, ⟨fun va other page isVa isOther => ?_, fun va page isAccess => ?_⟩,
    fun va page isAccess => ?_, ?_, ?_, fun va isBelow => table_of_entry (isMapped va isBelow),
    fun va isLarge isSmall => ⟨isKernel va (by omega), ?_⟩⟩
  · obtain ⟨isUser, isFrameVa⟩ := isFrame va page isVa
    obtain ⟨isOtherUser, isFrameOther⟩ := isFrame other page isOther
    exact frame_inj soundNext.uses_le_one isUser isOtherUser isFrameVa isFrameOther
  · obtain ⟨isUser, isFrameVa⟩ := isFrame va page isAccess
    exact tables_frame_eq_zero soundNext.uses_le_one isUser isFrameVa
  · obtain ⟨isUser, isFrameVa⟩ := isFrame va page isAccess
    have counted := next.uses_ge pgdir page isUser
    rw [isFrameVa, weight_some, one_self] at counted
    omega
  · rw [access, isTop, Option.bind_some, if_pos (by unfold User; omega)]
    congr 1
    omega
  · obtain ⟨page, isEntry⟩ := loaded.guard
    rw [access, isEntry, Option.bind_some, if_neg (by unfold User; omega)]
  · constructor
    · intro noTable
      have isNone := entry_of_no_table noTable
      rw [loaded.above va (by omega), (kernelEntry_kernel sound.data va).1] at isNone
      omega
    · intro inHole
      by_contra isTable
      obtain ⟨other, isIndex, isMapped⟩ := loaded.filled _ isTable
      refine isMapped ?_
      rw [loaded.above other (by omega), (kernelEntry_kernel sound.data other).1]
      omega

structure Keeps (memory next : Memory) (pgdir sz top : Nat) : Prop where
  onStack : OnStack next pgdir sz top
  uses : next.uses pgdir = memory.uses pgdir
  entry : next.entry pgdir = memory.entry pgdir
  moves : Moves memory next (memory.uses pgdir) (memory.uses pgdir)

theorem Keeps.trans (first : Keeps memory next pgdir sz top)
    (second : Keeps next last pgdir sz top) : Keeps memory last pgdir sz top := by
  have moves := second.moves
  rw [first.uses] at moves
  exact ⟨second.onStack, second.uses.trans first.uses, second.entry.trans first.entry,
    first.moves.trans moves⟩

variable {count : Nat} {strings : List (List Nat × Nat)} {argv : List (List Nat)}

theorem Written.keeps (written : Written memory next pgdir va bytes count)
    (onStack : OnStack memory pgdir sz top) : Keeps memory next pgdir sz top := by
  have views := written.views onStack.separate
  have sameAccess := access_congr views.2
  have sameUses := uses_congr views.1 views.2
  refine ⟨⟨onStack.aligned, onStack.bounds, written.separate onStack.separate, ?_, ?_, ?_, ?_, ?_⟩,
    sameUses, views.2, fun page => ?_, fun page unowned => ?_, written.allocator.bottom,
    written.allocator.data, fun isNil => written.allocator.failures.trans isNil⟩
  · rw [sameAccess, sameUses]
    exact onStack.owned
  · rw [sameAccess]
    exact onStack.stack
  · rw [sameAccess]
    exact onStack.guard
  · rw [views.1]
    exact onStack.user
  · rw [views.1, sameAccess]
    exact onStack.kernel
  · rw [written.allocator.freelist]
  · refine written.word page fun k _ isAccess => ?_
    have := onStack.owned _ page isAccess
    omega

/-! ## Bytes that a user reads -/

def Holds (memory : Memory) (pgdir va : Nat) (bytes : List Nat) : Prop :=
  ∀ k < bytes.length, ∃ page, access memory pgdir ((va + k) / 4096) = some page ∧
    memory.byte page ((va + k) % 4096) = bytes[k]?.getD 0

theorem address_eq {k : Nat} (isSmall : va + k < 0x100000000) : address va k = va + k :=
  Nat.mod_eq_of_lt isSmall

theorem Written.holds (written : Written memory next pgdir va bytes bytes.length)
    (separate : Separate memory pgdir) (accessible : Accessible memory pgdir va bytes.length)
    (isUser : va + bytes.length < 0x100000000) : Holds next pgdir va bytes := by
  intro k isSmall
  have isAccess := accessible k isSmall
  have isByte := written.written k isSmall
  rw [address_eq (by omega)] at isAccess isByte
  obtain ⟨page, isPage⟩ := Option.ne_none_iff_exists'.mp isAccess
  rw [access_congr (written.views separate).2]
  exact ⟨page, isPage, isByte page isPage⟩

theorem Written.holds_apart {other : Nat} {stored : List Nat}
    (written : Written memory next pgdir va bytes count) (separate : Separate memory pgdir)
    (holds : Holds memory pgdir other stored) (isUser : other + stored.length < 0x100000000)
    (apart : va + count ≤ other) : Holds next pgdir other stored := by
  intro k isSmall
  obtain ⟨page, isPage, isByte⟩ := holds k isSmall
  rw [access_congr (written.views separate).2]
  refine ⟨page, isPage, (written.others page _ fun index isIndex isAccess sameOffset => ?_).trans
    isByte⟩
  rw [address_eq (by omega)] at isAccess sameOffset
  have samePage := separate.inj _ _ page isAccess isPage
  omega

theorem Holds.frame (holds : Holds memory pgdir va bytes)
    (same : next.entry pgdir = memory.entry pgdir)
    (untouched : ∀ va page, access memory pgdir va = some page →
      next.word page = memory.word page) : Holds next pgdir va bytes := by
  intro k isSmall
  obtain ⟨page, isPage, isByte⟩ := holds k isSmall
  rw [access_congr same]
  refine ⟨page, isPage, ?_⟩
  rw [← isByte, byte, byte, untouched _ page isPage]

/-! ## Copies to the stack -/

/-- The bytes that strings take on the stack, each with its terminating zero and in whole
words. -/
def stringRoom (argv : List (List Nat)) : Nat :=
  (argv.map fun arg => (arg.length + 4) / 4 * 4).sum

/-- For a program of the given size no argument that is copied reaches below the 32
megabytes of the devices.  An argument is copied if it is one of the first `MAXARG` and
those before it fit into the stack page. -/
def Fits (size : Nat) (argv : List (List Nat)) : Prop :=
  ∀ i < 32, stringRoom (argv.take i) ≤ 4096 → stringRoom (argv.take (i + 1)) ≤ size + 0x2000000

/-- Strings with their addresses are stored above the stack pointer, each below the one
before it. -/
structure Strings (memory : Memory) (pgdir sz sp : Nat) (strings : List (List Nat × Nat)) :
    Prop where
  stored : ∀ s ∈ strings, Holds memory pgdir s.2 (s.1 ++ [0])
  inside : ∀ s ∈ strings, sp ≤ s.2 ∧ s.2 + s.1.length + 1 ≤ sz
  apart : strings.Pairwise fun s later => later.2 + later.1.length + 1 ≤ s.2

theorem Strings.written (isStored : Strings memory pgdir sz sp strings)
    (written : Written memory next pgdir va bytes count) (separate : Separate memory pgdir)
    (small : sz < 0x80000000) (isBelow : va + count ≤ sp) : Strings next pgdir sz sp strings := by
  refine ⟨fun s isString => ?_, isStored.inside, isStored.apart⟩
  have inside := isStored.inside s isString
  refine written.holds_apart separate (isStored.stored s isString) ?_ (by omega)
  rw [List.length_append, List.length_singleton]
  omega

theorem Strings.push {arg : List Nat} (isStored : Strings memory pgdir sz sp strings)
    (holds : Holds memory pgdir va (arg ++ [0])) (isBelow : va + arg.length + 1 ≤ sp)
    (isTop : sp ≤ sz) : Strings memory pgdir sz va (strings ++ [(arg, va)]) := by
  refine ⟨fun s isString => ?_, fun s isString => ?_, ?_⟩
  · rcases List.mem_append.mp isString with isOld | isNew
    · exact isStored.stored s isOld
    · grind
  · rcases List.mem_append.mp isString with isOld | isNew
    · have := isStored.inside s isOld
      omega
    · grind
  · refine List.pairwise_append.mpr ⟨isStored.apart, List.pairwise_singleton _ _, ?_⟩
    intro s isString later isLater
    rw [List.mem_singleton.mp isLater]
    exact isBelow.trans (isStored.inside s isString).1

/-- The words at the stack pointer: the fake return address, the number of arguments, the
pointer to the array, the array and a zero. -/
def stackWords (esp : Nat) (strings : List (List Nat × Nat)) : List Nat :=
  [0xFFFFFFFF, strings.length, esp + 12] ++ strings.map Prod.snd ++ [0]

/-- A new program finds its arguments: the words at its stack pointer, the strings at
the addresses of the array, all in the page below its size and one above the other, and
below them a page that it may not access. -/
structure ArgsPassed (memory : Memory) (pgdir sz esp : Nat) (argv : List (List Nat))
    (strings : List (List Nat × Nat)) : Prop where
  arguments : strings.map Prod.fst = argv
  words : Holds memory pgdir esp ((stackWords esp strings).flatMap wordBytes)
  isStored : Strings memory pgdir sz (esp + (stackWords esp strings).length * 4) strings
  inside : sz % 4096 = 0 ∧ 8192 ≤ sz ∧ sz - 4096 ≤ esp ∧
    esp + (stackWords esp strings).length * 4 ≤ sz
  guard : access memory pgdir (sz / 4096 - 2) = none

theorem ArgsPassed.frame {owned after : Nat → Nat} {esp : Nat}
    (passed : ArgsPassed memory pgdir sz esp argv strings) (onStack : OnStack memory pgdir sz top)
    (moves : Moves memory next owned after)
    (sound : Sound memory (owned + (memory.uses pgdir + rest))) :
    ArgsPassed next pgdir sz esp argv strings := by
  have same := (moves.views sound).2
  have untouched : ∀ va page, access memory pgdir va = some page →
      next.word page = memory.word page :=
    fun va page isAccess => moves.untouched sound (onStack.owned va page isAccess)
  refine ⟨passed.arguments, passed.words.frame same untouched, ⟨fun s isString => ?_,
    passed.isStored.inside, passed.isStored.apart⟩, passed.inside, ?_⟩
  · exact (passed.isStored.stored s isString).frame same untouched
  · rw [access_congr same]
    exact passed.guard

end Vm

end Xv6
