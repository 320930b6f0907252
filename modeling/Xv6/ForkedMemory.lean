import Xv6.AddressSpaceCopies
import Xv6.KernelRoutines
import Xv6.ProcessSizes

/-!
# The memory of a forked process

`fork` takes a slot of the process table with `allocproc`, which takes a page for the
kernel stack, and copies the memory of the calling process.  The child gets a faithful
copy in pages of its own, or the slot and all pages are given back.
-/

namespace Xv6

namespace Vm

open Memory
open KernelLock (Procstate nproc)
open Function (update update_of_ne update_self update_idem)

/-- `struct proc`, without the files, the directory and the name.  The stack and the
directory are page numbers, with 0 for the null pointer. -/
structure Slot where
  state : Procstate
  pid : Nat
  parent : Option Nat
  kstack : Nat
  pgdir : Nat
  sz : Nat

structure Machine where
  memory : Memory
  proc : Nat → Slot
  nextpid : Nat

abbrev MachineCode :=
  StateT Machine (Except Stop)

def onMemory {α : Type} (code : Code α) : MachineCode α := fun machine =>
  (code machine.memory).map fun result => (result.1, { machine with memory := result.2 })

def setSlot (p : Nat) (change : Slot → Slot) : MachineCode Unit :=
  modify fun machine => { machine with proc := update machine.proc p (change (machine.proc p)) }

/-- The stack of `allocproc`.  The address of `trapret` is below the trap frame, and a
context that starts at `forkret` is below that. -/
def newStack (trapret forkret : Nat) : Code (Option Nat) := do
  match ← kalloc with
  | none => pure none
  | some kstack =>
    modify fun memory => memory.setPage kstack fun index =>
      if index = 1004 then trapret
      else if index = 1003 then forkret
      else if 999 ≤ index ∧ index < 1003 then 0
      else memory.word kstack index
    pure (some kstack)

def allocproc (trapret forkret : Nat) : MachineCode (Option Nat) := do
  let machine ← get
  match (List.range nproc).find? fun p => (machine.proc p).state = .unused with
  | none => pure none
  | some p =>
    setSlot p fun slot => { slot with state := .embryo, pid := machine.nextpid }
    modify fun machine => { machine with nextpid := (machine.nextpid + 1) % 0x100000000 }
    match ← onMemory (newStack trapret forkret) with
    | none =>
      setSlot p fun slot => { slot with kstack := 0, state := .unused }
      pure none
    | some kstack =>
      setSlot p fun slot => { slot with kstack := kstack }
      pure (some p)

/-- `fork`.  The register `eax` of the trap frame is word 1012 of the stack. -/
def fork (trapret forkret curproc : Nat) : MachineCode Int := do
  match ← allocproc trapret forkret with
  | none => pure (-1)
  | some np =>
    let machine ← get
    let parent := machine.proc curproc
    let child := machine.proc np
    match ← onMemory (copyuvm parent.pgdir parent.sz) with
    | none =>
      onMemory (kfree child.kstack)
      setSlot np fun slot => { slot with pgdir := 0, kstack := 0, state := .unused }
      pure (-1)
    | some d =>
      onMemory (modify fun memory => memory.setPage child.kstack fun index =>
        if index = 1012 then 0
        else if 1005 ≤ index then memory.word parent.kstack index
        else memory.word child.kstack index)
      setSlot np fun slot =>
        { slot with pgdir := d, sz := parent.sz, parent := some curproc, state := .runnable }
      pure child.pid

/-- The directory `d` has the parent's flags and contents in pages that nobody else
owns, and the parent is what it was.  No call of `kalloc` failed. -/
structure FaithfulCopy (memory next : Memory) (pgdir d sz : Nat) (rest : Nat → Nat) : Prop where
  copied : ∀ va < pages sz, ∃ entry page, memory.entry pgdir va = some entry ∧
    next.entry d va = some (4096 * page + entry % 4096) ∧
      next.word page = memory.word (entry / 4096)
  noneAbove : ∀ va, pages sz ≤ va → va < 0x80000 → next.entry d va = none
  parent : next.table pgdir = memory.table pgdir ∧ next.entry pgdir = memory.entry pgdir
  kept : ∀ page, 1 ≤ memory.uses pgdir page → next.word page = memory.word page
  sound : Sound next (next.uses d + (next.uses pgdir + rest))
  refusals : next.refusals = memory.refusals

/-- The slot and the pages that were taken are given back. -/
structure Undone (machine next : Machine) : Prop where
  free : ∀ page, next.memory.freelist.count page = machine.memory.freelist.count page
  slots : ∀ p, next.proc p = machine.proc p ∨
    (machine.proc p).state = .unused ∧ (next.proc p).state = .unused

/-- A call of `kalloc` failed, which it does by itself only if few pages are free, or no
slot is unused. -/
def Refused (machine next : Machine) (count : Nat) : Prop :=
  (machine.memory.refusals < next.memory.refusals ∧ Short machine.memory count) ∨
    ∀ p < nproc, (machine.proc p).state ≠ .unused

/-- What `fork` returns, and the machine after it. -/
inductive Forks (machine : Machine) (curproc : Nat) (rest : Nat → Nat) : Int → Machine → Prop
  | fails {next : Machine} (undone : Undone machine next)
    (refused : Refused machine next (1027 + pages (machine.proc curproc).sz)) :
    Forks machine curproc rest (-1) next
  | copies {next : Machine} {np kstack d : Nat} (unused : (machine.proc np).state = .unused)
    (slots : next.proc = update machine.proc np
      ⟨.runnable, machine.nextpid, some curproc, kstack, d, (machine.proc curproc).sz⟩)
    (copy : FaithfulCopy machine.memory next.memory (machine.proc curproc).pgdir d
      (machine.proc curproc).sz (one kstack + rest)) :
    Forks machine curproc rest machine.nextpid next

variable {allowed : Stop → Prop} {memory middle next : Memory} {machine : Machine}
  {pgdir d sz kstack curproc trapret forkret : Nat} {owned rest words : Nat → Nat}

theorem ensures_onMemory_bind {α β : Type} {code : Code α} {more : α → MachineCode β}
    {goal : β → Machine → Prop}
    (ensures : EnsuresOr allowed code machine.memory fun value memory =>
      EnsuresOr allowed (more value) ⟨memory, machine.proc, machine.nextpid⟩ goal) :
    EnsuresOr allowed (onMemory code >>= more) machine goal := by
  refine ensures_bind ?_
  rcases ensures with ⟨value, memory, runs, holds⟩ | ⟨stop, stops, isAllowed⟩
  · exact .inl ⟨value, ⟨memory, machine.proc, machine.nextpid⟩, by rw [onMemory, runs]; rfl, holds⟩
  · exact .inr ⟨stop, by rw [onMemory, stops]; rfl, isAllowed⟩

theorem ensures_newStack (memory : Memory) (trapret forkret : Nat) :
    Ensures (newStack trapret forkret) memory fun found next =>
      (∃ kstack words, found = some kstack ∧ Takes memory next kstack words) ∨
        (found = none ∧ Refuses memory next) :=
  ensures_kalloc_bind (fun _ refuses => ensures_pure (.inr ⟨rfl, refuses⟩))
    fun page _ _ isFree noFailures =>
      ensures_modify_bind (ensures_pure (.inl ⟨page, _, rfl, takes isFree noFailures _⟩))

theorem Takes.length_freelist {page : Nat} (taken : Takes memory next page words) :
    memory.freelist.length = next.freelist.length + 1 := by
  have isPerm : memory.freelist.Perm (page :: next.freelist) := by
    refine List.perm_iff_count.mpr fun other => ?_
    have conserved := taken.moves.conserved other
    rw [one, Pi.zero_apply, add_zero] at conserved
    simpa [List.count_cons] using conserved.symm
  exact isPerm.length_eq

/-! ## Copies of the memory -/

/-- A page that is mapped below the size is a user page. -/
theorem one_le_uses_of_entry {entry va : Nat} (below : va < pages sz) (small : sz ≤ 0x80000000)
    (isEntry : memory.entry pgdir va = some entry) : 1 ≤ memory.uses pgdir (entry / 4096) := by
  have isUser : va < 0x80000 := by
    unfold pages at below
    omega
  have isUsed := memory.uses_ge pgdir (entry / 4096) isUser
  rw [frame, isEntry, Option.map_some, weight_some, one_self] at isUsed
  omega

theorem CopyOf.faithful (sound : Sound memory (0 + (memory.uses pgdir + rest)))
    (isCopy : CopyOf memory next pgdir d sz) : FaithfulCopy memory next pgdir d sz rest := by
  have views := isCopy.moves.views sound
  have soundNext := sound.moves_add isCopy.moves
  rw [← uses_congr views.1 views.2] at soundNext
  refine ⟨fun va below => ?_, fun va above isUser => ?_, views,
    fun page isUsed => isCopy.moves.untouched sound isUsed, soundNext, isCopy.refusals⟩
  · obtain ⟨entry, page, isEntry, -, isCopied, isSame⟩ := isCopy.copied va below
    exact ⟨entry, page, isEntry, isCopied, isSame⟩
  · rw [isCopy.others va above, kernelEntry_user sound.data isUser]

theorem FaithfulCopy.after (moves : Moves memory middle 0 (one kstack))
    (sound : Sound memory (0 + (memory.uses pgdir + rest))) (small : sz ≤ 0x80000000)
    (refusals : middle.refusals = memory.refusals)
    (copy : FaithfulCopy middle next pgdir d sz owned) :
    FaithfulCopy memory next pgdir d sz owned := by
  have views := moves.views sound
  have sameUses := uses_congr views.1 views.2
  refine ⟨fun va below => ?_, copy.noneAbove, ⟨copy.parent.1.trans views.1,
    copy.parent.2.trans views.2⟩, fun page isUsed => ?_, copy.sound, copy.refusals.trans refusals⟩
  · obtain ⟨entry, page, isEntry, isCopied, isSame⟩ := copy.copied va below
    rw [views.2] at isEntry
    have isUsed := one_le_uses_of_entry below small isEntry
    exact ⟨entry, page, isEntry, isCopied, isSame.trans (moves.untouched sound isUsed)⟩
  · rw [copy.kept page (sameUses ▸ isUsed), moves.untouched sound isUsed]

theorem FaithfulCopy.setStack (copy : FaithfulCopy memory next pgdir d sz (one kstack + rest))
    (small : sz ≤ 0x80000000) (words : Nat → Nat) :
    FaithfulCopy memory (next.setPage kstack words) pgdir d sz (one kstack + rest) := by
  have moves : Moves next (next.setPage kstack words) (one kstack) (one kstack) :=
    moves_setPage next words (by rw [one_self]; exact Nat.one_pos)
  have child : Sound next (one kstack + (next.uses d + (next.uses pgdir + rest))) := by
    rw [add_left_comm, add_left_comm (one kstack)]
    exact copy.sound
  have parent : Sound next (one kstack + (next.uses pgdir + (next.uses d + rest))) := by
    rw [add_left_comm (next.uses pgdir)]
    exact child
  have childViews := moves.views child
  have parentViews := moves.views parent
  refine ⟨fun va below => ?_, fun va above isUser => ?_, ⟨parentViews.1.trans copy.parent.1,
    parentViews.2.trans copy.parent.2⟩, fun page isUsed => ?_, ?_, copy.refusals⟩
  · obtain ⟨entry, page, isEntry, isCopied, isSame⟩ := copy.copied va below
    have isUsed := one_le_uses_of_entry below small isCopied
    have isPage : (4096 * page + entry % 4096) / 4096 = page := by omega
    rw [isPage] at isUsed
    refine ⟨entry, page, isEntry, by rw [childViews.2, isCopied], ?_⟩
    rw [moves.untouched child isUsed, isSame]
  · rw [childViews.2, copy.noneAbove va above isUser]
  · have sameUses := uses_congr copy.parent.1 copy.parent.2
    rw [moves.untouched parent (sameUses ▸ isUsed), copy.kept page isUsed]
  · rw [uses_congr childViews.1 childViews.2, uses_congr parentViews.1 parentViews.2]
    exact copy.sound.moves (moves_setPage next words (by
      simp only [Pi.add_apply, one_self]
      omega))

/-! ## The slot of the child -/

theorem Undone.of_moves {after : Machine} {np : Nat} {slot : Slot}
    (moves : Moves machine.memory after.memory 0 0)
    (slots : after.proc = update machine.proc np slot)
    (unused : (machine.proc np).state = .unused) (isUnused : slot.state = .unused) :
    Undone machine after := by
  refine ⟨fun page => moves.conserved page, fun p => ?_⟩
  rw [slots]
  by_cases same : p = np
  · rw [same, update_self]
    exact .inr ⟨unused, isUnused⟩
  · rw [update_of_ne same]
    exact .inl rfl

theorem ensures_allocproc (machine : Machine) (trapret forkret : Nat) :
    Ensures (allocproc trapret forkret) machine fun found next =>
      (found = none ∧ Undone machine next ∧ ∀ count, Refused machine next count) ∨
        ∃ np kstack words, found = some np ∧ (machine.proc np).state = .unused ∧
          Takes machine.memory next.memory kstack words ∧
          next.proc = update machine.proc np ⟨.embryo, machine.nextpid, (machine.proc np).parent,
            kstack, (machine.proc np).pgdir, (machine.proc np).sz⟩ := by
  refine ensures_get_bind ?_
  split
  · rename_i isFull
    refine ensures_pure (.inl ⟨rfl, ⟨fun _ => rfl, fun _ => .inl rfl⟩, fun _ => .inr ?_⟩)
    simpa using isFull
  · rename_i np isFound
    have unused : (machine.proc np).state = .unused := by simpa using List.find?_some isFound
    refine ensures_modify_bind (ensures_modify_bind (ensures_onMemory_bind
      ((ensures_newStack _ trapret forkret).mono ?_)))
    rintro found next (⟨kstack, words, rfl, taken⟩ | ⟨rfl, refuses⟩)
    · refine ensures_modify_bind (ensures_pure (.inr ⟨np, kstack, words, rfl, unused, taken, ?_⟩))
      simp only [update_idem, update_self]
    · refine ensures_modify_bind (ensures_pure (.inl ⟨rfl, ?_, fun count => .inl ⟨?_, ?_⟩⟩))
      · exact Undone.of_moves (refuses.moves 0) (update_idem ..) unused rfl
      · exact Nat.lt_of_lt_of_eq (Nat.lt_succ_self _) refuses.refusals.symm
      · exact refuses.short count

/-- `copyuvm` makes a faithful copy or gives back its pages, and `fork` returns the new
process with such a copy, or -1 with the slot unused again. -/
theorem fork_copies_memory (trapret forkret : Nat)
    (running : (machine.proc curproc).state = .running)
    (small : (machine.proc curproc).sz ≤ 0x80000000)
    (sound : Sound machine.memory (machine.memory.uses (machine.proc curproc).pgdir + rest))
    (present : ∀ va < pages (machine.proc curproc).sz,
      machine.memory.entry (machine.proc curproc).pgdir va ≠ none) :
    Ensures (copyuvm (machine.proc curproc).pgdir (machine.proc curproc).sz) machine.memory
        (fun found next =>
          (∃ d, found = some d ∧ FaithfulCopy machine.memory next (machine.proc curproc).pgdir d
            (machine.proc curproc).sz rest) ∨
          (found = none ∧ machine.memory.refusals < next.refusals ∧
            ∀ page, next.freelist.count page = machine.memory.freelist.count page)) ∧
      Ensures (fork trapret forkret curproc) machine (Forks machine curproc rest) := by
  have soundMore : Sound machine.memory
      (0 + (machine.memory.uses (machine.proc curproc).pgdir + rest)) := by rwa [zero_add]
  constructor
  · refine (ensures_copyuvm sound small fun va below => present va below).mono ?_
    rintro found next (⟨d, rfl, isCopy⟩ | ⟨rfl, moves, refused⟩)
    · exact .inl ⟨d, rfl, isCopy.faithful soundMore⟩
    · exact .inr ⟨rfl, refused.1, fun page => moves.conserved page⟩
  · refine (ensures_allocproc machine trapret forkret).bind ?_
    rintro found ⟨middle, proc, nextpid⟩ (⟨rfl, undone, refused⟩ |
      ⟨np, kstack, words, rfl, unused, taken, rfl⟩)
    · exact ensures_pure (.fails undone (refused _))
    have different : curproc ≠ np := by
      rintro rfl
      rw [unused] at running
      cases running
    have views := taken.moves.views soundMore
    have soundTaken := soundMore.moves_add taken.moves
    rw [← uses_congr views.1 views.2] at soundTaken
    have soundMiddle := soundTaken
    rw [add_left_comm] at soundMiddle
    refine ensures_get_bind ?_
    simp only [update_of_ne different, update_self]
    refine ensures_onMemory_bind ((ensures_copyuvm soundMiddle small
      fun va below isNone => present va below (views.2 ▸ isNone)).mono ?_)
    rintro found last (⟨d, rfl, isCopy⟩ | ⟨rfl, moves, refused, isShort⟩)
    · have copy := (isCopy.faithful (by rwa [zero_add])).after taken.moves soundMore small
        taken.refusals
      refine ensures_onMemory_bind (ensures_modify (ensures_modify_bind (ensures_pure ?_)))
      refine .copies unused ?_ (copy.setStack small _)
      simp only [update_idem, update_self]
    · have owned := moves.add (one kstack)
      rw [zero_add] at owned
      have soundLast := soundTaken.moves_add owned
      refine ensures_onMemory_bind (ensures_kfree soundLast ?_
        (ensures_modify_bind (ensures_pure (.fails ?_ (.inl ⟨?_, fun isNil => ?_⟩)))))
      · simp only [Pi.add_apply, one_self]
        omega
      · exact Undone.of_moves (taken.moves.trans (owned.trans (moves_release last kstack)))
          (update_idem ..) unused rfl
      · exact taken.refusals ▸ refused
      · have few := isShort (taken.moves.failures isNil)
        have length := taken.length_freelist
        dsimp only at few length
        omega

/-- A process of one page calls `fork` with plenty of free pages, and the first page of
the child is mapped. -/
theorem fork_copies_memory_of_one_page : ∃ (machine next : Machine) (np : Nat),
    machine.memory.entry (machine.proc 0).pgdir 0 ≠ none ∧
      fork 0 0 0 machine = .ok ((machine.nextpid : Int), next) ∧
      (next.proc np).state = .runnable ∧ next.memory.entry (next.proc np).pgdir 0 ≠ none := by
  obtain ⟨memory, sound, mapped, noFailures, enough⟩ := exists_onePage
  have present : ∀ va < pages 4096, memory.entry 1 va ≠ none := fun va below =>
    (mapped va (by unfold pages at below; omega)).mpr below
  obtain ⟨result, next, runs, forks⟩ := (@fork_copies_memory
    ⟨memory, fun p => ⟨if p = 0 then .running else .unused, p, none, 5, 1, 4096⟩, 1⟩ 0 0
    0 0 rfl (show 4096 ≤ 0x80000000 by decide)
    (show Sound memory (memory.uses 1 + 0) by rwa [add_zero]) present).2.returns
  cases forks with
  | fails undone refused =>
    rcases refused with ⟨-, isShort⟩ | isFull
    · have few : memory.freelist.length ≤ 1026 + (1027 + pages 4096) := isShort noFailures
      have isPages : pages 4096 = 1 := rfl
      omega
    · exact absurd rfl (isFull 1 (by decide))
  | @copies _ np kstack d unused slots copy =>
    refine ⟨_, next, np, present 0 (by decide), runs, ?_, ?_⟩
    · rw [slots, update_self]
    · obtain ⟨entry, page, -, isEntry, -⟩ := copy.copied 0 (show 0 < pages 4096 by decide)
      rw [slots, update_self, isEntry]
      exact Option.some_ne_none _

end Vm

end Xv6
