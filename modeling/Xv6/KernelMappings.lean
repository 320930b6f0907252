import Xv6.UserPages

/-!
# Directories made and freed

`freevm` gives back all pages of a directory.  `setupkvm` takes a page for a
directory and maps the kernel into it, and gives back what it took when memory runs
out.
-/

namespace Xv6

namespace Vm

open Memory

variable {β : Type} {memory next last : Memory} {pgdir page va pa perm count lo hi : Nat}
  {rest : Nat → Nat} {goal : β → Memory → Prop}

/-! ## `freevm` -/

def tablesAt (memory : Memory) (pgdir : Nat) (indices : List Nat) (page : Nat) : Nat :=
  (indices.map fun index => weight page (memory.table pgdir index)).sum

theorem tablesAt_cons (index : Nat) (indices : List Nat) :
    tablesAt memory pgdir (index :: indices) =
      (fun page => weight page (memory.table pgdir index)) + tablesAt memory pgdir indices := by
  funext page
  simp [tablesAt]

theorem tablesAt_congr (same : next.word pgdir = memory.word pgdir) (indices : List Nat) :
    tablesAt next pgdir indices = tablesAt memory pgdir indices := by
  funext page
  simp only [tablesAt, table_congr same]

theorem tables_eq : memory.tables pgdir = one pgdir + tablesAt memory pgdir (List.range 1024) := by
  have isSum : ∀ (f : Nat → Nat) (bound : Nat),
      ∑ index ∈ Finset.range bound, f index = ((List.range bound).map f).sum := by
    intro f bound
    induction bound with
    | zero => rfl
    | succ bound ih => rw [Finset.sum_range_succ, List.range_succ, List.map_append, List.sum_append,
        ih, List.map_singleton, List.sum_singleton]
  have isRange : below 1024 = Finset.range 1024 := by
    ext index
    rw [mem_below, Finset.mem_range]
  funext page
  rw [tables, isRange, isSum]
  rfl

theorem ensures_freeTables (indices : List Nat) :
    ∀ memory : Memory, (∀ index ∈ indices, index < 1024) →
      Sound memory (one pgdir + tablesAt memory pgdir indices + rest) →
      Ensures (freeTables pgdir indices) memory fun _ next =>
        Moves memory next (one pgdir + tablesAt memory pgdir indices) (one pgdir) ∧
          next.refusals = memory.refusals := by
  induction indices with
  | nil =>
    intro memory _ _
    refine ensures_pure ⟨?_, rfl⟩
    exact .refl memory (one pgdir)
  | cons index indices ih =>
    intro memory small sound
    have isSmall := small index List.mem_cons_self
    have smallRest : ∀ other ∈ indices, other < 1024 :=
      fun other member => small other (List.mem_cons_of_mem _ member)
    rw [tablesAt_cons] at sound ⊢
    refine ensures_get_bind (ensures_ite (fun present => ?_) fun absent => ?_)
    · generalize isPage : memory.word pgdir index / 4096 = page
      have isTable : memory.table pgdir index = some page := by
        rw [table, if_pos isSmall, mapping, if_pos present, Option.map_some, isPage]
      have isOne : (fun other => weight other (memory.table pgdir index)) = one page := by
        funext other
        rw [isTable, weight_some]
      rw [isOne] at sound ⊢
      have bound := sound.once page
      simp only [Pi.add_apply, one_self] at bound
      have isOwned :
          0 < (one pgdir + (one page + tablesAt memory pgdir indices) + rest) page := by
        simp only [Pi.add_apply, one_self]
        omega
      have differs : pgdir ≠ page := by
        rintro rfl
        rw [one_self] at bound
        omega
      have sameWord : (memory.release page).word pgdir = memory.word pgdir :=
        word_setPage_of_ne _ differs
      have freed := (moves_release memory page).add (one pgdir + tablesAt memory pgdir indices)
      rw [zero_add, add_left_comm] at freed
      refine ensures_kfree_bind sound isOwned ?_
      have continues := ih (memory.release page) smallRest
      rw [tablesAt_congr sameWord] at continues
      refine (continues (sound.moves_add freed)).mono fun _ next frees => ⟨?_, frees.2⟩
      exact freed.trans frees.1
    · have isZero : (fun other => weight other (memory.table pgdir index)) = 0 := by
        funext other
        rw [table, if_pos isSmall, mapping, if_neg absent, Option.map_none]
        rfl
      rw [isZero, zero_add] at sound ⊢
      exact ih memory smallRest sound

/-- `freevm` gives back everything that a directory owns. -/
theorem ensures_freevm (sound : Sound memory (memory.uses pgdir + rest)) :
    Ensures (freevm pgdir) memory fun _ next =>
      Moves memory next (memory.uses pgdir) 0 ∧ next.refusals = memory.refusals := by
  refine (ensures_deallocuvm 0 sound le_rfl).bind ?_
  rintro _ middle ⟨-, shrinks⟩
  have soundMiddle := sound.moves_add shrinks.moves
  have isTables : middle.uses pgdir = one pgdir + tablesAt middle pgdir (List.range 1024) := by
    rw [← tables_eq]
    funext page
    rw [uses, users, Finset.sum_eq_zero, Nat.add_zero]
    intro va isUser
    rw [frame, shrinks.removed va (Nat.zero_le va) (mem_below.mp isUser), Option.map_none,
      weight_none]
  rw [isTables] at soundMiddle
  refine (ensures_freeTables (List.range 1024) middle
    (fun index member => List.mem_range.mp member) soundMiddle).bind fun _ last frees => ?_
  have soundLast := soundMiddle.moves_add frees.1
  have moves := shrinks.moves
  rw [isTables] at moves
  refine ensures_kfree soundLast ?_ ⟨?_, ?_⟩
  · simp only [Pi.add_apply, one_self]
    omega
  · exact (moves.trans frees.1).trans (moves_release last pgdir)
  · have isReleased : (last.release pgdir).refusals = last.refusals := rfl
    rw [isReleased, frees.2, shrinks.refusals]

/-! ## `setupkvm` -/

structure MapsKernel (memory next : Memory) (pgdir : Nat) (entries : Nat → Option Nat) :
    Prop where
  moves : Moves memory next (memory.uses pgdir) (next.uses pgdir)
  entry : ∀ va, next.entry pgdir va = (entries va).or (memory.entry pgdir va)
  filled : ∀ index, next.table pgdir index ≠ memory.table pgdir index →
    ∃ va, va / 1024 = index ∧ next.entry pgdir va ≠ none
  refusals : next.refusals = memory.refusals

theorem MapsKernel.refl (memory : Memory) (pgdir : Nat) {entries : Nat → Option Nat}
    (isNone : ∀ va, entries va = none) : MapsKernel memory memory pgdir entries :=
  ⟨.refl memory _, fun va => by rw [isNone, Option.none_or],
    fun _ changed => absurd rfl changed, rfl⟩

theorem MapsKernel.trans {first second both : Nat → Option Nat}
    (maps : MapsKernel memory next pgdir first) (more : MapsKernel next last pgdir second)
    (isBoth : ∀ va, both va = (second va).or (first va)) :
    MapsKernel memory last pgdir both := by
  refine ⟨maps.moves.trans more.moves, fun va => ?_, fun index changed => ?_,
    more.refusals.trans maps.refusals⟩
  · rw [more.entry, maps.entry, isBoth, Option.or_assoc]
  · by_cases isSame : last.table pgdir index = next.table pgdir index
    · obtain ⟨va, isIndex, isMapped⟩ := maps.filled index (isSame ▸ changed)
      refine ⟨va, isIndex, ?_⟩
      rw [more.entry]
      cases second va with
      | none => exact isMapped
      | some entry => exact Option.some_ne_none _
    · exact more.filled index isSame

/-- A directory is left with pages to free because a call of `kalloc` failed. -/
def LeavesPages (memory next : Memory) (pgdir : Nat) : Prop :=
  Moves memory next (memory.uses pgdir) (next.uses pgdir) ∧ memory.refusals < next.refusals

theorem LeavesPages.after (leaves : LeavesPages next last pgdir)
    (moves : Moves memory next (memory.uses pgdir) (next.uses pgdir))
    (refusals : next.refusals = memory.refusals) : LeavesPages memory last pgdir :=
  ⟨moves.trans leaves.1, refusals ▸ leaves.2⟩

/-- A call of `kalloc` failed while the kernel was mapped, and no page was freed yet. -/
structure StopsMapping (memory next : Memory) (pgdir : Nat) : Prop where
  leaves : LeavesPages memory next pgdir
  users : ∀ va < 0x80000, next.entry pgdir va = memory.entry pgdir va
  noMore : memory.failures = [] → next.freelist = []

theorem Refuses.stopsMapping (refuses : Refuses memory next) (pgdir : Nat) :
    StopsMapping memory next pgdir := by
  have views := refuses.views
  have moves := refuses.moves (memory.uses pgdir)
  refine ⟨⟨?_, refuses.refusals ▸ Nat.lt_succ_self _⟩, fun va _ => by rw [views.2.2],
    fun isNil => (refuses.failures isNil).2⟩
  rw [uses_congr (congrFun views.2.1 pgdir) (congrFun views.2.2 pgdir)]
  exact moves

theorem MapsKernel.stops {entries : Nat → Option Nat} (maps : MapsKernel memory next pgdir entries)
    (isKernel : ∀ va < 0x80000, entries va = none) (stops : StopsMapping next last pgdir) :
    StopsMapping memory last pgdir := by
  refine ⟨stops.leaves.after maps.moves maps.refusals, fun va isUser => ?_,
    fun isNil => stops.noMore (maps.moves.failures isNil)⟩
  rw [stops.users va isUser, maps.entry, isKernel va isUser, Option.none_or]

def Kmap.entry (k : Kmap) (va : Nat) : Option Nat :=
  if k.virt ≤ va ∧ va < k.virt + k.count then
    some (4096 * (k.phys + (va - k.virt)) + (k.perm ||| 1))
  else none

theorem ensures_mappages_kernel (flags : perm < 4096) (count : Nat) :
    ∀ (memory : Memory) (va pa : Nat), Sound memory (memory.uses pgdir + rest) →
      0x80000 ≤ va → va + count ≤ 0x100000 →
      (∀ other, va ≤ other → other < va + count → memory.entry pgdir other = none) →
      Ensures (mappages pgdir perm count va pa) memory fun ok next =>
        (ok = true ∧ MapsKernel memory next pgdir (Kmap.entry ⟨va, count, pa, perm⟩)) ∨
          (ok = false ∧ StopsMapping memory next pgdir) := by
  induction count with
  | zero =>
    intro memory va pa _ _ _ _
    exact ensures_pure (.inl ⟨rfl, .refl memory pgdir fun other => if_neg (by dsimp only; omega)⟩)
  | succ count ih =>
    intro memory va pa sound isKernel small free
    refine ensures_mappages_succ sound (by omega) (free va le_rfl (by omega)) flags
      (fun next refuses => .inr ⟨rfl, refuses.stopsMapping pgdir⟩) fun next isExtended => ?_
    have moves := isExtended.moves_tables (users_update_kernel isKernel isExtended.entry)
    have first : MapsKernel memory next pgdir (Kmap.entry ⟨va, 1, pa, perm⟩) := by
      refine ⟨moves, fun other => ?_, fun index changed => ⟨va, ?_, ?_⟩, isExtended.refusals⟩
      · rw [isExtended.entry, Kmap.entry]
        dsimp only
        by_cases isVa : other = va
        · grind
        · rw [Function.update_of_ne isVa, if_neg (by omega), Option.none_or]
      · by_contra differs
        exact changed (isExtended.others index (Ne.symm differs))
      · rw [isExtended.entry, Function.update_self]
        exact Option.some_ne_none _
    refine (ih next (va + 1) (pa + 1) (sound.moves_add moves) (by omega) (by omega)
      fun other above below => ?_).mono ?_
    · rw [isExtended.entry, Function.update_of_ne (by omega)]
      exact free other (by omega) (by omega)
    · rintro ok last (⟨rfl, maps⟩ | ⟨rfl, stops⟩)
      · refine .inl ⟨rfl, first.trans maps fun other => ?_⟩
        simp only [Kmap.entry]
        by_cases isVa : other = va
        · rw [isVa, if_pos (by omega), if_neg (by omega), if_pos (by omega), Option.none_or]
        · grind
      · refine .inr ⟨rfl, first.stops (fun other isUser => if_neg ?_) stops⟩
        dsimp only
        omega

/-- What the loop over `kmap` maps. -/
def mapped : List Kmap → Nat → Option Nat
  | [], _ => none
  | k :: rest, va => (mapped rest va).or (k.entry va)

def kernelEntry (data va : Nat) : Option Nat :=
  mapped (kmap data) va

theorem kernelEntry_user {data : Nat} (isData : 0x100 < data ∧ data < 0xE000)
    (isUser : va < 0x80000) : kernelEntry data va = none := by
  simp only [kernelEntry, kmap, mapped, Kmap.entry]
  repeat rw [if_neg (by omega)]
  rfl

/-- The kernel's pages are the physical memory and the devices, and no user may access
them. -/
theorem kernelEntry_kernel {data : Nat} (isData : 0x100 < data ∧ data < 0xE000) (va : Nat) :
    (kernelEntry data va = none ↔ va < 0x80000 ∨ (0x8E000 ≤ va ∧ va < 0xFE000) ∨ 0x100000 ≤ va) ∧
      ∀ entry, kernelEntry data va = some entry → ¬ User entry := by
  simp only [kernelEntry, kmap, mapped, Kmap.entry]
  split_ifs <;> simp <;> omega

theorem ensures_mapKernel (kernel : List Kmap) :
    ∀ memory : Memory, Sound memory (memory.uses pgdir + rest) →
      (∀ k ∈ kernel, 0x80000 ≤ k.virt ∧ k.virt + k.count ≤ 0x100000 ∧ k.perm < 4096) →
      kernel.Pairwise (fun k later => k.virt + k.count ≤ later.virt) →
      (∀ k ∈ kernel, ∀ va, k.virt ≤ va → memory.entry pgdir va = none) →
      Ensures (mapKernel pgdir kernel) memory fun ok next =>
        (ok = true ∧ MapsKernel memory next pgdir (mapped kernel)) ∨
          (ok = false ∧ StopsMapping memory next pgdir) := by
  induction kernel with
  | nil => exact fun memory _ _ _ _ => ensures_pure (.inl ⟨rfl, .refl memory pgdir fun _ => rfl⟩)
  | cons k kernel ih =>
    intro memory sound bounds ordered free
    obtain ⟨isKernel, small, flags⟩ := bounds k List.mem_cons_self
    obtain ⟨before, orderedRest⟩ := List.pairwise_cons.mp ordered
    refine (ensures_mappages_kernel flags k.count memory k.virt k.phys sound isKernel small
      fun va above _ => free k List.mem_cons_self va above).bind ?_
    rintro ok next (⟨rfl, maps⟩ | ⟨rfl, stops⟩)
    · refine (ih next (sound.moves_add maps.moves)
        (fun other member => bounds other (List.mem_cons_of_mem _ member)) orderedRest
        fun other member va above => ?_).mono ?_
      · have later := before other member
        rw [maps.entry, free other (List.mem_cons_of_mem _ member) va above, Kmap.entry,
          if_neg (by dsimp only; omega), Option.none_or]
      · rintro ok last (⟨rfl, more⟩ | ⟨rfl, stops⟩)
        · exact .inl ⟨rfl, maps.trans more fun _ => rfl⟩
        · refine .inr ⟨rfl, maps.stops (fun va isUser => if_neg ?_) stops⟩
          dsimp only
          omega
    · exact ensures_pure (.inr ⟨rfl, stops⟩)

/-- A new directory that maps the kernel and owns nothing else. -/
structure NewDirectory (memory next : Memory) (pgdir : Nat) : Prop where
  isFree : pgdir ∈ memory.freelist
  moves : Moves memory next 0 (next.uses pgdir)
  entry : next.entry pgdir = kernelEntry memory.data
  filled : ∀ index, next.table pgdir index ≠ none →
    ∃ va, va / 1024 = index ∧ next.entry pgdir va ≠ none
  refusals : next.refusals = memory.refusals

theorem NewDirectory.free_le (isNew : NewDirectory memory next pgdir) (sound : Sound memory rest) :
    memory.freelist.length ≤ next.freelist.length + 1026 := by
  have soundMore : Sound memory (0 + rest) := by rwa [zero_add]
  have noUser : ∀ va, 0 ≤ va → va < 0x80000 → next.entry pgdir va = none := by
    intro va _ isUser
    rw [isNew.entry, kernelEntry_user sound.data isUser]
  exact soundMore.free_le pgdir 0 isNew.moves (fun _ => .inr) noUser

/-- `setupkvm` makes a directory, or gives back what it took. -/
theorem ensures_setupkvm (sound : Sound memory rest) :
    Ensures setupkvm memory fun found next =>
      (∃ pgdir, found = some pgdir ∧ NewDirectory memory next pgdir) ∨
        (found = none ∧ Moves memory next 0 0 ∧ memory.refusals < next.refusals ∧
          Short memory 0) := by
  refine ensures_kalloc_bind (fun next refuses => ensures_pure (.inr ⟨rfl, ?_⟩))
    fun pgdir freelist failures isFree noFailures => ensures_modify_bind (ensures_get_bind ?_)
  · exact ⟨refuses.moves 0, refuses.refusals ▸ Nat.lt_succ_self _, refuses.short 0⟩
  · have taken := takes isFree noFailures fun _ => 0
    generalize (memory.take failures freelist).setPage pgdir (fun _ => 0) = next at taken ⊢
    obtain ⟨noTable, noEntry, isOwn⟩ := views_of_empty taken.word
    have isData : 0x100 < next.data ∧ next.data < 0xE000 := taken.moves.data ▸ sound.data
    have moves := taken.moves
    rw [← isOwn] at moves
    have soundNext : Sound next (next.uses pgdir + rest) := by
      have soundMore : Sound memory (0 + rest) := by rwa [zero_add]
      exact soundMore.moves_add moves
    refine (ensures_mapKernel (kmap next.data) next soundNext ?_ ?_
      fun _ _ va _ => congrFun noEntry va).bind ?_
    · grind [kmap]
    · simp only [kmap, List.pairwise_cons, List.mem_cons, List.not_mem_nil, or_false,
        forall_eq_or_imp, forall_eq, IsEmpty.forall_iff, implies_true, List.Pairwise.nil, and_true]
      omega
    · rintro ok last (⟨rfl, maps⟩ | ⟨rfl, stops⟩)
      · refine ensures_pure (.inl ⟨pgdir, rfl, taken.isFree, moves.trans maps.moves, ?_,
          fun index isTable => maps.filled index ?_, maps.refusals.trans taken.refusals⟩)
        · funext va
          rw [maps.entry, noEntry, Option.or_none, ← taken.moves.data]
          rfl
        · rwa [noTable]
      · have leaves := stops.leaves
        refine (ensures_freevm (soundNext.moves_add leaves.1)).bind fun _ final frees =>
          ensures_pure (.inr ⟨rfl, (moves.trans leaves.1).trans frees.1, ?_, fun isNil => ?_⟩)
        · rw [frees.2, ← taken.refusals]
          exact leaves.2
        · have soundMore : Sound memory (0 + rest) := by rwa [zero_add]
          refine soundMore.free_le_of_nil pgdir 0 (moves.trans leaves.1)
            (stops.noMore (taken.moves.failures isNil)) (fun _ => .inr) fun va _ isUser => ?_
          rw [stops.users va isUser, noEntry]

end Vm

end Xv6
