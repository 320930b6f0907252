import Xv6.PageTableWalks

/-!
# User pages added and removed

`deallocuvm` goes through the entries of a range and skips what has no page table.
`allocuvm` maps fresh pages one after the other, and takes back what it mapped when
memory runs out.
-/

namespace Xv6

namespace Vm

open Memory

variable {β : Type} {memory next last : Memory} {pgdir pgtab page va lo mid hi oldsz newsz : Nat}
  {rest : Nat → Nat} {goal : β → Memory → Prop}

def pages (size : Nat) : Nat :=
  (size + 4095) / 4096

theorem pageUp_eq {size : Nat} (small : size ≤ 0x80000000) : pageUp size = pages size := by
  unfold pageUp pages
  omega

/-! ## Pages removed -/

structure Shrinks (memory next : Memory) (pgdir lo hi : Nat) : Prop where
  moves : Moves memory next (memory.uses pgdir) (next.uses pgdir)
  table : next.table pgdir = memory.table pgdir
  removed : ∀ va, lo ≤ va → va < hi → next.entry pgdir va = none
  others : ∀ va, va < lo ∨ hi ≤ va → next.entry pgdir va = memory.entry pgdir va
  kept : ∀ va page, va < 0x80000 → next.frame pgdir va = some page →
    next.word page = memory.word page
  refusals : next.refusals = memory.refusals

theorem Shrinks.refl (memory : Memory) (pgdir : Nat) (empty : hi ≤ lo) :
    Shrinks memory memory pgdir lo hi :=
  ⟨.refl memory _, rfl, fun va above below => by omega, fun _ _ => rfl, fun _ _ _ _ => rfl, rfl⟩

theorem Shrinks.skip (shrinks : Shrinks memory next pgdir mid hi)
    (absent : ∀ va, lo ≤ va → va < mid → memory.entry pgdir va = none) (ordered : lo ≤ mid) :
    Shrinks memory next pgdir lo hi := by
  refine ⟨shrinks.moves, shrinks.table, fun va above below => ?_, fun va outside => ?_,
    shrinks.kept, shrinks.refusals⟩
  · by_cases before : va < mid
    · rw [shrinks.others va (.inl before), absent va above before]
    · exact shrinks.removed va (by omega) below
  · exact shrinks.others va (by omega)

theorem Shrinks.trans (first : Shrinks memory next pgdir lo mid)
    (second : Shrinks next last pgdir mid hi) (ordered : lo ≤ mid ∧ mid ≤ hi) :
    Shrinks memory last pgdir lo hi := by
  refine ⟨first.moves.trans second.moves, second.table.trans first.table,
    fun va above below => ?_, fun va outside => ?_, fun va page isUser isFrame => ?_,
    second.refusals.trans first.refusals⟩
  · by_cases before : va < mid
    · rw [second.others va (.inl before), first.removed va above before]
    · exact second.removed va (by omega) below
  · rw [second.others va (by omega), first.others va (by omega)]
  · have isFrameNext : next.frame pgdir va = some page := by
      rw [frame] at isFrame ⊢
      by_cases removed : mid ≤ va ∧ va < hi
      · rw [second.removed va removed.1 removed.2] at isFrame
        cases isFrame
      · rwa [second.others va (by omega)] at isFrame
    rw [second.kept va page isUser isFrame, first.kept va page isUser isFrameNext]

theorem shrinks_clear (sound : Sound memory (memory.uses pgdir + rest)) (isUser : va < 0x80000)
    (isTable : memory.table pgdir (va / 1024) = some pgtab)
    (isFrame : memory.frame pgdir va = some page) :
    Shrinks memory ((memory.release page).setWord pgtab (va % 1024) 0) pgdir va (va + 1) := by
  have noPart := tables_frame_eq_zero sound.uses_le_one isUser isFrame
  have released : (memory.release page).table pgdir = memory.table pgdir ∧
      (memory.release page).entry pgdir = memory.entry pgdir := views_setPage noPart _
  have once := sound.uses_le_one
  rw [← uses_congr released.1 released.2] at once
  have views := views_setWord once (released.1 ▸ isTable) 0
  rw [released.1, released.2, show mapping 0 = none from rfl] at views
  have isUsed : 1 ≤ memory.uses pgdir page := by
    have := memory.uses_ge pgdir page isUser
    rw [isFrame, weight_some, one_self] at this
    omega
  have isPart := one_le_tables isTable
  refine ⟨⟨fun other => ?_, fun other unowned => ?_, rfl, rfl, id⟩, views.1,
    fun other above below => ?_, fun other outside => ?_,
    fun other found isOther foundFrame => ?_, rfl⟩
  · have counted := users_update isUser views.2 other
    rw [isFrame, weight_some, Option.map_none, weight_none] at counted
    have isFreelist : ((memory.release page).setWord pgtab (va % 1024) 0).freelist =
        page :: memory.freelist := rfl
    rw [isFreelist, List.count_cons, uses, uses, tables_congr views.1]
    simp only [one, beq_iff_eq] at counted ⊢
    omega
  · rw [word_setWord_of_ne, release, word_setPage_of_ne]
    · rintro rfl
      omega
    · rintro rfl
      rw [uses] at unowned
      omega
  · have isVa : other = va := by omega
    rw [views.2, isVa, Function.update_self]
  · rw [views.2, Function.update_of_ne (by omega)]
  · have isVa : other ≠ va := by
      rintro rfl
      rw [frame, views.2, Function.update_self] at foundFrame
      cases foundFrame
    rw [frame, views.2, Function.update_of_ne isVa] at foundFrame
    have notPart := tables_frame_eq_zero sound.uses_le_one isOther foundFrame
    rw [word_setWord_of_ne, release, word_setPage_of_ne]
    · rintro rfl
      exact isVa (frame_inj sound.uses_le_one isOther isUser foundFrame isFrame)
    · rintro rfl
      omega

/-! ## The loop of `deallocuvm` -/

/-- A round finds no page table, or removes what is mapped at the page. -/
theorem ensures_deallocPage_bind {code : Nat → Code β}
    (sound : Sound memory (memory.uses pgdir + rest)) (isUser : va < 0x80000)
    (skips : (∀ other, va ≤ other → other < (va / 1024 + 1) * 1024 →
        memory.entry pgdir other = none) →
      Ensures (code ((va / 1024 + 1) * 1024)) memory goal)
    (removes : ∀ next, Shrinks memory next pgdir va (va + 1) →
      Ensures (code (va + 1)) next goal) :
    Ensures (deallocPage pgdir va >>= code) memory goal := by
  refine ensures_bind (ensures_walkpgdir_bind (by omega) (fun noTable => ensures_pure ?_)
    fun pgtab isTable => ?_)
  · have isNext : (va / 1024 + 1) * 1024 % 0x100000 = (va / 1024 + 1) * 1024 := by omega
    rw [isNext]
    refine skips fun other above below => entry_of_no_table ?_
    rwa [show other / 1024 = va / 1024 by omega]
  · have isNext : (va + 1) % 0x100000 = va + 1 := by omega
    have isEntry := entry_of_table isTable
    refine ensures_bind (ensures_get_bind (ensures_ite (fun present => ?_) fun absent => ?_))
    · have isFrame : memory.frame pgdir va = some (memory.word pgtab (va % 1024) / 4096) := by
        rw [frame, isEntry, mapping, if_pos present, Option.map_some]
      have isUsed : 0 < (memory.uses pgdir + rest) (memory.word pgtab (va % 1024) / 4096) := by
        have := memory.uses_ge pgdir (memory.word pgtab (va % 1024) / 4096) isUser
        rw [isFrame, weight_some, one_self] at this
        simp only [Pi.add_apply]
        omega
      refine ensures_ite (fun isZero => ?_) fun _ => ensures_kfree_bind sound isUsed
        (ensures_modify (ensures_pure ?_))
      · have := sound.managed _ (Nat.add_pos_right _ isUsed)
        have := sound.bottom
        omega
      · rw [isNext]
        exact removes _ (shrinks_clear sound isUser isTable isFrame)
    · refine ensures_pure (ensures_pure ?_)
      rw [isNext]
      refine removes memory ((Shrinks.refl memory pgdir le_rfl).skip (fun other above below => ?_)
        (Nat.le_succ va))
      rw [show other = va by omega, isEntry, mapping, if_neg absent]

theorem ensures_deallocLoop (small : oldsz ≤ 0x80000000) (rounds : Nat) :
    ∀ (memory : Memory) (va : Nat), Sound memory (memory.uses pgdir + rest) → 0 < rounds →
      pages oldsz < rounds + va →
      Ensures (deallocLoop pgdir oldsz rounds va) memory fun _ next =>
        Shrinks memory next pgdir va (pages oldsz) := by
  induction rounds with
  | zero => exact fun _ _ _ positive => absurd positive (lt_irrefl 0)
  | succ rounds ih =>
    intro memory va sound _ enough
    rw [pages] at enough
    refine ensures_ite (fun inside => ?_) fun outside => ensures_pure ?_
    · refine ensures_deallocPage_bind sound (by omega) (fun absent => ?_) fun next removed => ?_
      · refine (ih memory _ sound (by omega) (by rw [pages]; omega)).mono fun _ last shrinks => ?_
        exact shrinks.skip absent (by omega)
      · refine (ih next _ (sound.moves_add removed.moves) (by omega) (by rw [pages]; omega)).mono
          fun _ last shrinks => ?_
        exact removed.trans shrinks ⟨Nat.le_succ va, by rw [pages]; omega⟩
    · exact Shrinks.refl memory pgdir (by rw [pages]; omega)

theorem ensures_deallocuvm (newsz : Nat) (sound : Sound memory (memory.uses pgdir + rest))
    (small : oldsz ≤ 0x80000000) :
    Ensures (deallocuvm pgdir oldsz newsz) memory fun size next =>
      size = min oldsz newsz ∧ Shrinks memory next pgdir (pages newsz) (pages oldsz) := by
  refine ensures_ite (fun larger => ensures_pure ?_) fun smaller => ?_
  · exact ⟨(min_eq_left larger).symm,
      Shrinks.refl memory pgdir (Nat.div_le_div_right (Nat.add_le_add_right larger 4095))⟩
  · rw [pageUp_eq (by omega)]
    refine (ensures_deallocLoop small 0x100001 memory _ sound (by omega)
      (by unfold pages; omega)).bind fun _ next shrinks => ensures_pure ?_
    exact ⟨(min_eq_right (by omega)).symm, shrinks⟩

/-! ## Pages added -/

/-- Zeroed pages that were free are mapped in a range. -/
structure Allocates (memory next : Memory) (pgdir lo hi : Nat) : Prop where
  moves : Moves memory next (memory.uses pgdir) (next.uses pgdir)
  mapped : ∀ va, lo ≤ va → va < hi → ∃ page ∈ memory.freelist,
    next.entry pgdir va = some (4096 * page + 7) ∧ next.word page = fun _ => 0
  others : ∀ va, va < lo ∨ hi ≤ va → next.entry pgdir va = memory.entry pgdir va
  table : ∀ index pgtab, memory.table pgdir index = some pgtab →
    next.table pgdir index = some pgtab
  filled : ∀ index, next.table pgdir index ≠ memory.table pgdir index →
    ∃ va, va / 1024 = index ∧ next.entry pgdir va ≠ none
  kept : ∀ va page, va < 0x80000 → memory.frame pgdir va = some page →
    next.word page = memory.word page
  taken : ∀ page ∈ next.freelist, page ∈ memory.freelist
  refusals : next.refusals = memory.refusals

theorem Allocates.refl (memory : Memory) (pgdir : Nat) (empty : hi ≤ lo) :
    Allocates memory memory pgdir lo hi :=
  ⟨.refl memory _, fun va above below => by omega, fun _ _ => rfl, fun _ _ => id,
    fun _ changed => absurd rfl changed, fun _ _ _ _ => rfl, fun _ => id, rfl⟩

theorem Allocates.frame_of_mapped (entry : memory.entry pgdir va = some (4096 * page + 7)) :
    memory.frame pgdir va = some page := by
  rw [frame, entry, Option.map_some]
  congr 1
  omega

theorem Allocates.trans (first : Allocates memory next pgdir lo mid)
    (second : Allocates next last pgdir mid hi) (ordered : lo ≤ mid ∧ mid ≤ hi)
    (isUser : mid ≤ 0x80000)
    (absent : ∀ va, lo ≤ va → va < hi → memory.entry pgdir va = none) :
    Allocates memory last pgdir lo hi := by
  refine ⟨first.moves.trans second.moves, fun va above below => ?_, fun va outside => ?_,
    fun index pgtab isTable => second.table index pgtab (first.table index pgtab isTable),
    fun index changed => ?_, fun va page isUser isFrame => ?_,
    fun page isFree => first.taken page (second.taken page isFree),
    second.refusals.trans first.refusals⟩
  · by_cases before : va < mid
    · obtain ⟨page, isFree, isEntry, isZero⟩ := first.mapped va above before
      refine ⟨page, isFree, (second.others va (.inl before)).trans isEntry, ?_⟩
      rw [second.kept va page (by omega) (Allocates.frame_of_mapped isEntry), isZero]
    · obtain ⟨page, isFree, isEntry, isZero⟩ := second.mapped va (by omega) below
      exact ⟨page, first.taken page isFree, isEntry, isZero⟩
  · rw [second.others va (by omega), first.others va (by omega)]
  · by_cases isSame : last.table pgdir index = next.table pgdir index
    · obtain ⟨va, isIndex, isMapped⟩ := first.filled index (isSame ▸ changed)
      refine ⟨va, isIndex, ?_⟩
      by_cases again : mid ≤ va ∧ va < hi
      · obtain ⟨page, -, isEntry, -⟩ := second.mapped va again.1 again.2
        rw [isEntry]
        exact Option.some_ne_none _
      · rwa [second.others va (by omega)]
    · exact second.filled index isSame
  · have isFrameNext : next.frame pgdir va = some page := by
      rw [frame] at isFrame ⊢
      by_cases mapped : lo ≤ va ∧ va < mid
      · grind
      · rwa [first.others va (by omega)]
    rw [second.kept va page isUser isFrameNext, first.kept va page isUser isFrame]

theorem AddsPage.allocates (adds : AddsPage memory next pgdir va page 7 fun _ => 0) :
    Allocates memory next pgdir va (va + 1) := by
  refine ⟨adds.moves, fun other above below => ⟨page, adds.isFree, ?_, adds.word⟩,
    fun other outside => ?_, adds.table, fun index changed => ⟨va, ?_, ?_⟩, adds.kept, adds.taken,
    adds.refusals⟩
  · rw [adds.entry, show other = va by omega, Function.update_self]
  · rw [adds.entry, Function.update_of_ne (by omega)]
  · by_contra differs
    exact changed (adds.others index (Ne.symm differs))
  · rw [adds.entry, Function.update_self]
    exact Option.some_ne_none _

/-- The user pages are those before the call, and a call of `kalloc` failed. -/
structure Restores (memory next : Memory) (pgdir : Nat) : Prop where
  moves : Moves memory next (memory.uses pgdir) (next.uses pgdir)
  entry : next.entry pgdir = memory.entry pgdir
  table : ∀ index pgtab, memory.table pgdir index = some pgtab →
    next.table pgdir index = some pgtab
  kept : ∀ va page, va < 0x80000 → memory.frame pgdir va = some page →
    next.word page = memory.word page
  refusals : memory.refusals < next.refusals

/-- What was mapped from `lo` on is removed again, from a memory that maps the same. -/
theorem Allocates.undo {middle : Memory} (allocates : Allocates memory middle pgdir lo va)
    (shrinks : Shrinks next last pgdir lo hi) (ordered : va ≤ hi ∧ hi ≤ 0x80000)
    (absent : ∀ other, lo ≤ other → other < 0x80000 → memory.entry pgdir other = none)
    (sameTable : next.table pgdir = middle.table pgdir)
    (sameEntry : next.entry pgdir = middle.entry pgdir)
    (sameWord : ∀ other page, other < 0x80000 → middle.frame pgdir other = some page →
      next.word page = middle.word page) :
    last.entry pgdir = memory.entry pgdir ∧
      (∀ index pgtab, memory.table pgdir index = some pgtab →
        last.table pgdir index = some pgtab) ∧
      ∀ other page, other < 0x80000 → memory.frame pgdir other = some page →
        last.word page = memory.word page ∧ last.frame pgdir other = some page := by
  have isEntry : ∀ other, last.entry pgdir other = memory.entry pgdir other := by
    intro other
    by_cases removed : lo ≤ other ∧ other < hi
    · rw [shrinks.removed other removed.1 removed.2, absent other removed.1 (by omega)]
    · rw [shrinks.others other (by omega), sameEntry, allocates.others other (by omega)]
  refine ⟨funext isEntry, fun index pgtab isTable => ?_, fun other page isUser isFrame => ?_⟩
  · rw [shrinks.table, sameTable]
    exact allocates.table index pgtab isTable
  · have isFrameLast : last.frame pgdir other = some page := by
      rw [frame, isEntry, ← frame, isFrame]
    have outside : other < lo := by
      grind [frame]
    have isFrameMiddle : middle.frame pgdir other = some page := by
      rw [frame, allocates.others other (.inl outside), ← frame, isFrame]
    rw [shrinks.kept other page isUser isFrameLast, sameWord other page isUser isFrameMiddle,
      allocates.kept other page isUser isFrame]
    exact ⟨rfl, isFrameLast⟩

/-- If no call of `kalloc` was made to fail, there were few free pages. -/
def Short (memory : Memory) (count : Nat) : Prop :=
  memory.failures = [] → memory.freelist.length ≤ 1026 + count

/-- Few pages were free before the directory was filled. -/
def ShortBefore (memory : Memory) (pgdir count : Nat) : Prop :=
  ∀ base owned rest, Sound base (owned + rest) → Moves base memory owned (memory.uses pgdir) →
    Short base count

theorem Refuses.short (refuses : Refuses memory next) (count : Nat) : Short memory count := by
  intro isNil
  have isEmpty := (refuses.failures isNil).2
  obtain ⟨after, rfl⟩ := refuses.isNext
  have noPage : memory.freelist = [] := isEmpty
  rw [noPage, List.length_nil]
  exact Nat.zero_le _

theorem Allocates.absent_above {middle : Memory} (allocates : Allocates memory middle pgdir lo va)
    (absent : ∀ other, lo ≤ other → other < 0x80000 → memory.entry pgdir other = none)
    (ordered : lo ≤ va ∧ va ≤ hi) :
    ∀ other, hi ≤ other → other < 0x80000 → middle.entry pgdir other = none := by
  intro other isAbove isUser
  rw [allocates.others other (by omega), absent other (by omega) isUser]

theorem Allocates.refused {middle : Memory} (allocates : Allocates memory middle pgdir lo va)
    (absent : ∀ other, lo ≤ other → other < 0x80000 → memory.entry pgdir other = none)
    (refuses : Refuses middle next) (shrinks : Shrinks next last pgdir lo hi)
    (ordered : lo ≤ va ∧ va ≤ hi ∧ hi ≤ 0x80000) :
    Restores memory last pgdir ∧ ShortBefore memory pgdir hi := by
  obtain ⟨sameWord, sameTable, sameEntry⟩ := refuses.views
  have sameUses : next.uses pgdir = middle.uses pgdir :=
    uses_congr (congrFun sameTable pgdir) (congrFun sameEntry pgdir)
  obtain ⟨isEntry, tables, kept⟩ := allocates.undo shrinks ordered.2 absent
    (congrFun sameTable pgdir) (congrFun sameEntry pgdir)
    fun _ page _ _ => congrFun sameWord page
  have refused := allocates.moves.trans (refuses.moves _)
  have moves := shrinks.moves
  rw [sameUses] at moves
  refine ⟨⟨refused.trans moves, isEntry, tables,
    fun other page isUser isFrame => (kept other page isUser isFrame).1, ?_⟩,
    fun base owned rest sound filled isNil => ?_⟩
  · rw [shrinks.refusals, refuses.refusals, allocates.refusals]
    exact Nat.lt_succ_self _
  · have noMore := refuses.failures (allocates.moves.failures (filled.failures isNil))
    refine sound.free_le_of_nil pgdir 0 (filled.trans refused) noMore.2
      (fun page isUsed => .inr (sameUses ▸ isUsed)) ?_
    rw [congrFun sameEntry pgdir]
    exact allocates.absent_above absent ⟨ordered.1, ordered.2.1⟩

theorem Allocates.unmapped {middle taken : Memory} {words : Nat → Nat}
    (allocates : Allocates memory middle pgdir lo va)
    (absent : ∀ other, lo ≤ other → other < 0x80000 → memory.entry pgdir other = none)
    (sound : Sound middle (middle.uses pgdir + rest)) (takes : Takes middle taken page words)
    (refuses : Refuses taken next) (shrinks : Shrinks next last pgdir lo hi)
    (ordered : lo ≤ va ∧ va ≤ hi ∧ hi ≤ 0x80000) :
    Restores memory (last.release page) pgdir ∧ ShortBefore memory pgdir hi := by
  obtain ⟨sameWord, sameTable, sameEntry⟩ := refuses.views
  have takenViews := takes.views sound
  have views : next.table pgdir = middle.table pgdir ∧ next.entry pgdir = middle.entry pgdir :=
    ⟨(congrFun sameTable pgdir).trans takenViews.1, (congrFun sameEntry pgdir).trans takenViews.2⟩
  have isPage : ∀ other found, other < 0x80000 → middle.frame pgdir other = some found →
      found ≠ page := by
    rintro other found isUser isFrame rfl
    have apart := sound.apart isUser isFrame
    have := List.count_pos_iff.mpr takes.isFree
    omega
  obtain ⟨isEntry, tables, kept⟩ := allocates.undo shrinks ordered.2 absent views.1 views.2
    fun other found isUser isFrame => (congrFun sameWord found).trans
      (takes.others found (isPage other found isUser isFrame))
  have refused := (takes.moves_uses sound).trans (refuses.moves _)
  have sameUses : next.uses pgdir = taken.uses pgdir :=
    uses_congr (congrFun sameTable pgdir) (congrFun sameEntry pgdir)
  rw [← sameUses] at refused
  have held := refused.trans (shrinks.moves.add (one page))
  have soundLast := sound.moves_add held
  obtain ⟨sameTableLast, sameEntryLast, freed⟩ := soundLast.release_held
  refine ⟨⟨allocates.moves.trans (held.trans freed), sameEntryLast.trans isEntry,
    fun index pgtab isTable => ?_, fun other found isUser isFrame => ?_, ?_⟩,
    fun base owned rest soundBase filled isNil => ?_⟩
  · simp_all
  · obtain ⟨isWord, isFrameLast⟩ := kept other found isUser isFrame
    rw [← isWord]
    refine word_setPage_of_ne _ ?_
    rintro rfl
    have counted := last.uses_ge pgdir found isUser
    have unused := soundLast.once found
    rw [isFrameLast, weight_some, one_self] at counted
    simp only [Pi.add_apply, one_self] at unused
    omega
  · have isReleased : (last.release page).refusals = last.refusals := rfl
    rw [isReleased, shrinks.refusals, refuses.refusals, takes.refusals, allocates.refusals]
    exact Nat.lt_succ_self _
  · have noMore := refuses.failures
      (takes.moves.failures (allocates.moves.failures (filled.failures isNil)))
    refine soundBase.free_le_of_nil pgdir page
      (filled.trans (allocates.moves.trans refused)) noMore.2 (fun other isUsed => ?_) ?_
    · grind [Pi.add_apply, one_of_ne]
    · rw [views.2]
      exact allocates.absent_above absent ⟨ordered.1, ordered.2.1⟩

theorem ensures_allocLoop (small : newsz < 0x80000000) (rounds : Nat)
    (absent : ∀ va, pages oldsz ≤ va → va < 0x80000 → memory.entry pgdir va = none) :
    ∀ (current : Memory) (va : Nat), Sound current (current.uses pgdir + rest) →
      Allocates memory current pgdir (pages oldsz) va → pages oldsz ≤ va → va ≤ pages newsz →
      pages newsz < rounds + va →
      Ensures (allocLoop pgdir oldsz newsz rounds va) current fun ok next =>
        (ok = true ∧ Allocates memory next pgdir (pages oldsz) (pages newsz)) ∨
          (ok = false ∧ Restores memory next pgdir ∧ ShortBefore memory pgdir (pages newsz)) := by
  induction rounds with
  | zero =>
    intro current va _ _ _ _ enough
    omega
  | succ rounds ih =>
    intro current va sound allocates above below enough
    have isLimit : pages newsz ≤ 0x80000 := by
      unfold pages
      omega
    refine ensures_ite (fun inside => ?_) fun outside => ensures_pure (.inl ⟨rfl, ?_⟩)
    · have isUser : va < pages newsz := by
        unfold pages
        omega
      refine ensures_kalloc_bind (fun next refuses => ?_)
        fun page freelist failures isFree noFailures => ?_
      · refine (ensures_deallocuvm oldsz (sound.refuses refuses) small.le).bind
          fun _ last shrinks => ensures_pure (.inr ⟨rfl, ?_⟩)
        exact allocates.refused absent refuses shrinks.2 ⟨above, below, isLimit⟩
      · have taken := takes isFree noFailures fun _ => 0
        refine ensures_modify_bind ?_
        generalize (current.take failures freelist).setPage page (fun _ => 0) = next at taken ⊢
        have free : current.entry pgdir va = none := by
          rw [allocates.others va (.inr le_rfl), absent va above (by omega)]
        have soundNext := sound.moves_add (taken.moves_uses sound)
        have soundHeld := soundNext
        rw [add_assoc] at soundHeld
        refine ensures_bind (ensures_mappages_succ soundHeld (by omega)
          ((congrFun (taken.views sound).2 va).trans free) (by decide) (fun last refuses => ?_)
          fun last isExtended => ensures_pure ?_)
        · refine ensures_ite (fun isTrue => absurd isTrue Bool.false_ne_true) fun _ => ?_
          have soundRefused := soundHeld.refuses refuses
          refine (ensures_deallocuvm oldsz soundRefused small.le).bind fun _ final shrinks => ?_
          have soundLast := soundRefused.moves_add shrinks.2.moves
          refine ensures_kfree_bind soundLast ?_ (ensures_pure (.inr ⟨rfl, ?_⟩))
          · simp_all
          · exact allocates.unmapped absent sound taken refuses shrinks.2
              ⟨above, below, isLimit⟩
        · refine ensures_ite (fun _ => ?_) fun isFalse => absurd rfl isFalse
          have added := (taken.addsPage sound (by omega) free (by decide) isExtended).allocates
          rw [show (va + 1) % 0x100000 = va + 1 by omega]
          refine ih last (va + 1) (sound.moves_add added.moves)
            (allocates.trans added ⟨above, Nat.le_succ va⟩ (by omega)
              fun other isAbove isBelow => absent other isAbove (by omega))
            (by omega) isUser (by omega)
    · grind [pages]

theorem ensures_allocuvm (sound : Sound memory (memory.uses pgdir + rest))
    (small : newsz < 0x80000000) (ordered : oldsz ≤ newsz)
    (absent : ∀ va, pages oldsz ≤ va → va < 0x80000 → memory.entry pgdir va = none) :
    Ensures (allocuvm pgdir oldsz newsz) memory fun size next =>
      (size = newsz ∧ Allocates memory next pgdir (pages oldsz) (pages newsz)) ∨
        (size = 0 ∧ Restores memory next pgdir ∧ ShortBefore memory pgdir (pages newsz)) := by
  have isOrdered : pages oldsz ≤ pages newsz :=
    Nat.div_le_div_right (Nat.add_le_add_right ordered 4095)
  refine ensures_ite (fun large => by omega) fun _ =>
    ensures_ite (fun larger => by omega) fun _ => ?_
  rw [pageUp_eq (by omega)]
  refine (ensures_allocLoop small 0x100001 absent memory _ sound
    (Allocates.refl memory pgdir le_rfl) le_rfl isOrdered (by unfold pages; omega)).bind ?_
  rintro ok next (⟨rfl, allocates⟩ | ⟨rfl, restores⟩)
  · exact ensures_pure (.inl ⟨rfl, allocates⟩)
  · exact ensures_pure (.inr ⟨rfl, restores⟩)

/-! ## Termination -/

theorem walkpgdir_ends :
    EnsuresOr (· ≠ .endless) (walkpgdir pgdir va false) memory fun _ _ => True :=
  ensures_get_bind (ensures_ite (fun _ => ensures_pure trivial) fun _ =>
    ensures_ite (fun isTrue => absurd isTrue Bool.false_ne_true) fun _ => ensures_pure trivial)

theorem kfree_ends : EnsuresOr (· ≠ .endless) (kfree page) memory fun _ _ => True :=
  ensures_get_bind (ensures_ite (fun _ => ensures_throw Stop.noConfusion) fun _ =>
    ensures_ite (fun _ => ensures_throw Stop.noConfusion) fun _ => ensures_modify trivial)

theorem clearEntry_ends {index : Nat} :
    EnsuresOr (· ≠ .endless) (clearEntry pgtab index) memory fun _ _ => True :=
  ensures_get_bind (ensures_ite (fun _ => ensures_ite (fun _ => ensures_throw Stop.noConfusion)
    fun _ => kfree_ends.bind fun _ _ _ => ensures_modify trivial) fun _ => ensures_pure trivial)

/-- Every round goes on to a later page, whatever memory holds. -/
theorem deallocPage_ends (memory : Memory) (pgdir : Nat) (isUser : va < 0x80000) :
    EnsuresOr (· ≠ .endless) (deallocPage pgdir va) memory fun next _ => va < next := by
  refine walkpgdir_ends.bind fun found middle _ => ?_
  cases found with
  | none => exact ensures_pure (by omega)
  | some place => exact clearEntry_ends.bind fun _ last _ => ensures_pure (by omega)

theorem deallocLoop_ends (pgdir : Nat) (small : oldsz ≤ 0x80000000) (rounds : Nat) :
    ∀ (memory : Memory) (va : Nat), 0 < rounds → pages oldsz < rounds + va →
      EnsuresOr (· ≠ .endless) (deallocLoop pgdir oldsz rounds va) memory fun _ _ => True := by
  induction rounds with
  | zero => exact fun _ _ positive => absurd positive (lt_irrefl 0)
  | succ rounds ih =>
    intro memory va _ enough
    rw [pages] at enough
    refine ensures_ite (fun inside => ?_) fun _ => ensures_pure trivial
    refine (deallocPage_ends memory pgdir (by omega)).bind fun next middle later => ?_
    exact ih middle next (by omega) (by rw [pages]; omega)

theorem deallocuvm_ends (memory : Memory) (pgdir newsz : Nat) (small : oldsz ≤ 0x80000000) :
    EnsuresOr (· ≠ .endless) (deallocuvm pgdir oldsz newsz) memory fun _ _ => True := by
  refine ensures_ite (fun _ => ensures_pure trivial) fun smaller => ?_
  rw [pageUp_eq (by omega)]
  exact (deallocLoop_ends pgdir small 0x100001 memory (pages newsz) (by omega)
    (by unfold pages; omega)).bind fun _ _ _ => ensures_pure trivial

/-! ## Exact inverses -/

/-- The pages from the old size up to the new one are fresh and zero, and no other
entry changed. -/
structure MapsFresh (memory next : Memory) (pgdir oldsz newsz : Nat) : Prop where
  fresh : ∀ va, pages oldsz ≤ va → 4096 * va < newsz → ∃ page ∈ memory.freelist,
    page ∉ next.freelist ∧ next.entry pgdir va = some (4096 * page + 7) ∧
      ∀ index, next.word page index = 0
  others : ∀ va, va < pages oldsz ∨ newsz ≤ 4096 * va →
    next.entry pgdir va = memory.entry pgdir va
  sound : Sound next (next.uses pgdir)

/-- The entries are what they were, and a page that was free is free again or is a
page table of the directory. -/
structure GivesBack (memory next : Memory) (pgdir : Nat) : Prop where
  entry : next.entry pgdir = memory.entry pgdir
  free : ∀ page ∈ memory.freelist,
    page ∈ next.freelist ∨ ∃ index, next.table pgdir index = some page

theorem givesBack (sound : Sound memory (memory.uses pgdir))
    (moves : Moves memory next (memory.uses pgdir) (next.uses pgdir))
    (entry : next.entry pgdir = memory.entry pgdir) : GivesBack memory next pgdir := by
  refine ⟨entry, fun page isFree => ?_⟩
  have conserved := moves.conserved page
  have isCounted := List.count_pos_iff.mpr isFree
  have unused := sound.unowned isFree
  rw [uses] at unused
  rw [uses, uses, users_congr entry] at conserved
  by_cases stillFree : page ∈ next.freelist
  · exact .inl stillFree
  · rw [List.count_eq_zero.mpr stillFree] at conserved
    have noPart : memory.tables pgdir page = 0 := by omega
    exact .inr (exists_table (by omega) (ne_of_tables_eq_zero noPart).1)

theorem Allocates.mapsFresh (sound : Sound memory (memory.uses pgdir))
    (allocates : Allocates memory next pgdir (pages oldsz) (pages newsz))
    (small : newsz < 0x80000000) : MapsFresh memory next pgdir oldsz newsz := by
  have soundNext := sound.moves allocates.moves
  refine ⟨fun va above below => ?_, fun va outside => ?_, soundNext⟩
  · obtain ⟨page, isFree, isEntry, isZero⟩ := allocates.mapped va above (by unfold pages; omega)
    refine ⟨page, isFree, soundNext.not_free ?_, isEntry, fun index => congrFun isZero index⟩
    have counted := next.uses_ge pgdir page (by omega : va < 0x80000)
    rw [Allocates.frame_of_mapped isEntry, weight_some, one_self] at counted
    omega
  · refine allocates.others va ?_
    unfold pages at outside ⊢
    omega

/-- `allocuvm` maps fresh pages which `deallocuvm` removes again, or changes nothing
because a call of `kalloc` failed, and the loop of `deallocuvm` ends. -/
theorem allocuvm_inverse (sound : Sound memory (memory.uses pgdir))
    (absent : ∀ va, pages oldsz ≤ va → va < 0x80000 → memory.entry pgdir va = none)
    (ordered : oldsz ≤ newsz) (small : newsz < 0x80000000) :
    ((∃ next, allocuvm pgdir oldsz newsz memory = .ok (newsz, next) ∧
          next.refusals = memory.refusals ∧ MapsFresh memory next pgdir oldsz newsz ∧
          ∃ last, deallocuvm pgdir newsz oldsz next = .ok (oldsz, last) ∧
            GivesBack memory last pgdir) ∨
        ∃ next, allocuvm pgdir oldsz newsz memory = .ok (0, next) ∧
          memory.refusals < next.refusals ∧ GivesBack memory next pgdir) ∧
      ∀ (memory : Memory) (pgdir oldsz newsz : Nat), oldsz ≤ 0x80000000 →
        deallocuvm pgdir oldsz newsz memory ≠ .error .endless := by
  refine ⟨?_, fun memory pgdir oldsz newsz small => ?_⟩
  · have soundMore : Sound memory (memory.uses pgdir + 0) := by rwa [add_zero]
    obtain ⟨size, next, runs, ⟨rfl, allocates⟩ | ⟨rfl, restores, -⟩⟩ :=
      (ensures_allocuvm soundMore small ordered absent).returns
    · obtain ⟨size, last, removes, rfl, shrinks⟩ :=
        (ensures_deallocuvm oldsz (soundMore.moves_add allocates.moves) small.le).returns
      rw [min_eq_right ordered] at removes
      have undone := allocates.undo shrinks ⟨le_rfl, by unfold pages; omega⟩ absent rfl rfl
        fun _ _ _ _ => rfl
      exact .inl ⟨next, runs, allocates.refusals, allocates.mapsFresh sound small, last, removes,
        givesBack sound (allocates.moves.trans shrinks.moves) undone.1⟩
    · exact .inr ⟨next, runs, restores.refusals, givesBack sound restores.moves restores.entry⟩
  · exact fun isEndless => (deallocuvm_ends memory pgdir newsz small).stopped isEndless rfl

/-- A directory that maps nothing, and all other pages are free. -/
def emptyDirectory : Memory where
  word := fun _ _ => 0
  freelist := List.range' 2 0xDFFE
  failures := []
  refusals := 0
  bottom := 1
  data := 0x200

theorem sound_emptyDirectory : Sound emptyDirectory (emptyDirectory.uses 1) := by
  rw [(views_of_empty rfl).2.2]
  have isCount : ∀ page, emptyDirectory.freelist.count page + one 1 page =
      if 1 ≤ page ∧ page < 0xE000 then 1 else 0 := by
    intro page
    have nodup : (List.range' 2 0xDFFE).Nodup := List.nodup_range'
    rw [emptyDirectory, nodup.count, one]
    simp only [List.mem_range'_1]
    split_ifs <;> omega
  refine ⟨fun page => ?_, fun page isUsed => ?_, Nat.one_pos, by decide⟩
  · rw [isCount]
    split <;> omega
  · grind [emptyDirectory]

theorem allocuvm_inverse_two_pages : ∃ next,
    allocuvm 1 0 4097 emptyDirectory = .ok (4097, next) ∧
      MapsFresh emptyDirectory next 1 0 4097 := by
  have isSize : (allocuvm 1 0 4097 emptyDirectory).map Prod.fst = .ok 4097 := rfl
  obtain ⟨⟨next, runs, -, fresh, -⟩ | ⟨next, runs, -⟩, -⟩ := allocuvm_inverse sound_emptyDirectory
    (fun va _ _ => congrFun (views_of_empty rfl).2.1 va) (Nat.zero_le 4097) (by decide)
  · exact ⟨next, runs, fresh⟩
  · rw [runs] at isSize
    cases isSize

end Vm

end Xv6
