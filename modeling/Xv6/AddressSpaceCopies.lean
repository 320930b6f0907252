import Xv6.KernelMappings

/-!
# Copies of an address space

`copyuvm` makes a directory and copies the user pages of a parent into it one after
the other.  The child gets pages of its own with the parent's flags and contents, or
everything is given back.
-/

namespace Xv6

namespace Vm

open Memory

variable {allowed : Stop → Prop} {memory next last : Memory} {pgdir d page va sz hi : Nat}
  {rest : Nat → Nat}

/-- The pages below `hi` are copied into the directory `d`. -/
structure Copies (memory next : Memory) (pgdir d hi : Nat) : Prop where
  moves : Moves memory next (memory.uses d) (next.uses d)
  copied : ∀ va < hi, ∃ entry page, memory.entry pgdir va = some entry ∧
    page ∈ memory.freelist ∧ next.entry d va = some (4096 * page + entry % 4096) ∧
      next.word page = memory.word (entry / 4096)
  others : ∀ va, hi ≤ va → next.entry d va = memory.entry d va
  taken : ∀ page ∈ next.freelist, page ∈ memory.freelist
  refusals : next.refusals = memory.refusals

theorem Copies.refl (memory : Memory) (pgdir d : Nat) : Copies memory memory pgdir d 0 :=
  ⟨.refl memory _, fun va isSmall => absurd isSmall (Nat.not_lt_zero va), fun _ _ => rfl,
    fun _ => id, rfl⟩

theorem Copies.succ {entry : Nat} (copies : Copies memory next pgdir d va) (isUser : va < 0x80000)
    (sound : Sound memory (memory.uses d + (memory.uses pgdir + rest)))
    (isEntry : memory.entry pgdir va = some entry)
    (adds : AddsPage next last d va page (entry % 4096) (next.word (entry / 4096))) :
    Copies memory last pgdir d (va + 1) := by
  have isFrame : memory.frame pgdir va = some (entry / 4096) := by
    rw [frame, isEntry, Option.map_some]
  have isUsed := memory.uses_ge pgdir (entry / 4096) isUser
  rw [isFrame, weight_some, one_self] at isUsed
  refine ⟨copies.moves.trans adds.moves, fun other below => ?_, fun other above => ?_,
    fun other isFree => copies.taken other (adds.taken other isFree),
    adds.refusals.trans copies.refusals⟩
  · by_cases isVa : other = va
    · refine ⟨entry, page, isVa ▸ isEntry, copies.taken page adds.isFree, ?_, ?_⟩
      · rw [adds.entry, isVa, Function.update_self]
      · rw [adds.word, copies.moves.untouched sound (by omega)]
    · obtain ⟨source, found, isSource, isFree, isCopy, isSame⟩ := copies.copied other (by omega)
      refine ⟨source, found, isSource, isFree, ?_, ?_⟩
      · rw [adds.entry, Function.update_of_ne isVa, isCopy]
      · rw [adds.kept other found (by omega), isSame]
        rw [frame, isCopy, Option.map_some]
        congr 1
        omega
  · rw [adds.entry, Function.update_of_ne (by omega), copies.others other (by omega)]

/-- The free pages have run out, and the copy holds at most one page besides its own. -/
theorem Copies.short {current : Memory} {after : Nat → Nat} (held : Nat)
    (copies : Copies memory current pgdir d va) (sound : Sound memory (memory.uses d + rest))
    (empty : ∀ va < 0x80000, memory.entry d va = none) (below : va ≤ hi)
    (moves : Moves current next (current.uses d) after)
    (noMore : current.failures = [] → next.freelist = [])
    (isOwner : ∀ page, 1 ≤ after page → page = held ∨ 1 ≤ next.uses d page)
    (sameEntry : next.entry d = current.entry d) : Short memory hi := by
  intro isNil
  refine sound.free_le_of_nil d held (copies.moves.trans moves)
    (noMore (copies.moves.failures isNil)) isOwner fun other above isUser => ?_
  rw [sameEntry, copies.others other (by omega), empty other isUser]

theorem Copies.refused {current : Memory} (copies : Copies memory current pgdir d va)
    (sound : Sound memory (memory.uses d + rest))
    (empty : ∀ va < 0x80000, memory.entry d va = none) (below : va ≤ hi)
    (refuses : Refuses current next) : LeavesPages memory next d ∧ Short memory hi := by
  have views := refuses.views
  have sameUses := uses_congr (congrFun views.2.1 d) (congrFun views.2.2 d)
  refine ⟨(refuses.stopsMapping d).leaves.after copies.moves copies.refusals, ?_⟩
  exact copies.short d sound empty below (refuses.moves _)
    (fun isNil => (refuses.failures isNil).2) (fun _ isUsed => .inr (sameUses ▸ isUsed))
    (congrFun views.2.2 d)

/-- The page that was taken could not be mapped, and is freed. -/
theorem Copies.unmapped {current taken : Memory} {words : Nat → Nat}
    (copies : Copies memory current pgdir d va) (sound : Sound memory (memory.uses d + rest))
    (empty : ∀ va < 0x80000, memory.entry d va = none) (below : va ≤ hi)
    (takes : Takes current taken page words) (refuses : Refuses taken next) :
    LeavesPages memory (next.release page) d ∧ Short memory hi := by
  have soundCurrent := sound.moves_add copies.moves
  have views := refuses.views
  have sameUses := uses_congr (congrFun views.2.1 d) (congrFun views.2.2 d)
  have refused := (takes.moves_uses soundCurrent).trans (refuses.moves (taken.uses d + one page))
  rw [← sameUses] at refused
  obtain ⟨-, -, freed⟩ := (soundCurrent.moves_add refused).release_held
  refine ⟨LeavesPages.after ⟨refused.trans freed, ?_⟩ copies.moves copies.refusals,
    copies.short page sound empty below refused
      (fun isNil => (refuses.failures (takes.moves.failures isNil)).2) (fun other isUsed => ?_)
      ((congrFun views.2.2 d).trans (takes.views soundCurrent).2)⟩
  · have isReleased : (next.release page).refusals = next.refusals := rfl
    rw [isReleased, refuses.refusals, takes.refusals]
    exact Nat.lt_succ_self _
  · by_cases isPage : page = other
    · exact .inl isPage.symm
    · rw [Pi.add_apply, one_of_ne isPage] at isUsed
      exact .inr isUsed

theorem ensures_copyLoop (small : sz ≤ 0x80000000)
    (sound : Sound memory (memory.uses d + (memory.uses pgdir + rest)))
    (present : ∀ va < pages sz, memory.entry pgdir va = none → allowed .panic)
    (empty : ∀ va < 0x80000, memory.entry d va = none) (rounds : Nat) :
    ∀ (current : Memory) (va : Nat), Copies memory current pgdir d va → va ≤ pages sz →
      pages sz < rounds + va →
      EnsuresOr allowed (copyLoop pgdir d sz rounds va) current fun ok next =>
        (ok = true ∧ Copies memory next pgdir d (pages sz)) ∨
          (ok = false ∧ LeavesPages memory next d ∧ Short memory (pages sz)) := by
  induction rounds with
  | zero =>
    intro current va _ below enough
    omega
  | succ rounds ih =>
    intro current va copies below enough
    have soundCurrent := sound.moves_add copies.moves
    refine ensures_ite (fun inside => ?_) fun outside => ensures_pure (.inl ⟨rfl, ?_⟩)
    · have isBelow : va < pages sz := by
        unfold pages
        omega
      have isUser : va < 0x80000 := by omega
      have isSame := congrFun (copies.moves.views sound).2 va
      refine ensures_walkpgdir_bind (by omega) (fun noTable => ?_) fun pgtab isTable => ?_
      · grind [entry_of_no_table, ensures_throw]
      · rw [entry_of_table isTable] at isSame
        generalize isWord : current.word pgtab (va % 1024) = entry at isSame
        refine ensures_get_bind (ensures_ite (fun isPresent => ?_) fun absent => ?_)
        swap
        · rw [isWord] at absent
          rw [mapping, if_neg absent] at isSame
          exact ensures_throw (present va isBelow isSame.symm)
        rw [isWord] at isPresent ⊢
        have isEntry : memory.entry pgdir va = some entry := by
          rw [← isSame, mapping, if_pos isPresent]
        refine ensures_kalloc_bind (fun next refuses => ensures_pure (.inr ⟨rfl, ?_⟩))
          fun page freelist failures isFree noFailures => ensures_modify_bind ?_
        · exact copies.refused sound empty below refuses
        · have taken := takes isFree noFailures (current.word (entry / 4096))
          rw [show (current.take failures freelist).word = current.word from rfl]
          generalize (current.take failures freelist).setPage page
            (current.word (entry / 4096)) = next at taken ⊢
          have free : current.entry d va = none := by
            rw [copies.others va le_rfl, empty va isUser]
          have soundNext := soundCurrent.moves_add (taken.moves_uses soundCurrent)
          rw [add_assoc] at soundNext
          have isFlags : entry % 4096 ||| 1 = entry % 4096 :=
            or_one_of_present (by unfold Present at isPresent ⊢; omega)
          refine ensures_bind (ensures_mappages_succ soundNext (by omega)
            ((congrFun (taken.views soundCurrent).2 va).trans free) (by omega)
            (fun last refuses => ?_) fun last isExtended => ensures_pure ?_)
          · refine ensures_ite (fun isTrue => absurd isTrue Bool.false_ne_true) fun _ => ?_
            have soundRefused := soundNext.refuses refuses
            refine ensures_kfree_bind soundRefused ?_ (ensures_pure (.inr ⟨rfl, ?_⟩))
            · simp_all
            · exact copies.unmapped sound empty below taken refuses
          · rw [isFlags] at isExtended
            have adds := taken.addsPage soundCurrent isUser free (by omega) isExtended
            refine ensures_ite (fun _ => ?_) fun isFalse => absurd rfl isFalse
            rw [show (va + 1) % 0x100000 = va + 1 by omega]
            exact ih last (va + 1) (copies.succ isUser sound isEntry adds) isBelow (by omega)
    · grind [pages]

/-- The directory `d` is a copy of the user pages below a size. -/
structure CopyOf (memory next : Memory) (pgdir d sz : Nat) : Prop where
  moves : Moves memory next 0 (next.uses d)
  copied : ∀ va < pages sz, ∃ entry page, memory.entry pgdir va = some entry ∧
    page ∈ memory.freelist ∧ next.entry d va = some (4096 * page + entry % 4096) ∧
      next.word page = memory.word (entry / 4096)
  others : ∀ va, pages sz ≤ va → next.entry d va = kernelEntry memory.data va
  refusals : next.refusals = memory.refusals

theorem NewDirectory.copyOf (sound : Sound memory (memory.uses pgdir + rest))
    (isNew : NewDirectory memory next d) (copies : Copies next last pgdir d (pages sz))
    (small : sz ≤ 0x80000000) : CopyOf memory last pgdir d sz := by
  have soundMore : Sound memory (0 + (memory.uses pgdir + rest)) := by rwa [zero_add]
  refine ⟨isNew.moves.trans copies.moves, fun va below => ?_, fun va above => ?_,
    copies.refusals.trans isNew.refusals⟩
  · obtain ⟨entry, page, isEntry, isFree, isCopy, isSame⟩ := copies.copied va below
    rw [(isNew.moves.views soundMore).2] at isEntry
    have isUser : va < 0x80000 := by
      unfold pages at below
      omega
    have isUsed := memory.uses_ge pgdir (entry / 4096) isUser
    rw [frame, isEntry, Option.map_some, weight_some, one_self] at isUsed
    refine ⟨entry, page, isEntry, List.count_pos_iff.mp ?_, isCopy, ?_⟩
    · have conserved := isNew.moves.conserved page
      have := List.count_pos_iff.mpr isFree
      simp only [Pi.zero_apply] at conserved
      omega
    · rw [isSame, isNew.moves.untouched soundMore (by omega)]
  · rw [copies.others va above, isNew.entry]

/-- `copyuvm` makes a copy, or gives back what it took. -/
theorem ensures_copyuvm (sound : Sound memory (memory.uses pgdir + rest))
    (small : sz ≤ 0x80000000)
    (present : ∀ va < pages sz, memory.entry pgdir va = none → allowed .panic) :
    EnsuresOr allowed (copyuvm pgdir sz) memory fun found next =>
      (∃ d, found = some d ∧ CopyOf memory next pgdir d sz) ∨
        (found = none ∧ Moves memory next 0 0 ∧ memory.refusals < next.refusals ∧
          Short memory (1026 + pages sz)) := by
  have soundMore : Sound memory (0 + (memory.uses pgdir + rest)) := by rwa [zero_add]
  refine (ensures_setupkvm sound).bind ?_
  rintro found next (⟨d, rfl, isNew⟩ | ⟨rfl, failed⟩)
  · have views := isNew.moves.views soundMore
    have soundNext := soundMore.moves_add isNew.moves
    rw [← uses_congr views.1 views.2] at soundNext
    refine (ensures_copyLoop small soundNext (fun va below isNone => ?_) (fun va isUser => ?_)
      0x100001 next 0 (.refl next pgdir d) (Nat.zero_le _) (by unfold pages; omega)).bind ?_
    · exact present va below (congrFun views.2 va ▸ isNone)
    · rw [isNew.entry, kernelEntry_user sound.data isUser]
    · rintro ok last (⟨rfl, copies⟩ | ⟨rfl, leaves, isShort⟩)
      · exact ensures_pure (.inl ⟨d, rfl, isNew.copyOf sound copies small⟩)
      · refine (ensures_freevm (soundNext.moves_add leaves.1)).bind fun _ final frees =>
          ensures_pure (.inr ⟨rfl, (isNew.moves.trans leaves.1).trans frees.1, ?_, fun isNil => ?_⟩)
        · rw [frees.2, ← isNew.refusals]
          exact leaves.2
        · have few := isShort (isNew.moves.failures isNil)
          have taken := isNew.free_le sound
          omega
  · refine ensures_pure (.inr ⟨rfl, failed.1, failed.2.1, fun isNil => ?_⟩)
    have few := failed.2.2 isNil
    omega

end Vm

end Xv6
