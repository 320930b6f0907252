import Mathlib.Algebra.Ring.Int.Defs
import Xv6.UserPages

/-!
# The size of a process

`growproc` adds a signed number of bytes to the size of a process, an unsigned
number, and takes 0 from `allocuvm` and `deallocuvm` as a failure.  It is exact but
for a request that takes away the whole memory of a process or more.
-/

namespace Xv6

namespace Vm

open Memory

structure Proc where
  pgdir : Nat
  sz : Nat
  deriving DecidableEq

def toWord (value : Int) : Nat :=
  (value % 0x100000000).toNat

/-- The end of `growproc`: 0 is a failure. -/
def Proc.resize (proc : Proc) (sz : Nat) : Int × Proc :=
  if sz = 0 then (-1, proc) else (0, ⟨proc.pgdir, sz⟩)

/-- `growproc`: what it returns, and the process after it. -/
def growproc (proc : Proc) (n : Int) : Code (Int × Proc) :=
  if 0 < n then do
    let sz ← allocuvm proc.pgdir proc.sz (toWord (proc.sz + n))
    pure (proc.resize sz)
  else if n < 0 then do
    let sz ← deallocuvm proc.pgdir proc.sz (toWord (proc.sz + n))
    pure (proc.resize sz)
  else pure (0, proc)

variable {memory next : Memory} {proc after : Proc} {n : Int}

def MapsBelow (memory : Memory) (pgdir size : Nat) : Prop :=
  ∀ va < 0x80000, memory.entry pgdir va ≠ none ↔ va < pages size

/-- The size changed by `n`, with the contents kept and new pages zero. -/
structure Resized (proc after : Proc) (n : Int) (memory next : Memory) : Prop where
  size : (after.sz : Int) = proc.sz + n
  pgdir : after.pgdir = proc.pgdir
  mapped : MapsBelow next proc.pgdir after.sz
  kept : ∀ va < 0x80000, va < pages proc.sz → va < pages after.sz →
    next.entry proc.pgdir va = memory.entry proc.pgdir va ∧
      ∀ page, memory.frame proc.pgdir va = some page → next.word page = memory.word page
  zero : ∀ va, pages proc.sz ≤ va → va < pages after.sz →
    ∃ page, next.frame proc.pgdir va = some page ∧ ∀ index, next.word page index = 0

/-- The process and the contents of its memory are what they were. -/
structure Unchanged (proc after : Proc) (memory next : Memory) : Prop where
  same : after = proc
  mapped : ∀ va < 0x80000, next.entry proc.pgdir va = memory.entry proc.pgdir va
  kept : ∀ va page, va < 0x80000 → memory.frame proc.pgdir va = some page →
    next.word page = memory.word page

/-- `growproc` returns 0 and changes the size by `n`, or returns -1 without an effect. -/
def SbrkExact (proc : Proc) (n : Int) (memory : Memory) : Prop :=
  ∃ result after next, growproc proc n memory = .ok ((result, after), next) ∧
    ((result = 0 ∧ Resized proc after n memory next) ∨
      (result = -1 ∧ Unchanged proc after memory next))

theorem Unchanged.refl (proc : Proc) (memory : Memory) : Unchanged proc proc memory memory :=
  ⟨rfl, fun _ _ => rfl, fun _ _ _ _ => rfl⟩

theorem Resized.refl (mapped : MapsBelow memory proc.pgdir proc.sz) :
    Resized proc proc 0 memory memory :=
  ⟨(Int.add_zero _).symm, rfl, mapped, fun _ _ _ _ => ⟨rfl, fun _ _ => rfl⟩,
    fun va above below => by omega⟩

/-! ## More memory -/

theorem Restores.unchanged (restores : Restores memory next proc.pgdir) :
    Unchanged proc proc memory next :=
  ⟨rfl, fun va _ => congrFun restores.entry va, restores.kept⟩

theorem Allocates.resized {newsz : Nat} (ordered : proc.sz ≤ newsz)
    (mapped : MapsBelow memory proc.pgdir proc.sz)
    (allocates : Allocates memory next proc.pgdir (pages proc.sz) (pages newsz))
    (isSize : (newsz : Int) = proc.sz + n) :
    Resized proc ⟨proc.pgdir, newsz⟩ n memory next := by
  have isOrdered : pages proc.sz ≤ pages newsz :=
    Nat.div_le_div_right (Nat.add_le_add_right ordered 4095)
  refine ⟨isSize, rfl, fun va isUser => ?_, fun va isUser below _ => ?_, fun va above below => ?_⟩
  · by_cases added : pages proc.sz ≤ va ∧ va < pages newsz
    · obtain ⟨page, -, isEntry, -⟩ := allocates.mapped va added.1 added.2
      rw [isEntry]
      exact iff_of_true (Option.some_ne_none _) added.2
    · rw [allocates.others va (by omega), mapped va isUser]
      dsimp only
      omega
  · exact ⟨allocates.others va (.inl below), fun page => allocates.kept va page isUser⟩
  · obtain ⟨page, -, isEntry, isZero⟩ := allocates.mapped va above below
    exact ⟨page, Allocates.frame_of_mapped isEntry, fun index => congrFun isZero index⟩

theorem sbrkExact_of_ensures (ensures : Ensures (growproc proc n) memory fun result next =>
      (result.1 = 0 ∧ Resized proc result.2 n memory next) ∨
        (result.1 = -1 ∧ Unchanged proc result.2 memory next)) : SbrkExact proc n memory := by
  obtain ⟨⟨result, after⟩, next, runs, exactly⟩ := ensures.returns
  exact ⟨result, after, next, runs, exactly⟩

theorem sbrkExact_of_pos (sound : Sound memory (memory.uses proc.pgdir))
    (small : proc.sz ≤ 0x80000000) (mapped : MapsBelow memory proc.pgdir proc.sz)
    (isInt : n < 0x80000000) (positive : 0 < n) : SbrkExact proc n memory := by
  refine sbrkExact_of_ensures (ensures_ite (fun _ => ensures_bind ?_) fun isNot => by omega)
  have isSize : (toWord (proc.sz + n) : Int) = proc.sz + n := by
    unfold toWord
    omega
  have soundMore : Sound memory (memory.uses proc.pgdir + 0) := by rwa [add_zero]
  by_cases tooLarge : 0x80000000 ≤ toWord (proc.sz + n)
  · refine ensures_ite (fun _ => ensures_pure (ensures_pure
      (.inr ⟨rfl, Unchanged.refl proc memory⟩))) fun isNot => absurd tooLarge isNot
  · refine (ensures_allocuvm soundMore (by omega) (by omega) fun va above isUser => ?_).mono ?_
    · by_contra isMapped
      have := (mapped va isUser).mp isMapped
      omega
    · rintro size next (⟨rfl, allocates⟩ | ⟨rfl, restores, -⟩)
      · refine ensures_pure (.inl ?_)
        rw [Proc.resize, if_neg (by omega)]
        exact ⟨rfl, allocates.resized (by omega) mapped isSize⟩
      · exact ensures_pure (.inr ⟨rfl, restores.unchanged⟩)

/-! ## Less memory -/

theorem Shrinks.resized {newsz : Nat} (ordered : newsz ≤ proc.sz)
    (mapped : MapsBelow memory proc.pgdir proc.sz)
    (shrinks : Shrinks memory next proc.pgdir (pages newsz) (pages proc.sz))
    (isSize : (newsz : Int) = proc.sz + n) :
    Resized proc ⟨proc.pgdir, newsz⟩ n memory next := by
  have isOrdered : pages newsz ≤ pages proc.sz :=
    Nat.div_le_div_right (Nat.add_le_add_right ordered 4095)
  refine ⟨isSize, rfl, fun va isUser => ?_, fun va isUser _ below => ?_, fun va above below => ?_⟩
  · by_cases removed : pages newsz ≤ va ∧ va < pages proc.sz
    · rw [shrinks.removed va removed.1 removed.2]
      exact iff_of_false (fun isNone => isNone rfl) (by dsimp only; omega)
    · rw [shrinks.others va (by omega), mapped va isUser]
      dsimp only
      omega
  · have isEntry := shrinks.others va (.inl below)
    refine ⟨isEntry, fun page isFrame => shrinks.kept va page isUser ?_⟩
    rw [frame, isEntry, ← frame, isFrame]
  · dsimp only at below
    omega

theorem sbrkExact_of_remaining (sound : Sound memory (memory.uses proc.pgdir))
    (small : proc.sz ≤ 0x80000000) (mapped : MapsBelow memory proc.pgdir proc.sz)
    (negative : n < 0) (remains : 0 < proc.sz + n) : SbrkExact proc n memory := by
  refine sbrkExact_of_ensures (ensures_ite (fun isNot => by omega) fun _ =>
    ensures_ite (fun _ => ?_) fun isNot => by omega)
  have isSize : (toWord (proc.sz + n) : Int) = proc.sz + n := by
    unfold toWord
    omega
  have soundMore : Sound memory (memory.uses proc.pgdir + 0) := by rwa [add_zero]
  refine (ensures_deallocuvm (toWord (proc.sz + n)) soundMore small).bind ?_
  rintro size next ⟨rfl, shrinks⟩
  refine ensures_pure (.inl ?_)
  rw [min_eq_right (by omega), Proc.resize, if_neg (by omega)]
  exact ⟨rfl, shrinks.resized (by omega) mapped isSize⟩

theorem sbrkExact_of_empty (isEmpty : proc.sz = 0) (negative : n < 0) :
    SbrkExact proc n memory := by
  refine sbrkExact_of_ensures (ensures_ite (fun isNot => by omega) fun _ =>
    ensures_ite (fun _ => ensures_bind ?_) fun isNot => by omega)
  refine ensures_ite (fun _ => ensures_pure (ensures_pure ?_)) fun isNot => by omega
  rw [Proc.resize, if_pos isEmpty]
  exact .inr ⟨rfl, Unchanged.refl proc memory⟩

/-- Taking away all memory frees it and fails, and taking away more succeeds without
an effect. -/
theorem ensures_growproc_nothing (sound : Sound memory (memory.uses proc.pgdir))
    (small : proc.sz ≤ 0x80000000) (isInt : -0x80000000 ≤ n) (negative : n < 0)
    (nothing : proc.sz + n ≤ 0) (isSized : 0 < proc.sz) :
    Ensures (growproc proc n) memory fun result next =>
      (proc.sz + n = 0 ∧ result = (-1, proc) ∧ next.entry proc.pgdir 0 = none) ∨
        (proc.sz + n < 0 ∧ result = (0, proc)) := by
  have soundMore : Sound memory (memory.uses proc.pgdir + 0) := by rwa [add_zero]
  refine ensures_ite (fun isNot => by omega) fun _ => ensures_ite (fun _ => ?_)
    fun isNot => by omega
  by_cases isZero : proc.sz + n = 0
  · refine (ensures_deallocuvm (toWord (proc.sz + n)) soundMore small).bind ?_
    rintro size next ⟨rfl, shrinks⟩
    rw [isZero, show toWord 0 = 0 from rfl] at shrinks ⊢
    rw [Nat.min_zero]
    refine ensures_pure (.inl ⟨rfl, rfl, shrinks.removed 0 (Nat.le_refl 0) ?_⟩)
    unfold pages
    omega
  · have isSize : proc.sz ≤ toWord (proc.sz + n) := by
      unfold toWord
      omega
    refine ensures_bind (ensures_ite (fun _ => ensures_pure (ensures_pure (.inr ?_)))
      fun isNot => absurd isSize isNot)
    rw [Proc.resize, if_neg (by omega)]
    exact ⟨by omega, rfl⟩

theorem not_sbrkExact (sound : Sound memory (memory.uses proc.pgdir))
    (small : proc.sz ≤ 0x80000000) (mapped : MapsBelow memory proc.pgdir proc.sz)
    (isInt : -0x80000000 ≤ n) (negative : n < 0) (nothing : proc.sz + n ≤ 0)
    (isSized : 0 < proc.sz) : ¬ SbrkExact proc n memory := by
  rintro ⟨result, after, next, runs, exactly⟩
  have isMapped : memory.entry proc.pgdir 0 ≠ none :=
    (mapped 0 (by decide)).mpr (by unfold pages; omega)
  rcases (ensures_growproc_nothing sound small isInt negative nothing isSized).result runs with
    ⟨-, isResult, isGone⟩ | ⟨isNegative, isResult⟩
  · cases isResult
    rcases exactly with ⟨isZero, -⟩ | ⟨-, unchanged⟩
    · omega
    · exact isMapped ((unchanged.mapped 0 (by decide)).symm.trans isGone)
  · cases isResult
    rcases exactly with ⟨-, resized⟩ | ⟨isFailure, -⟩
    · have isSize := resized.size
      omega
    · omega

/-- `sbrk` is exact or has no effect, except where it takes away the whole memory of a
process or more. -/
theorem sbrkExact_iff (sound : Sound memory (memory.uses proc.pgdir))
    (small : proc.sz ≤ 0x80000000) (mapped : MapsBelow memory proc.pgdir proc.sz)
    (isInt : -0x80000000 ≤ n ∧ n < 0x80000000) :
    SbrkExact proc n memory ↔ 0 ≤ n ∨ 0 < proc.sz + n ∨ proc.sz = 0 := by
  constructor
  · intro isExact
    by_contra isNot
    exact not_sbrkExact sound small mapped isInt.1 (by omega) (by omega) (by omega) isExact
  · intro condition
    by_cases positive : 0 < n
    · exact sbrkExact_of_pos sound small mapped isInt.2 positive
    · by_cases negative : n < 0
      · by_cases isEmpty : proc.sz = 0
        · exact sbrkExact_of_empty isEmpty negative
        · exact sbrkExact_of_remaining sound small mapped negative (by omega)
      · have isZero : n = 0 := by omega
        subst isZero
        exact ⟨0, proc, memory, rfl, .inl ⟨rfl, Resized.refl mapped⟩⟩

theorem mapsBelow_emptyDirectory : MapsBelow emptyDirectory 1 0 := by
  intro va _
  rw [(views_of_empty rfl).2.1]
  exact iff_of_false (fun isNone => isNone rfl) (Nat.not_lt_zero va)

/-- A process of one page, with plenty of free pages. -/
theorem exists_onePage : ∃ memory : Memory, Sound memory (memory.uses 1) ∧
    MapsBelow memory 1 4096 ∧ memory.failures = [] ∧ 50000 ≤ memory.freelist.length := by
  have soundMore : Sound emptyDirectory (emptyDirectory.uses 1 + 0) := sound_emptyDirectory
  have isSize : (allocuvm 1 0 4096 emptyDirectory).map Prod.fst = .ok 4096 := rfl
  obtain ⟨size, memory, runs, ⟨rfl, allocates⟩ | ⟨rfl, -⟩⟩ :=
    (ensures_allocuvm soundMore (by decide : 4096 < 0x80000000) (Nat.zero_le 4096)
      fun va _ _ => congrFun (views_of_empty rfl).2.1 va).returns
  · have resized := @Allocates.resized emptyDirectory memory ⟨1, 0⟩ 4096 4096 (Nat.zero_le 4096)
      mapsBelow_emptyDirectory allocates rfl
    have noneAbove : ∀ va, 1 ≤ va → va < 0x80000 → memory.entry 1 va = none := by
      intro va above isUser
      by_contra isMapped
      exact absurd ((resized.mapped va isUser).mp isMapped) (Nat.not_lt.mpr above)
    have few := soundMore.free_le 1 0 allocates.moves (fun _ => .inr) noneAbove
    rw [emptyDirectory, List.length_range'] at few
    exact ⟨memory, sound_emptyDirectory.moves allocates.moves, resized.mapped,
      allocates.moves.failures rfl, by omega⟩
  · rw [runs] at isSize
    cases isSize

/-- A process of one page asks for another, or gives back its last byte. -/
theorem sbrkExact_iff_one_page : ∃ memory : Memory, MapsBelow memory 1 4096 ∧
    SbrkExact ⟨1, 4096⟩ 4096 memory ∧ SbrkExact ⟨1, 4096⟩ (-1) memory := by
  obtain ⟨memory, sound, mapped, -⟩ := exists_onePage
  have small : 4096 ≤ 0x80000000 := by decide
  exact ⟨memory, mapped,
    (@sbrkExact_iff memory ⟨1, 4096⟩ 4096 sound small mapped (by decide)).mpr (by decide),
    (@sbrkExact_iff memory ⟨1, 4096⟩ (-1) sound small mapped (by decide)).mpr (by decide)⟩

/-- A process of one page that gives it back loses the page and is told that the call
failed. -/
theorem growproc_loses_page : ∃ (memory : Memory) (proc : Proc),
    Sound memory (memory.uses proc.pgdir) ∧ MapsBelow memory proc.pgdir proc.sz ∧
      proc.sz = 4096 ∧ (∃ next, growproc proc (-4096) memory = .ok ((-1, proc), next) ∧
        memory.entry proc.pgdir 0 ≠ none ∧ next.entry proc.pgdir 0 = none) ∧
      ¬ SbrkExact proc (-4096) memory := by
  obtain ⟨memory, sound, mapped, -⟩ := exists_onePage
  have inexact := @not_sbrkExact memory ⟨1, 4096⟩ (-4096) sound (by decide) mapped
    (by decide) (by decide) (by decide) (by decide)
  refine ⟨memory, ⟨1, 4096⟩, sound, mapped, rfl, ?_, inexact⟩
  obtain ⟨result, next, gives, ⟨-, rfl, isGone⟩ | ⟨isNegative, -⟩⟩ :=
    (@ensures_growproc_nothing memory ⟨1, 4096⟩ (-4096) sound (by decide) (by decide) (by decide)
      (by decide) (by decide)).returns
  · exact ⟨next, gives, (mapped 0 (by decide)).mpr (by decide), isGone⟩
  · exact absurd isNegative (by decide)

end Vm

end Xv6
