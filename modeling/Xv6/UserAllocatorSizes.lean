import Xv6.UserAllocator

/-!
# The sizes that the allocator computes

`malloc` rounds a number of bytes up to units, adds one for the header, and asks
`sbrk` for a number of bytes that is converted to an `int`.  The arithmetic is exact
up to the last number of bytes for which that `int` is positive.
-/

namespace Xv6

namespace Umalloc

namespace State

variable {state next : State} {base bp grant nbytes need fuel prevp p : Nat} {n : Int}
  {result : Option Nat × State}

/-! ## What the calls leave alone -/

@[simp]
theorem joinNext_calls : (state.joinNext bp p).calls = state.calls := by
  unfold joinNext
  split <;> rfl

@[simp]
theorem joinPrevious_calls : (state.joinPrevious bp p).calls = state.calls := by
  unfold joinPrevious
  split <;> rfl

@[simp]
theorem joinNext_brk : (state.joinNext bp p).brk = state.brk := by
  unfold joinNext
  split <;> rfl

@[simp]
theorem joinPrevious_brk : (state.joinPrevious bp p).brk = state.brk := by
  unfold joinPrevious
  split <;> rfl

theorem freeBlock_calls (freed : state.freeBlock bp = some next) :
    next.calls = state.calls ∧ next.brk = state.brk := by
  obtain ⟨start, -, freed⟩ := Option.bind_eq_some_iff.mp freed
  obtain ⟨p, -, rfl⟩ := Option.map_eq_some_iff.mp freed
  simp [setFreep]

theorem take_calls : (state.take need prevp p).2.calls = state.calls ∧
    (state.take need prevp p).2.brk = state.brk := by
  unfold take
  split <;> exact ⟨rfl, rfl⟩

theorem start_calls : (state.start base).calls = state.calls ∧
    (state.start base).brk = state.brk := by
  unfold start
  split <;> exact ⟨rfl, rfl⟩

/-! ## The calls of `sbrk` -/

/-- The calls between two states pass one amount, and do not shrink the heap if it
is not negative. -/
structure Asks (n : Int) (state next : State) : Prop where
  calls : ∃ new, next.calls = new ++ state.calls ∧ ∀ call ∈ new, call.1 = n
  brk : 0 ≤ n → state.brk ≤ next.brk

theorem Asks.of_same (calls : next.calls = state.calls) (brk : next.brk = state.brk) :
    Asks n state next :=
  ⟨⟨[], calls, by simp⟩, fun _ => brk.ge⟩

theorem Asks.trans {last : State} (asks : Asks n state next) (more : Asks n next last) :
    Asks n state last := by
  obtain ⟨first, firstCalls, firstAll⟩ := asks.calls
  obtain ⟨second, secondCalls, secondAll⟩ := more.calls
  refine ⟨⟨second ++ first, ?_, ?_⟩, fun nonneg => (asks.brk nonneg).trans (more.brk nonneg)⟩
  · rw [secondCalls, firstCalls, List.append_assoc]
  · grind

theorem sbrk_asks : Asks n state (state.sbrk grant n).2 := by
  unfold sbrk
  dsimp only
  split
  · exact ⟨⟨[(n, none)], rfl, by simp⟩, fun _ => le_rfl⟩
  · refine ⟨⟨[(n, some _)], rfl, by simp⟩, fun nonneg => ?_⟩
    simp only [record]
    split <;> omega

theorem morecore_asks (returns : state.morecore grant need = some result) :
    Asks (amount need) state result.2 := by
  have asked : Asks (amount need) state (state.sbrk grant (amount need)).2 := sbrk_asks
  unfold morecore at returns
  split at returns
  next failed =>
      cases returns
      rwa [failed] at asked
  next p granted allowed =>
      obtain ⟨freed, isFree, rfl⟩ := Option.map_eq_some_iff.mp returns
      rw [allowed] at asked
      obtain ⟨sameCalls, sameBrk⟩ := freeBlock_calls isFree
      exact asked.trans (Asks.of_same sameCalls sameBrk)

/-! ## The block that `malloc` returns -/

/-- A pointer comes after the header of a block of a number of units. -/
def HasUnits (state : State) (units ap : Nat) : Prop :=
  ∃ p, ap = plus p 1 ∧ state.size p = units

theorem take_hasUnits {ap : Nat} (returns : (state.take need prevp p).1 = some ap) :
    (state.take need prevp p).2.HasUnits need ap := by
  unfold take at returns ⊢
  split at returns
  next exact =>
      refine ⟨p, (Option.some.inj returns).symm, ?_⟩
      by_cases same : p = prevp <;>
        simp [setFreep, setPtr, setHeader, size, same, ← exact]
  next larger =>
      rw [if_neg larger]
      refine ⟨_, (Option.some.inj returns).symm, ?_⟩
      simp [setFreep, setSize, setHeader, size]

theorem mallocLoop_asks (returns : mallocLoop grant need fuel state prevp p = some result) :
    Asks (amount need) state result.2 ∧
      ∀ ap, result.1 = some ap → result.2.HasUnits need ap := by
  induction fuel generalizing state prevp p with
  | zero => exact absurd returns (by simp [mallocLoop])
  | succ fuel ih =>
    rw [mallocLoop] at returns
    split at returns
    · cases returns
      exact ⟨Asks.of_same take_calls.1 take_calls.2, fun ap => take_hasUnits⟩
    · split at returns
      · obtain ⟨core, isCore, returns⟩ := Option.bind_eq_some_iff.mp returns
        have asked := morecore_asks isCore
        obtain ⟨cell, next⟩ := core
        cases cell with
        | none =>
          grind
        | some cell =>
          obtain ⟨askedMore, units⟩ := ih returns
          exact ⟨asked.trans askedMore, units⟩
      · exact ih returns

theorem malloc_asks (returns : state.malloc base nbytes grant = some result) :
    Asks (amount (nunits nbytes)) state result.2 ∧
      ∀ ap, result.1 = some ap → result.2.HasUnits (nunits nbytes) ap := by
  obtain ⟨prevp, -, returns⟩ := Option.bind_eq_some_iff.mp returns
  obtain ⟨asked, units⟩ := mallocLoop_asks returns
  exact ⟨(Asks.of_same start_calls.1 start_calls.2).trans asked, units⟩

/-! ## The bounds of the arithmetic -/

/-- The last number of bytes for which the amount is a positive `int`. -/
abbrev maxBytes : Nat := 2 ^ 31 - 16

theorem le_unit_mul_nunits (small : nbytes ≤ maxBytes) : nbytes ≤ 8 * (nunits nbytes - 1) := by
  unfold nunits
  unfold maxBytes at small
  omega

theorem amount_eq (small : nbytes ≤ maxBytes) :
    amount (nunits nbytes) = 8 * coreUnits (nunits nbytes) := by
  unfold amount toInt coreUnits nunits
  unfold maxBytes at small
  split <;> split <;> omega

theorem coreUnits_pos : 0 < coreUnits need := by
  unfold coreUnits
  split <;> omega

theorem amount_pos (small : nbytes ≤ maxBytes) : 0 < amount (nunits nbytes) := by
  have units : 0 < coreUnits (nunits nbytes) := coreUnits_pos
  rw [amount_eq small]
  omega

theorem amount_not_exact (word : nbytes < 2 ^ 32) (large : maxBytes < nbytes)
    (room : nbytes ≤ 8 * (nunits nbytes - 1)) : amount (nunits nbytes) ≤ 0 := by
  unfold nunits at room
  unfold maxBytes at large
  unfold amount toInt coreUnits nunits
  split <;> split <;> omega

end State

open State

/-- What the arithmetic of `malloc` promises about a number of bytes. -/
structure SizesExact (nbytes : Nat) : Prop where
  room : nbytes ≤ 8 * (nunits nbytes - 1)
  positive : 0 < amount (nunits nbytes)
  noOverflow : amount (nunits nbytes) = 8 * coreUnits (nunits nbytes)
  calls : ∀ base grant state result, State.malloc state base nbytes grant = some result →
    ∃ new, result.2.calls = new ++ state.calls ∧
      ∀ call ∈ new, call.1 = 8 * coreUnits (nunits nbytes)
  usable : ∀ base grant state result ap, State.malloc state base nbytes grant = some result →
    result.1 = some ap → ∃ p, ap = plus p 1 ∧ nbytes ≤ 8 * (result.2.size p - 1)
  grows : ∀ base grant state result, State.malloc state base nbytes grant = some result →
    state.brk ≤ result.2.brk

/-- The arithmetic of `malloc` is exact up to 2 GB less two headers, and not beyond. -/
theorem sizesExact_iff (nbytes : Nat) (word : nbytes < 2 ^ 32) :
    SizesExact nbytes ↔ nbytes ≤ maxBytes := by
  constructor
  · intro exact
    by_contra large
    exact absurd exact.positive (not_lt.mpr
      (amount_not_exact word (not_le.mp large) exact.room))
  · intro small
    refine ⟨le_unit_mul_nunits small, amount_pos small, amount_eq small, ?_, ?_, ?_⟩
    · intro base grant state result returns
      rw [← amount_eq small]
      exact (malloc_asks returns).1.calls
    · intro base grant state result ap returns isResult
      obtain ⟨p, isPointer, size⟩ := (malloc_asks returns).2 ap isResult
      refine ⟨p, isPointer, ?_⟩
      rw [size]
      exact le_unit_mul_nunits small
    · intro base grant state result returns
      exact (malloc_asks returns).1.brk (amount_pos small).le

/-- A hundred bytes are below the bound. -/
theorem sizesExact_hundred : SizesExact 100 :=
  (sizesExact_iff 100 (by decide)).mpr (by decide)

/-- For almost 4 GB `malloc` asks `sbrk` for a negative number of bytes, the heap of three
pages shrinks, and the pointer is past its end. -/
theorem malloc_shrinks_heap : ¬ SizesExact 4294967280 ∧
    (((State.initial 12288).malloc 4000 4294967280 1).map fun result =>
      (result.1, result.2.brk, result.2.calls)) =
        some (some 12296, 12280, [(-8, some 12288)]) := by
  refine ⟨fun exact => absurd exact.positive (by decide), ?_⟩
  decide +kernel

end Umalloc

end Xv6
