import Mathlib.Data.List.Basic
import Mathlib.Logic.Function.Basic

/-!
# Ownership of numbered resources

Resources are numbered; those below `low` are reserved and those up to `high`
are handed out.  A table says which resource each key holds, and zero means
none.  `Owned` says that a resource is marked as used exactly when a key holds
it, and that no two keys hold the same one.  Giving a fresh resource to a key
that holds none, and taking a resource back from its key, keep this.
-/

namespace Xv6

namespace OwnershipTable

open Function (update update_of_ne update_self)

variable {Key : Type*}

/-- The marks in `used` agree with the table `ref`. -/
structure Owned (low high : Nat) (used : Nat → Prop) (ref : Key → Nat) : Prop where
  reserved : ∀ resource < low, used resource
  inside : ∀ key, ref key ≠ 0 → low ≤ ref key ∧ ref key < high
  unique : ∀ first second, ref first ≠ 0 → ref first = ref second → first = second
  held : ∀ resource, low ≤ resource → resource < high →
    (used resource ↔ ∃ key, ref key = resource)

variable {low high : Nat} {used used' : Nat → Prop} {ref ref' : Key → Nat}

theorem Owned.congr (owned : Owned low high used ref)
    (sameUsed : ∀ resource < high, used' resource ↔ used resource)
    (lowest : low ≤ high) (sameRef : ref' = ref) : Owned low high used' ref' := by
  subst sameRef
  refine ⟨fun resource below => ?_, owned.inside, owned.unique, fun resource above below => ?_⟩
  · exact (sameUsed resource (by omega)).mpr (owned.reserved resource below)
  · exact (sameUsed resource below).trans (owned.held resource above below)

theorem Owned.used_ref (owned : Owned low high used ref) {key : Key} (holds : ref key ≠ 0) :
    used (ref key) := by
  obtain ⟨above, below⟩ := owned.inside key holds
  exact (owned.held (ref key) above below).mpr ⟨key, rfl⟩

theorem Owned.of_not_used (owned : Owned low high used ref) {resource : Nat}
    (free : ¬ used resource) : low ≤ resource ∧ ∀ key, ref key ≠ 0 → ref key ≠ resource := by
  refine ⟨?_, ?_⟩
  · by_contra below
    exact free (owned.reserved resource (by omega))
  · rintro key holds rfl
    exact free (owned.used_ref holds)

variable [DecidableEq Key]

theorem Owned.assign (owned : Owned low high used ref) (positive : 0 < low) {key : Key}
    {resource : Nat} (free : ¬ used resource) (below : resource < high) (none : ref key = 0)
    (sameUsed : ∀ other < high, used' other ↔ other = resource ∨ used other)
    (sameRef : ref' = update ref key resource) : Owned low high used' ref' := by
  subst sameRef
  obtain ⟨above, fresh⟩ := owned.of_not_used free
  constructor
  · intro other otherBelow
    exact (sameUsed other (by omega)).mpr (Or.inr (owned.reserved other otherBelow))
  · intro other holds
    by_cases same : other = key
    · grind
    · rw [update_of_ne same] at holds ⊢
      exact owned.inside other holds
  · intro first second holds equal
    by_cases firstSame : first = key <;> by_cases secondSame : second = key
    · rw [firstSame, secondSame]
    · grind
    · grind
    · rw [update_of_ne firstSame] at holds equal
      rw [update_of_ne secondSame] at equal
      exact owned.unique first second holds equal
  · intro other otherAbove otherBelow
    rw [sameUsed other otherBelow, owned.held other otherAbove otherBelow]
    constructor
    · rintro (rfl | ⟨holder, rfl⟩)
      · exact ⟨key, update_self _ _ _⟩
      · refine ⟨holder, update_of_ne ?_ _ _⟩
        rintro rfl
        omega
    · grind

theorem Owned.release (owned : Owned low high used ref) (positive : 0 < low) {key : Key}
    (holds : ref key ≠ 0)
    (sameUsed : ∀ other < high, used' other ↔ other ≠ ref key ∧ used other)
    (sameRef : ref' = update ref key 0) : Owned low high used' ref' := by
  subst sameRef
  obtain ⟨above, below⟩ := owned.inside key holds
  constructor
  · intro other otherBelow
    exact (sameUsed other (by omega)).mpr ⟨by omega, owned.reserved other otherBelow⟩
  · intro other otherHolds
    by_cases same : other = key
    · grind
    · rw [update_of_ne same] at otherHolds ⊢
      exact owned.inside other otherHolds
  · intro first second firstHolds equal
    have firstOther : first ≠ key := by
      grind
    have secondOther : second ≠ key := by
      grind
    rw [update_of_ne firstOther] at firstHolds equal
    rw [update_of_ne secondOther] at equal
    exact owned.unique first second firstHolds equal
  · intro other otherAbove otherBelow
    rw [sameUsed other otherBelow, owned.held other otherAbove otherBelow]
    constructor
    · rintro ⟨different, holder, rfl⟩
      refine ⟨holder, update_of_ne ?_ _ _⟩
      rintro rfl
      exact different rfl
    · rintro ⟨holder, same⟩
      have notKey : holder ≠ key := by
        grind
      rw [update_of_ne notKey] at same
      refine ⟨?_, holder, same⟩
      rintro rfl
      exact notKey (owned.unique holder key (by omega) same)

end OwnershipTable

end Xv6
