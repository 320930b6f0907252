import Mathlib.Data.List.Chain

/-!
# Circular singly linked lists

A ring is a list of cells in which every cell links to the one after it and the
last cell links to the first.  Where a ring starts does not matter, so a cell is
inserted or removed after the first one.
-/

namespace Xv6

namespace RingList

variable {α : Type*} {next next' : α → α} {cell new dead last : α}
  {cells front back rest : List α}

/-- Every cell links to its successor, and the last one to the first. -/
def IsRing (next : α → α) (cells : List α) : Prop :=
  (cells ++ cells.head?.toList).IsChain fun cell after => next cell = after

theorem isRing_cons_iff : IsRing next (cell :: rest) ↔
    (cell :: (rest ++ [cell])).IsChain fun cell after => next cell = after :=
  Iff.rfl

theorem isChain_concat_imp {R S : α → α → Prop} (implies : ∀ cell ∈ rest, ∀ after,
    R cell after → S cell after) (chain : (rest ++ [last]).IsChain R) :
    (rest ++ [last]).IsChain S := by
  induction rest with
  | nil => exact List.isChain_singleton last
  | cons cell rest ih =>
    grind [List.isChain_cons]

theorem isChain_concat_congr (same : ∀ cell ∈ rest, next' cell = next cell)
    (chain : (rest ++ [last]).IsChain fun cell after => next cell = after) :
    (rest ++ [last]).IsChain fun cell after => next' cell = after :=
  isChain_concat_imp (fun cell member _ linked => (same cell member).trans linked) chain

theorem IsRing.congr (ring : IsRing next cells) (same : ∀ cell ∈ cells, next' cell = next cell) :
    IsRing next' cells := by
  cases cells with
  | nil => exact List.isChain_nil
  | cons cell rest =>
    exact isChain_concat_congr same ring

theorem IsRing.rotate (ring : IsRing next (front ++ back)) : IsRing next (back ++ front) := by
  cases front with
  | nil => rwa [List.append_nil]
  | cons first front =>
    cases back with
    | nil => rwa [List.append_nil] at ring
    | cons cell back =>
      have chain : (first :: (front ++ cell :: (back ++ [first]))).IsChain
          fun cell after => next cell = after := by
        simpa [IsRing] using ring
      obtain ⟨before, after⟩ := List.isChain_cons_split.mp chain
      have turned := List.isChain_cons_split.mpr ⟨after, before⟩
      simpa [IsRing] using turned

theorem IsRing.insert (ring : IsRing next (cell :: rest)) (linked : next' cell = new)
    (through : next' new = next cell) (same : ∀ other ∈ rest, next' other = next other) :
    IsRing next' (cell :: new :: rest) := by
  simp_all [isRing_cons_iff, List.isChain_cons, List.cons_append, isChain_concat_congr]

theorem IsRing.remove (ring : IsRing next (cell :: dead :: rest)) (linked : next' cell = next dead)
    (same : ∀ other ∈ rest, next' other = next other) : IsRing next' (cell :: rest) := by
  simp_all [isRing_cons_iff, List.isChain_cons, List.cons_append, isChain_concat_congr]

theorem IsRing.next_eq (ring : IsRing next (cell :: rest)) : next cell = rest.headD cell := by
  rw [isRing_cons_iff, List.isChain_cons] at ring
  refine ring.1 _ ?_
  cases rest <;> rfl

end RingList

end Xv6
