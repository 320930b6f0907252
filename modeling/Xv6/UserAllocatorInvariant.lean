import Mathlib.Algebra.BigOperators.Group.List.Basic
import Mathlib.Data.Finset.Card
import Mathlib.Order.Interval.Finset.Nat
import Xv6.UserAllocatorSizes

/-!
# The free list of the allocator

The cells of the list, `base` first, are in increasing order and no two of them
touch.  `free` finds the cell before the new block and joins what touches it, and
`malloc` takes a cell out or shortens it.  How often each address is covered by
the blocks is counted, and compared with the memory obtained from `sbrk`.
-/

namespace Xv6

namespace Umalloc

open LabelledRun RingList

variable {base bp grant nbytes need p q heap units : Nat} {cells front back : List Nat}
  {state next : State} {world : World}

/-! ## Addresses in blocks -/

def inBlock (p units address : Nat) : Nat :=
  if p ≤ address ∧ address < p + 8 * units then 1 else 0

/-- How often blocks cover an address. -/
def State.cover (state : State) (blocks : List Nat) (address : Nat) : Nat :=
  (blocks.map fun p => inBlock p (state.size p) address).sum

theorem inBlock_add (p first second address : Nat) :
    inBlock p (first + second) address =
      inBlock p first address + inBlock (p + 8 * first) second address := by
  unfold inBlock
  split <;> split <;> split <;> omega

@[simp]
theorem State.cover_nil (state : State) (address : Nat) : state.cover [] address = 0 :=
  rfl

@[simp]
theorem inBlock_zero (p address : Nat) : inBlock p 0 address = 0 := by
  unfold inBlock
  split <;> omega

@[simp]
theorem State.cover_cons (state : State) (p : Nat) (blocks : List Nat) (address : Nat) :
    state.cover (p :: blocks) address =
      inBlock p (state.size p) address + state.cover blocks address := by
  simp [State.cover]

@[simp]
theorem State.cover_append (state : State) (blocks more : List Nat) (address : Nat) :
    state.cover (blocks ++ more) address =
      state.cover blocks address + state.cover more address := by
  simp [State.cover]

theorem State.cover_congr (state next : State) {blocks : List Nat}
    (same : ∀ p ∈ blocks, next.size p = state.size p) (address : Nat) :
    next.cover blocks address = state.cover blocks address := by
  unfold State.cover
  congr 1
  exact List.map_congr_left fun p member => by rw [same p member]

theorem State.inBlock_le_cover {blocks : List Nat} (member : p ∈ blocks) (address : Nat) :
    inBlock p (state.size p) address ≤ state.cover blocks address := by
  induction blocks with
  | nil => exact absurd member List.not_mem_nil
  | cons q blocks ih =>
    grind [State.cover_cons]

/-- Blocks that are never covered twice do not overlap. -/
theorem apart_of_cover {first second : List Nat} (once : ∀ address,
    state.cover first address + state.cover second address ≤ 1) (memFirst : p ∈ first)
    (memSecond : q ∈ second) (positive : 0 < state.size p) (positive' : 0 < state.size q) :
    p + 8 * state.size p ≤ q ∨ q + 8 * state.size q ≤ p := by
  have inFirst := state.inBlock_le_cover memFirst (max p q)
  have inSecond := state.inBlock_le_cover memSecond (max p q)
  have := once (max p q)
  unfold inBlock at inFirst inSecond
  split at inFirst <;> split at inSecond <;> omega

/-! ## Headers -/

namespace State

@[simp]
theorem setHeader_ptr (p q : Nat) (header : Header) :
    (state.setHeader p header).ptr q = if q = p then header.ptr else state.ptr q := by
  by_cases same : q = p <;> simp [setHeader, ptr, same]

@[simp]
theorem setHeader_size (p q : Nat) (header : Header) :
    (state.setHeader p header).size q = if q = p then header.size else state.size q := by
  by_cases same : q = p <;> simp [setHeader, size, same]

@[simp]
theorem setFreep_ptr (p q : Nat) : (state.setFreep p).ptr q = state.ptr q :=
  rfl

@[simp]
theorem setFreep_size (p q : Nat) : (state.setFreep p).size q = state.size q :=
  rfl

theorem setPtr_size (p q r : Nat) : (state.setPtr p r).size q = state.size q := by
  by_cases same : q = p <;> simp [setPtr, same]

theorem setSize_ptr (p q units : Nat) : (state.setSize p units).ptr q = state.ptr q := by
  by_cases same : q = p <;> simp [setSize, same]

end State

theorem plus_eq (fits : p + 8 * units < 2 ^ 32) : plus p units = p + 8 * units :=
  Nat.mod_eq_of_lt fits

theorem block_plus (fits : p + 8 < 2 ^ 32) : block (plus p 1) = p := by
  unfold block plus
  omega

/-! ## The list -/

/-- The cells of the free list, `base` first. -/
structure FreeList (base : Nat) (state : State) (cells : List Nat) : Prop where
  head : cells.head? = some base
  ring : IsRing state.ptr cells
  chain : cells.IsChain fun p q => p + 8 * state.size p < q
  empty : state.size base = 0
  positive : ∀ p ∈ cells, p ≠ base → 0 < state.size p

namespace FreeList

theorem increasing (list : FreeList base state cells) : cells.Pairwise (· < ·) := by
  rw [← List.isChain_iff_pairwise]
  exact list.chain.imp fun p q below => by omega

theorem ptr_eq (list : FreeList base state (front ++ p :: back)) :
    state.ptr p = back.headD base := by
  have link : state.ptr p = (back ++ front).headD p := list.ring.rotate.next_eq
  have isHead := list.head
  cases back with
  | nil =>
    grind
  | cons after back => simpa using link

/-- The loop of `free` stops before the place of the block. -/
theorem stops_iff (list : FreeList base state (front ++ p :: back)) (above : base < bp) :
    state.Stops bp p ↔ p < bp ∧ ∀ q ∈ back, bp < q := by
  have increasing := list.increasing
  have link := list.ptr_eq
  have isHead := list.head
  rw [List.pairwise_append, List.pairwise_cons] at increasing
  obtain ⟨-, ⟨below, sorted⟩, order⟩ := increasing
  have low : base ≤ p := by
    cases front with
    | nil => simp_all
    | cons first front =>
      have : first = base := by simpa using isHead
      exact this ▸ (order first List.mem_cons_self p List.mem_cons_self).le
  unfold State.Stops
  cases back with
  | nil =>
    rw [link]
    simp
    omega
  | cons after back =>
    have := below after List.mem_cons_self
    rw [link]
    simp only [List.headD_cons, List.forall_mem_cons]
    rw [List.pairwise_cons] at sorted
    constructor
    · grind
    · grind

/-- There is a last cell before the block. -/
theorem exists_before (increasing : (base :: cells).Pairwise (· < ·)) (above : base < bp)
    (new : ∀ p ∈ cells, p ≠ bp) : ∃ front p back, base :: cells = front ++ p :: back ∧
      p < bp ∧ ∀ q ∈ back, bp < q := by
  induction cells generalizing base with
  | nil => exact ⟨[], base, [], rfl, above, by simp⟩
  | cons cell cells ih =>
    rw [List.pairwise_cons] at increasing
    by_cases before : cell < bp
    · grind
    · refine ⟨[], base, cell :: cells, rfl, above, ?_⟩
      have ne := new cell List.mem_cons_self
      rw [List.forall_mem_cons]
      have sorted := (List.pairwise_cons.mp increasing.2).1
      refine ⟨by omega, fun q member => ?_⟩
      have := sorted q member
      omega

end FreeList

theorem search_eq {todo : List Nat} {fuel : Nat}
    (chain : (p :: todo).IsChain fun cell after => state.ptr cell = after)
    (stops : ∃ q ∈ p :: todo, state.Stops bp q) (enough : todo.length < fuel) :
    ∃ q ∈ p :: todo, state.search bp fuel p = some q ∧ state.Stops bp q := by
  induction todo generalizing p fuel with
  | nil =>
    obtain ⟨fuel, rfl⟩ : ∃ n, fuel = n + 1 := ⟨fuel - 1, by simp at enough; omega⟩
    obtain ⟨q, member, stopped⟩ := stops
    rw [List.mem_singleton] at member
    subst member
    exact ⟨q, List.mem_singleton_self q, by rw [State.search, if_pos stopped], stopped⟩
  | cons after todo ih =>
    obtain ⟨fuel, rfl⟩ : ∃ n, fuel = n + 1 := ⟨fuel - 1, by simp at enough; omega⟩
    by_cases stopped : state.Stops bp p
    · exact ⟨p, List.mem_cons_self, by rw [State.search, if_pos stopped], stopped⟩
    · simp_all [List.isChain_cons_cons, State.search]

/-! ## Joining blocks -/

/-- A block that is not in the list. -/
structure Apart (base : Nat) (state : State) (cells : List Nat) (bp : Nat) : Prop where
  positive : 0 < state.size bp
  above : base < bp
  top : bp + 8 * state.size bp < 2 ^ 32
  tops : ∀ p ∈ cells, p + 8 * state.size p < 2 ^ 32
  disjoint : ∀ p ∈ cells, p + 8 * state.size p ≤ bp ∨ bp + 8 * state.size bp ≤ p

theorem Apart.ne (apart : Apart base state cells bp) (list : FreeList base state cells)
    (member : p ∈ cells) : p ≠ bp := by
  rintro rfl
  have := list.positive p member apart.above.ne'
  have := apart.disjoint p member
  omega

/-- The block with the cells that come after it, when it has been joined with the
one that touches it. -/
structure JoinedNext (state next : State) (bp p : Nat) (front back after : List Nat) : Prop where
  sublist : after.Sublist back
  same : ∀ q, q ≠ bp → next.header q = state.header q
  ring : IsRing (Function.update state.ptr p (next.ptr bp)) (p :: (after ++ front))
  chain : (bp :: after).IsChain fun p q => p + 8 * next.size p < q
  top : bp + 8 * next.size bp < 2 ^ 32
  larger : state.size bp ≤ next.size bp
  cover : ∀ address, inBlock bp (next.size bp) address + state.cover after address =
    inBlock bp (state.size bp) address + state.cover back address

theorem isChain_size_congr (same : ∀ p ∈ cells, next.size p = state.size p)
    (chain : cells.IsChain fun p q => p + 8 * state.size p < q) :
    cells.IsChain fun p q => p + 8 * next.size p < q :=
  chain.imp_of_mem_imp fun p _ member _ below => by rwa [same p member]

theorem FreeList.not_mem (list : FreeList base state (front ++ p :: back)) :
    p ∉ back ++ front := by
  have nodup : (front ++ p :: back).Nodup := list.increasing.imp Nat.ne_of_lt
  rw [List.nodup_middle, List.nodup_cons, List.mem_append, or_comm] at nodup
  exact List.mem_append.not.mpr nodup.1

theorem joinNext_joined (list : FreeList base state (front ++ p :: back))
    (apart : Apart base state (front ++ p :: back) bp) (after : ∀ q ∈ back, bp < q) :
    ∃ rest, JoinedNext state (state.joinNext bp p) bp p front back rest := by
  have ring : IsRing state.ptr (p :: (back ++ front)) := list.ring.rotate
  have chain := (List.isChain_split.mp list.chain).2.of_cons
  have notMem := list.not_mem
  have ne : ∀ q ∈ back, q ≠ bp := fun q member => (after q member).ne'
  unfold State.joinNext
  rw [plus_eq apart.top, list.ptr_eq]
  split
  next touches =>
      -- Only a cell after the block can touch it, since `base` is before it.
      cases back with
      | nil =>
        have := apart.above
        simp only [List.headD_nil] at touches
        omega
      | cons n back =>
        have top := apart.tops n (by simp)
        simp only [List.headD_cons] at touches ⊢
        have sum : (state.size bp + state.size n) % 2 ^ 32 = state.size bp + state.size n :=
          Nat.mod_eq_of_lt (by omega)
        rw [sum]
        refine ⟨back, List.sublist_cons_self n back, ?_, ?_, ?_, ?_, ?_, ?_⟩
        · intro q ne
          simp [State.setHeader, Function.update_of_ne ne]
        · refine ring.remove (by simp) fun other member => ?_
          exact Function.update_of_ne (fun same => notMem (by simp_all)) _ _
        · rw [List.isChain_cons] at chain ⊢
          refine ⟨fun q isHead => ?_, isChain_size_congr (fun q member => ?_) chain.2⟩
          · grind [State.setHeader_size]
          · rw [State.setHeader_size, if_neg (ne q (List.mem_cons_of_mem n member))]
        · simp only [State.setHeader_size, if_true]
          omega
        · simp
        · grind [State.setHeader_size, inBlock_add, State.cover_cons]
  next separate =>
      refine ⟨back, List.Sublist.refl back, ?_, ?_, ?_, ?_, ?_, ?_⟩
      · intro q ne
        simp [State.setPtr, State.setHeader, Function.update_of_ne ne]
      · have same : (state.setPtr bp (back.headD base)).ptr bp = state.ptr p := by
          simp [State.setPtr, list.ptr_eq]
        rwa [same, Function.update_eq_self]
      · rw [List.isChain_cons]
        refine ⟨fun q isHead => ?_, isChain_size_congr (fun q _ => State.setPtr_size ..) chain⟩
        have member : q ∈ back := List.mem_of_mem_head? isHead
        have := after q member
        have := apart.disjoint q (by simp [member])
        have isNext : back.headD base = q := by
          cases back <;> simp_all
        rw [State.setPtr_size]
        omega
      · rw [State.setPtr_size]
        exact apart.top
      · rw [State.setPtr_size]
      · intro address
        rw [State.setPtr_size]

structure Freed (base : Nat) (state next : State) (cells : List Nat) (bp : Nat)
    (cells' : List Nat) : Prop where
  list : FreeList base next cells'
  freep : ∃ p ∈ cells', next.freep = some p
  same : ∀ q, q ∉ cells → q ≠ bp → next.header q = state.header q
  larger : ∃ p ∈ cells', state.size bp ≤ next.size p
  cover : ∀ address, next.cover cells' address =
    inBlock bp (state.size bp) address + state.cover cells address

/-- The cells before the place of the block stay as they are. -/
theorem Freed.of_tail {after : List Nat} (list : FreeList base state (front ++ p :: back))
    (apart : Apart base state (front ++ p :: back) bp)
    (same : ∀ q, q ≠ p → q ≠ bp → next.header q = state.header q) (isFreep : next.freep = some p)
    (ring : IsRing next.ptr (p :: (after ++ front)))
    (chain : (p :: after).IsChain fun p q => p + 8 * next.size p < q)
    (members : ∀ q ∈ after, q = bp ∨ q ∈ back) (grows : state.size p ≤ next.size p)
    (empty : p = base → next.size p = 0) (larger : ∃ q ∈ p :: after, state.size bp ≤ next.size q)
    (positive : bp ∈ after → 0 < next.size bp)
    (cover : ∀ address, next.cover (p :: after) address =
      inBlock bp (state.size bp) address + state.cover (p :: back) address) :
    Freed base state next (front ++ p :: back) bp (front ++ p :: after) := by
  have notMem := list.not_mem
  have sizes : ∀ q, q ≠ p → q ≠ bp → next.size q = state.size q :=
    fun q ne ne' => congrArg Header.size (same q ne ne')
  have inFront : ∀ q ∈ front, next.size q = state.size q := by
    intro q member
    refine sizes q ?_ (apart.ne list (by simp [member]))
    rintro rfl
    exact notMem (by simp [member])
  have isHead := list.head
  refine ⟨⟨?_, ?_, ?_, ?_, ?_⟩, ⟨p, by simp, isFreep⟩, ?_, ?_, ?_⟩
  · cases front <;> simpa using isHead
  · exact ring.rotate
  · rw [List.isChain_split]
    refine ⟨isChain_concat_imp (fun q member r below => ?_)
      (List.isChain_split.mp list.chain).1, chain⟩
    rwa [inFront q member]
  · by_cases isBase : p = base
    · rw [← isBase]
      exact empty isBase
    · rw [sizes base (Ne.symm isBase) apart.above.ne]
      exact list.empty
  · intro q member ne
    rcases List.mem_append.mp member with member | member
    · rw [inFront q member]
      exact list.positive q (by simp [member]) ne
    · rcases List.mem_cons.mp member with rfl | member
      · exact (list.positive q (by simp) ne).trans_le grows
      · rcases members q member with rfl | inBack
        · exact positive member
        · rw [sizes q ?_ (apart.ne list (by simp [inBack]))]
          · exact list.positive q (by simp [inBack]) ne
          · grind
  · grind
  · grind
  · intro address
    rw [State.cover_append, State.cover_append, cover, state.cover_congr next inFront]
    omega

theorem joinPrevious_freed {joined : State} {after : List Nat}
    (list : FreeList base state (front ++ p :: back))
    (apart : Apart base state (front ++ p :: back) bp) (before : p < bp)
    (isJoined : JoinedNext state joined bp p front back after) :
    ∃ cells', Freed base state ((joined.joinPrevious bp p).setFreep p) (front ++ p :: back) bp
      cells' := by
  have notMem := list.not_mem
  have inBack := isJoined.sublist.subset
  have ne : ∀ q ∈ after ++ front, q ≠ p ∧ q ≠ bp := by
    intro q member
    have outside : q ∈ back ++ front := by
      grind
    refine ⟨?_, apart.ne list ?_⟩
    · rintro rfl
      exact notMem outside
    · grind
  have sizes : ∀ q, q ≠ bp → joined.size q = state.size q :=
    fun q ne => congrArg Header.size (isJoined.same q ne)
  have ptrs : ∀ q, q ≠ bp → joined.ptr q = state.ptr q :=
    fun q ne => congrArg Header.ptr (isJoined.same q ne)
  have chain := isJoined.chain
  rw [List.isChain_cons] at chain
  unfold State.joinPrevious
  rw [sizes p before.ne, plus_eq (apart.tops p (by simp))]
  split
  next touches =>
      have sum : (state.size p + joined.size bp) % 2 ^ 32 = state.size p + joined.size bp :=
        Nat.mod_eq_of_lt (by have := isJoined.top; omega)
      rw [sum]
      refine ⟨front ++ p :: after, Freed.of_tail list apart ?_ rfl ?_ ?_ ?_ ?_ ?_ ?_ ?_ ?_⟩
      · intro q neP neBp
        rw [← isJoined.same q neBp]
        simp [State.setFreep, State.setHeader, Function.update_of_ne neP]
      · refine isJoined.ring.congr fun q member => ?_
        rcases List.mem_cons.mp member with rfl | member
        · simp
        · simp [ne q member, ptrs q (ne q member).2]
      · rw [List.isChain_cons]
        refine ⟨fun q isHead => ?_, isChain_size_congr (fun q member => ?_) chain.2⟩
        · grind [State.setFreep_size, State.setHeader_size]
        · simp [ne q (List.mem_append_left front member)]
      · exact fun q member => Or.inr (inBack member)
      · simp
      · rintro rfl
        have := list.empty
        omega
      · exact ⟨p, by simp, by simp [isJoined.larger.trans (Nat.le_add_left ..)]⟩
      · grind
      · intro address
        have covered := isJoined.cover address
        rw [State.cover_cons, State.cover_cons, state.cover_congr]
        · simp only [State.setFreep_size, State.setHeader_size, if_true, inBlock_add, touches]
          omega
        · simp_all
  next separate =>
      have afterSizes : ∀ q ∈ after, joined.size q = state.size q :=
        fun q member => sizes q (ne q (List.mem_append_left front member)).2
      refine ⟨front ++ p :: bp :: after,
        Freed.of_tail list apart ?_ rfl ?_ ?_ ?_ ?_ ?_ ?_ ?_ ?_⟩
      · intro q neP neBp
        rw [← isJoined.same q neBp]
        simp [State.setFreep, State.setPtr, State.setHeader, Function.update_of_ne neP]
      · refine isJoined.ring.insert ?_ ?_ fun q member => ?_
        · simp [State.setPtr]
        · simp [State.setPtr, before.ne']
        · simp [State.setPtr, ne q member, ptrs q (ne q member).2]
      · rw [List.isChain_cons_cons]
        refine ⟨?_, isChain_size_congr (fun q _ => State.setPtr_size ..) isJoined.chain⟩
        have := apart.disjoint p (by simp)
        simp only [State.setFreep_size, State.setPtr_size, sizes p before.ne]
        omega
      · grind
      · simp [State.setPtr_size, sizes p before.ne]
      · rintro rfl
        simp [State.setPtr_size, sizes p before.ne, list.empty]
      · exact ⟨bp, by simp, by simp [State.setPtr_size, isJoined.larger]⟩
      · intro _
        simpa [State.setPtr_size] using apart.positive.trans_le isJoined.larger
      · intro address
        have covered := isJoined.cover address
        simp only [State.cover_cons, State.setFreep_size, State.setPtr_size, sizes p before.ne]
        rw [state.cover_congr]
        · omega
        · intro q member
          simpa [State.setPtr_size] using afterSizes q member

/-- There are fewer cells than addresses. -/
theorem length_le_of_increasing (increasing : cells.Pairwise (· < ·))
    (tops : ∀ p ∈ cells, p < 2 ^ 32) : cells.length ≤ 2 ^ 32 := by
  have nodup : cells.Nodup := increasing.imp Nat.ne_of_lt
  have within : cells.toFinset ⊆ Finset.range (2 ^ 32) :=
    fun p member => Finset.mem_range.mpr (tops p (List.mem_toFinset.mp member))
  calc cells.length = cells.toFinset.card := (List.toFinset_card_of_nodup nodup).symm
    _ ≤ (Finset.range (2 ^ 32)).card := Finset.card_le_card within
    _ = 2 ^ 32 := Finset.card_range _

theorem freeBlock_freed (list : FreeList base state cells) (apart : Apart base state cells bp)
    (isFreep : ∃ p ∈ cells, state.freep = some p) :
    ∃ next cells', state.freeBlock bp = some next ∧ Freed base state next cells bp cells' := by
  obtain ⟨start, member, isStart⟩ := isFreep
  have few := length_le_of_increasing list.increasing fun p member =>
    (Nat.le_add_right ..).trans_lt (apart.tops p member)
  -- The search starts at `freep` and goes around the ring.
  obtain ⟨before, after, rfl⟩ := List.append_of_mem member
  have ring : IsRing state.ptr (start :: (after ++ before)) := list.ring.rotate
  have chain : (start :: (after ++ before)).IsChain fun cell after => state.ptr cell = after :=
    List.IsChain.left_of_append ring
  have stops : ∃ q ∈ start :: (after ++ before), state.Stops bp q := by
    obtain ⟨cells, isCells⟩ : ∃ cells, before ++ start :: after = base :: cells :=
      List.head?_eq_some_iff.mp list.head
    have increasing := list.increasing
    rw [isCells] at increasing
    obtain ⟨front, p, back, isSplit, place⟩ := FreeList.exists_before increasing apart.above
      fun p member => apart.ne list (by rw [isCells]; exact List.mem_cons_of_mem base member)
    rw [← isCells] at isSplit
    have memSplit : p ∈ before ++ start :: after := by simp [isSplit]
    have split := list
    rw [isSplit] at split
    refine ⟨p, ?_, (split.stops_iff apart.above).mpr place⟩
    simp only [List.mem_append, List.mem_cons] at memSplit ⊢
    tauto
  have enough : (after ++ before).length < rounds := by
    grind
  obtain ⟨p, memRing, found, isStop⟩ := search_eq chain stops enough
  have memCells : p ∈ before ++ start :: after := by
    grind
  obtain ⟨front, back, isSplit⟩ := List.append_of_mem memCells
  rw [isSplit] at list apart ⊢
  obtain ⟨below, later⟩ := (list.stops_iff apart.above).mp isStop
  obtain ⟨rest, isJoined⟩ := joinNext_joined list apart later
  obtain ⟨cells', freed⟩ := joinPrevious_freed list apart below isJoined
  refine ⟨_, cells', ?_, freed⟩
  rw [State.freeBlock, isStart, Option.bind_some, found, Option.map_some]

end Umalloc

end Xv6
