import Xv6.UserAllocatorInvariant

/-!
# The heap of a program

The blocks that a program has and the cells of the free list make up the memory that
`sbrk` has granted.  `free` moves a block to the list, `malloc` takes one from it,
and the memory that `morecore` obtains is first a block that is then freed.
-/

namespace Xv6

namespace Umalloc

open LabelledRun RingList

variable {base bp grant nbytes need p q heap units : Nat} {cells front back : List Nat}
  {state next : State} {world : World}

/-! ## The heap -/

/-- How often the calls of `sbrk` have granted an address. -/
def granted (calls : List (Int × Option Nat)) (address : Nat) : Nat :=
  (calls.map fun call =>
    if ∃ p ∈ call.2, p ≤ address ∧ (address : Int) < p + call.1 then 1 else 0).sum

/-- The list and the blocks of the program make up the granted memory. -/
structure Kept (base heap : Nat) (world : World) (cells : List Nat) : Prop where
  list : FreeList base world.state cells
  freep : ∃ p ∈ cells, world.state.freep = some p
  positive : ∀ p ∈ world.allocated, 0 < world.state.size p
  cover : ∀ address, world.state.cover (cells ++ world.allocated) address =
    granted world.state.calls address
  once : ∀ address, granted world.state.calls address ≤ 1
  bounds : ∀ address, 0 < granted world.state.calls address →
    heap ≤ address ∧ address < world.state.brk
  heap_le : heap ≤ world.state.brk
  brk_lt : world.state.brk < 2 ^ 32

theorem FreeList.pairwise (list : FreeList base state cells) :
    cells.Pairwise fun p q => p + 8 * state.size p < q := by
  have : IsTrans Nat fun p q => p + 8 * state.size p < q := ⟨fun p q r _ _ => by omega⟩
  exact list.chain.pairwise

theorem FreeList.congr (list : FreeList base state cells)
    (same : ∀ p ∈ cells, next.header p = state.header p) : FreeList base next cells := by
  have sizes : ∀ p ∈ cells, next.size p = state.size p :=
    fun p member => congrArg Header.size (same p member)
  have memBase : base ∈ cells := List.mem_of_mem_head? list.head
  refine ⟨list.head, list.ring.congr fun p member => congrArg Header.ptr (same p member),
    isChain_size_congr sizes list.chain, (sizes base memBase).trans list.empty, ?_⟩
  intro p member ne
  rw [sizes p member]
  exact list.positive p member ne

namespace Kept

theorem block_bounds (kept : Kept base heap world cells)
    (member : p ∈ cells ++ world.allocated) (positive : 0 < world.state.size p) :
    heap ≤ p ∧ p + 8 * world.state.size p ≤ world.state.brk := by
  have first := world.state.inBlock_le_cover member p
  have last := world.state.inBlock_le_cover member (p + 8 * world.state.size p - 1)
  rw [kept.cover, inBlock, if_pos (by omega)] at first last
  exact ⟨(kept.bounds p first).1, by have := (kept.bounds _ last).2; omega⟩

theorem top (kept : Kept base heap world cells) (below : base < heap) (member : p ∈ cells) :
    p + 8 * world.state.size p < 2 ^ 32 := by
  have := kept.brk_lt
  have := kept.heap_le
  by_cases isBase : p = base
  · subst isBase
    rw [kept.list.empty]
    omega
  · have := (kept.block_bounds (List.mem_append_left _ member)
      (kept.list.positive p member isBase)).2
    omega

theorem length_le (kept : Kept base heap world cells) (below : base < heap) :
    cells.length ≤ 2 ^ 32 :=
  length_le_of_increasing kept.list.increasing fun _ member =>
    (Nat.le_add_right ..).trans_lt (kept.top below member)

theorem cover_le (kept : Kept base heap world cells) (address : Nat) :
    world.state.cover cells address + world.state.cover world.allocated address ≤ 1 := by
  rw [← State.cover_append, kept.cover]
  exact kept.once address

theorem apart (kept : Kept base heap world cells) (below : base < heap)
    (allocated : bp ∈ world.allocated) : Apart base world.state cells bp := by
  have positive := kept.positive bp allocated
  have bounds := kept.block_bounds (List.mem_append_right _ allocated) positive
  have := kept.brk_lt
  refine ⟨positive, by omega, by omega, fun p member => kept.top below member, ?_⟩
  intro p member
  by_cases isBase : p = base
  · subst isBase
    rw [kept.list.empty]
    omega
  · exact apart_of_cover kept.cover_le member allocated (kept.list.positive p member isBase)
      positive

theorem freeBlock (kept : Kept base heap world cells) (below : base < heap)
    (allocated : bp ∈ world.allocated) :
    ∃ next cells', world.state.freeBlock bp = some next ∧
      Kept base heap ⟨next, world.allocated.erase bp⟩ cells' ∧
      ∃ p ∈ cells', world.state.size bp ≤ next.size p := by
  obtain ⟨next, cells', returns, freed⟩ :=
    freeBlock_freed kept.list (kept.apart below allocated) kept.freep
  obtain ⟨sameCalls, sameBrk⟩ := State.freeBlock_calls returns
  have perm := List.perm_cons_erase allocated
  have total : ∀ address, world.state.cover world.allocated address =
      inBlock bp (world.state.size bp) address +
        world.state.cover (world.allocated.erase bp) address := by
    intro address
    exact (perm.map _).sum_eq
  have same : ∀ q ∈ world.allocated.erase bp, next.size q = world.state.size q := by
    intro q member
    have inAllocated := List.mem_of_mem_erase member
    refine congrArg Header.size (freed.same q ?_ ?_)
    · intro inCells
      exact (kept.apart below inAllocated).ne kept.list inCells rfl
    · rintro rfl
      have positive := kept.positive q inAllocated
      have once : ∀ address, world.state.cover [q] address +
          world.state.cover (world.allocated.erase q) address ≤ 1 := by
        intro address
        have := kept.cover_le address
        have := total address
        simp only [State.cover_cons, State.cover_nil]
        omega
      have := apart_of_cover once (List.mem_singleton_self q) member positive positive
      omega
  refine ⟨next, cells', returns, ⟨freed.list, freed.freep, ?_, ?_, ?_, ?_, ?_, ?_⟩, freed.larger⟩
  · intro q member
    rw [same q member]
    exact kept.positive q (List.mem_of_mem_erase member)
  · intro address
    have before := kept.cover address
    rw [State.cover_append, total] at before
    rw [State.cover_append, freed.cover, world.state.cover_congr next same, sameCalls, ← before]
    omega
  · rw [sameCalls]
    exact kept.once
  · rw [sameCalls, sameBrk]
    exact kept.bounds
  · rw [sameBrk]
    exact kept.heap_le
  · rw [sameBrk]
    exact kept.brk_lt

theorem lt_brk (kept : Kept base heap world cells) (below : base < heap)
    (member : p ∈ cells ++ world.allocated) : p < world.state.brk := by
  have := kept.heap_le
  rcases List.mem_append.mp member with inCells | inAllocated
  · by_cases isBase : p = base
    · omega
    · have positive := kept.list.positive p inCells isBase
      have := (kept.block_bounds member positive).2
      omega
  · have positive := kept.positive p inAllocated
    have := (kept.block_bounds member positive).2
    omega

variable {allocated : List Nat}

theorem congr (kept : Kept base heap ⟨state, allocated⟩ cells)
    (same : ∀ p ∈ cells ++ allocated, next.header p = state.header p)
    (isFreep : next.freep = state.freep) (isGranted : granted next.calls = granted state.calls)
    (isBrk : next.brk = state.brk) : Kept base heap ⟨next, allocated⟩ cells := by
  have sizes : ∀ p ∈ cells ++ allocated, next.size p = state.size p :=
    fun p member => congrArg Header.size (same p member)
  refine ⟨kept.list.congr fun p member => same p (List.mem_append_left allocated member),
    ?_, ?_, ?_, ?_, ?_, ?_, ?_⟩
  · rw [isFreep]
    exact kept.freep
  · intro p member
    rw [sizes p (List.mem_append_right cells member)]
    exact kept.positive p member
  · intro address
    rw [state.cover_congr next sizes, isGranted]
    exact kept.cover address
  · rw [isGranted]
    exact kept.once
  · rw [isGranted, isBrk]
    exact kept.bounds
  · rw [isBrk]
    exact kept.heap_le
  · rw [isBrk]
    exact kept.brk_lt

theorem grant_block {n : Int} (kept : Kept base heap ⟨state, allocated⟩ cells)
    (below : base < heap) (same : ∀ q, q ≠ p → next.header q = state.header q)
    (isFreep : next.freep = state.freep) (positive : 0 < next.size p)
    (isAmount : n = 8 * next.size p) (above : state.brk ≤ p)
    (isBrk : next.brk = p + 8 * next.size p) (fits : next.brk < 2 ^ 32)
    (isCalls : next.calls = (n, some p) :: state.calls) :
    Kept base heap ⟨next, p :: allocated⟩ cells := by
  have ne : ∀ q ∈ cells ++ allocated, q ≠ p :=
    fun q member => ((kept.lt_brk below member).trans_le above).ne
  have isGranted : ∀ address, granted next.calls address =
      inBlock p (next.size p) address + granted state.calls address := by
    intro address
    rw [isCalls, granted, List.map_cons, List.sum_cons, ← granted]
    congr 1
    congr 1
    simp
    omega
  have sizes : ∀ q ∈ cells ++ allocated, next.size q = state.size q :=
    fun q member => congrArg Header.size (same q (ne q member))
  have bounds : ∀ address, 0 < granted state.calls address →
      heap ≤ address ∧ address < state.brk := kept.bounds
  have heapLe : heap ≤ state.brk := kept.heap_le
  have grows : heap ≤ next.brk := by omega
  refine ⟨?_, ?_, ?_, ?_, ?_, ?_, grows, fits⟩
  · exact kept.list.congr fun q member => same q (ne q (List.mem_append_left allocated member))
  · rw [isFreep]
    exact kept.freep
  · rw [List.forall_mem_cons]
    refine ⟨positive, fun q member => ?_⟩
    rw [sizes q (List.mem_append_right cells member)]
    exact kept.positive q member
  · intro address
    have before := kept.cover address
    rw [← state.cover_congr next sizes] at before
    rw [isGranted, ← before]
    simp only [State.cover_append, State.cover_cons]
    omega
  · intro address
    have once : granted state.calls address ≤ 1 := kept.once address
    have := bounds address
    rw [isGranted]
    unfold inBlock
    split <;> omega
  · grind [inBlock]

theorem sbrk_cases (state : State) (grant : Nat) {n : Int} (positive : 0 ≤ n) :
    state.sbrk grant n = (none, state.record (n, none) state.brk) ∨
    ∃ p brk : Nat, state.brk ≤ p ∧ brk = p + n ∧ brk < 2 ^ 32 ∧
      state.sbrk grant n = (some p, state.record (n, some p) brk) := by
  unfold State.sbrk
  dsimp only
  split
  next => exact Or.inl rfl
  next fits =>
      refine Or.inr ⟨_, _, Nat.le_add_right .., ?_, ?_, rfl⟩
      · split <;> omega
      · split <;> omega

/-- `morecore` adds a cell that is large enough, or fails. -/
theorem morecore (kept : Kept base heap ⟨state, allocated⟩ cells) (below : base < heap)
    (isAmount : State.amount need = 8 * State.coreUnits need) :
    (∃ next, state.morecore grant need = some (none, next) ∧
      Kept base heap ⟨next, allocated⟩ cells) ∨
    ∃ p next cells', state.morecore grant need = some (some p, next) ∧ next.freep = some p ∧
      Kept base heap ⟨next, allocated⟩ cells' ∧ ∃ q ∈ cells', need ≤ next.size q := by
  have units : 0 < State.coreUnits need := State.coreUnits_pos
  have enough : need ≤ State.coreUnits need := by
    unfold State.coreUnits
    split <;> omega
  unfold State.morecore
  rcases sbrk_cases state grant (show 0 ≤ State.amount need by omega) with
    failed | ⟨p, brk, above, isBrk, fits, granted⟩
  · rw [failed]
    refine Or.inl ⟨_, rfl, kept.congr (fun p _ => rfl) rfl ?_ rfl⟩
    funext address
    simp [State.record, Umalloc.granted]
  · rw [granted]
    -- The new block is first one of the program, which then frees it.
    have isSize : ((state.record (State.amount need, some p) brk).setSize p
        (State.coreUnits need)).size p = State.coreUnits need := by
      simp [State.setSize]
    have block : Kept base heap ⟨(state.record (State.amount need, some p) brk).setSize p
        (State.coreUnits need), p :: allocated⟩ cells := by
      refine kept.grant_block below (fun q ne => Function.update_of_ne ne _ _) rfl ?_ ?_ above
        ?_ fits rfl
      · rwa [isSize]
      · rw [isSize, isAmount]
      · rw [isSize]
        simp only [State.setSize, State.setHeader, State.record]
        omega
    obtain ⟨next, cells', returns, freed, q, member, larger⟩ :=
      block.freeBlock below List.mem_cons_self
    rw [List.erase_cons_head] at freed
    obtain ⟨freep, memFreep, isFreep⟩ := freed.freep
    refine Or.inr ⟨freep, next, cells', ?_, isFreep, freed, q, member, ?_⟩
    · simp only [State.free]
      rw [block_plus (by omega), returns, Option.map_some, isFreep]
    · grind

theorem take_whole (kept : Kept base heap ⟨state, allocated⟩ (front ++ q :: p :: back))
    (ne : p ≠ base) :
    Kept base heap ⟨(state.setPtr q (state.ptr p)).setFreep q, p :: allocated⟩
      (front ++ q :: back) := by
  have list := kept.list
  have notMem := list.not_mem
  have sizes : ∀ r, ((state.setPtr q (state.ptr p)).setFreep q).size r = state.size r :=
    fun r => State.setPtr_size ..
  have isHead := list.head
  have sublist : (front ++ q :: back).Sublist (front ++ q :: p :: back) :=
    (List.Sublist.refl front).append ((List.sublist_cons_self p back).cons_cons q)
  refine ⟨⟨?_, ?_, ?_, ?_, ?_⟩, ⟨q, by simp, rfl⟩, ?_, ?_, kept.once, kept.bounds, kept.heap_le,
    kept.brk_lt⟩
  · cases front <;> simpa using isHead
  · have ring : IsRing state.ptr (q :: p :: (back ++ front)) := list.ring.rotate
    have removed : IsRing ((state.setPtr q (state.ptr p)).setFreep q).ptr
        ((q :: back) ++ front) := by
      refine ring.remove (by simp [State.setPtr]) fun r member => ?_
      have ne : r ≠ q := by
        grind
      simp [State.setPtr, ne]
    exact removed.rotate
  · refine isChain_size_congr (fun r _ => sizes r) (List.Pairwise.isChain ?_)
    exact list.pairwise.sublist sublist
  · rw [sizes]
    exact list.empty
  · intro r member
    rw [sizes]
    exact list.positive r (sublist.subset member)
  · rw [List.forall_mem_cons]
    refine ⟨?_, fun r member => ?_⟩
    · rw [sizes]
      exact list.positive p (by simp) ne
    · rw [sizes]
      exact kept.positive r member
  · intro address
    have before : state.cover (front ++ q :: p :: back ++ allocated) address =
      granted state.calls address := kept.cover address
    change _ = granted state.calls address
    rw [← before, state.cover_congr _ fun r _ => sizes r]
    simp only [State.cover_append, State.cover_cons]
    omega

theorem take_end {prevp rest : Nat}
    (kept : Kept base heap ⟨state, allocated⟩ (front ++ p :: back)) (below : base < heap)
    (memPrevp : prevp ∈ front ++ p :: back) (isSize : state.size p = rest + need)
    (positive : 0 < need) (positive' : 0 < rest) (isFreep : next.freep = some prevp)
    (sizeRest : next.size p = rest) (sizeEnd : next.size (p + 8 * rest) = need)
    (sizes : ∀ q, q ≠ p + 8 * rest ∧ q ≠ p → next.size q = state.size q)
    (ptrs : ∀ q, next.ptr q = state.ptr q) (isCalls : next.calls = state.calls)
    (isBrk : next.brk = state.brk) :
    Kept base heap ⟨next, (p + 8 * rest) :: allocated⟩ (front ++ p :: back) := by
  have list : FreeList base state (front ++ p :: back) := kept.list
  have pairwise := list.pairwise
  rw [List.pairwise_append, List.pairwise_cons] at pairwise
  obtain ⟨-, ⟨after, -⟩, before⟩ := pairwise
  have inFront : ∀ q ∈ front, next.size q = state.size q := by
    intro q member
    have := before q member p List.mem_cons_self
    exact sizes q (by omega)
  have inBack : ∀ q ∈ back, next.size q = state.size q := by
    grind
  have inAllocated : ∀ q ∈ allocated, next.size q = state.size q := by
    intro q member
    have size : 0 < state.size q := kept.positive q member
    have : p + 8 * state.size p ≤ q ∨ q + 8 * state.size q ≤ p :=
      (kept.apart below member).disjoint p (by simp)
    exact sizes q (by omega)
  have inCells : ∀ q ∈ front ++ p :: back, next.size q ≤ state.size q ∧
      (0 < state.size q → 0 < next.size q) := by
    intro q member
    rcases List.mem_append.mp member with member | member
    · simp [inFront q member]
    · grind
  refine ⟨⟨list.head, list.ring.congr fun q _ => ptrs q, ?_, ?_, ?_⟩, ⟨prevp, memPrevp, isFreep⟩,
    ?_, ?_, ?_, ?_, ?_, ?_⟩
  · refine list.chain.imp_of_mem_imp fun q r member _ below => ?_
    have := (inCells q member).1
    dsimp only
    omega
  · have := (inCells base (List.mem_of_mem_head? list.head)).1
    have := list.empty
    dsimp only
    omega
  · intro q member ne
    exact (inCells q member).2 (list.positive q member ne)
  · rw [List.forall_mem_cons]
    refine ⟨by rwa [sizeEnd], fun q member => ?_⟩
    rw [inAllocated q member]
    exact kept.positive q member
  · intro address
    have before : state.cover (front ++ p :: back ++ allocated) address =
      granted state.calls address := kept.cover address
    rw [isCalls, ← before]
    simp only [State.cover_append, State.cover_cons, sizeRest, sizeEnd, isSize, inBlock_add]
    rw [state.cover_congr next inFront, state.cover_congr next inBack,
      state.cover_congr next inAllocated]
    omega
  · rw [isCalls]
    exact kept.once
  · rw [isCalls, isBrk]
    exact kept.bounds
  · rw [isBrk]
    exact kept.heap_le
  · rw [isBrk]
    exact kept.brk_lt

theorem take (kept : Kept base heap ⟨state, allocated⟩ cells) (below : base < heap)
    (memPrevious : q ∈ cells) (link : state.ptr q = p) (member : p ∈ cells) (positive : 0 < need)
    (enough : need ≤ state.size p) :
    ∃ r cells', (state.take need q p).1 = some (plus r 1) ∧ block (plus r 1) = r ∧
      (state.take need q p).2.size r = need ∧
      Kept base heap ⟨(state.take need q p).2, r :: allocated⟩ cells' := by
  have ne : p ≠ base := by
    rintro rfl
    have : state.size p = 0 := kept.list.empty
    omega
  have top : p + 8 * state.size p < 2 ^ 32 := kept.top below member
  unfold State.take
  split
  next whole =>
      -- The cell before it in the ring is also the one before it in the list.
      obtain ⟨front, back, rfl⟩ := List.append_of_mem memPrevious
      have isNext := kept.list.ptr_eq
      cases back with
      | nil => exact absurd (link.symm.trans isNext) ne
      | cons after back =>
        have isAfter : after = p := (link.symm.trans isNext).symm
        subst isAfter
        refine ⟨after, front ++ q :: back, rfl, block_plus (by omega), ?_, kept.take_whole ne⟩
        rw [State.setFreep_size, State.setPtr_size, whole]
  next larger =>
      obtain ⟨front, back, rfl⟩ := List.append_of_mem member
      have fits : plus p (state.size p - need) = p + 8 * (state.size p - need) :=
        plus_eq (by omega)
      dsimp only
      rw [fits]
      have apart : p ≠ p + 8 * (state.size p - need) := by omega
      refine ⟨_, _, rfl, block_plus (by omega), by simp [State.setSize],
        kept.take_end below memPrevious (by omega) positive (by omega) rfl ?_ ?_ ?_ ?_ rfl rfl⟩
      · simp only [State.setSize, State.setFreep_size, State.setHeader_size, if_neg apart, if_true]
      · simp [State.setSize]
      · intro r ne
        simp [State.setSize, ne]
      · intro r
        rw [State.setFreep_ptr, State.setSize_ptr, State.setSize_ptr]

end Kept

/-! ## The loop of `malloc` -/

theorem mallocLoop_walk (grant : Nat) {todo : List Nat} {stop fuel prevp : Nat}
    (chain : (prevp :: (todo ++ [stop])).IsChain fun cell after => state.ptr cell = after)
    (notMem : stop ∉ todo) (isFreep : state.freep = some stop) (enough : todo.length < fuel) :
    (∃ q p, q ∈ prevp :: todo ∧ p ∈ todo ++ [stop] ∧ state.ptr q = p ∧ need ≤ state.size p ∧
      State.mallocLoop grant need fuel state prevp (state.ptr prevp) =
        some (state.take need q p)) ∨
    (∀ p ∈ todo ++ [stop], state.size p < need) ∧ ∃ q left, fuel = left + 1 + todo.length ∧
      State.mallocLoop grant need fuel state prevp (state.ptr prevp) =
        State.mallocLoop grant need (left + 1) state q stop := by
  obtain ⟨fuel, rfl⟩ : ∃ n, fuel = n + 1 := ⟨fuel - 1, by omega⟩
  induction todo generalizing prevp fuel with
  | nil =>
    have link : state.ptr prevp = stop := by simpa using chain
    by_cases found : need ≤ state.size stop
    · simp_all [State.mallocLoop, Or.inl]
    · grind
  | cons cell todo ih =>
    rw [List.cons_append, List.isChain_cons_cons] at chain
    obtain ⟨link, chain⟩ := chain
    by_cases found : need ≤ state.size cell
    · simp_all [State.mallocLoop, Or.inl]
    · have ne : some cell ≠ state.freep := by
        rw [isFreep]
        rintro ⟨⟩
        exact notMem List.mem_cons_self
      obtain ⟨fuel, rfl⟩ : ∃ n, fuel = n + 1 := ⟨fuel - 1, by simp at enough; omega⟩
      rw [link, State.mallocLoop, if_neg found, if_neg ne]
      rcases ih chain (fun member => notMem (List.mem_cons_of_mem cell member)) fuel
        (Nat.lt_of_succ_lt_succ enough) with
        ⟨q, p, memQ, memP, rest⟩ | ⟨small, q, left, isLeft, rest⟩
      · exact Or.inl ⟨q, p, List.mem_cons_of_mem prevp memQ, List.mem_cons_of_mem cell memP, rest⟩
      · grind

/-- What `malloc` returns: a block of the program, or nothing. -/
def Given (base heap need : Nat) (allocated : List Nat) (result : Option Nat × State) : Prop :=
  (∃ cells, Kept base heap ⟨result.2, (result.1.map block).toList ++ allocated⟩ cells) ∧
    ∀ ap ∈ result.1, result.2.size (block ap) = need

variable {allocated : List Nat}

theorem Kept.take_given (kept : Kept base heap ⟨state, allocated⟩ cells) (below : base < heap)
    (memPrevious : q ∈ cells) (link : state.ptr q = p) (member : p ∈ cells) (positive : 0 < need)
    (enough : need ≤ state.size p) : Given base heap need allocated (state.take need q p) := by
  obtain ⟨r, cells', isResult, isBlock, isSize, keeps⟩ :=
    kept.take below memPrevious link member positive enough
  refine ⟨⟨cells', ?_⟩, ?_⟩
  · grind
  · grind

theorem Kept.walk (grant : Nat) {start fuel : Nat}
    (kept : Kept base heap ⟨state, allocated⟩ cells) (below : base < heap)
    (member : start ∈ cells) (isFreep : state.freep = some start) (positive : 0 < need)
    (enough : cells.length ≤ fuel) :
    (∃ result, State.mallocLoop grant need fuel state start (state.ptr start) = some result ∧
      Given base heap need allocated result) ∨
    (∀ p ∈ cells, state.size p < need) ∧ ∃ q left, fuel = left + cells.length ∧
      State.mallocLoop grant need fuel state start (state.ptr start) =
        State.mallocLoop grant need (left + 1) state q start := by
  obtain ⟨front, back, rfl⟩ := List.append_of_mem member
  have ring : IsRing state.ptr (start :: (back ++ front)) := kept.list.ring.rotate
  have length : (front ++ start :: back).length = (back ++ front).length + 1 := by
    grind
  have around : ∀ p, p ∈ back ++ front ++ [start] ↔ p ∈ front ++ start :: back := by
    grind
  have rounds : (back ++ front).length < fuel := by omega
  rcases mallocLoop_walk grant ring kept.list.not_mem isFreep rounds with
    ⟨q, p, memQ, memP, link, found, returns⟩ | ⟨small, q, left, isLeft, returns⟩
  · refine Or.inl ⟨_, returns, kept.take_given below ?_ link ((around p).mp memP) positive found⟩
    refine (around q).mp ?_
    simp only [List.mem_append, List.mem_cons] at memQ ⊢
    tauto
  · exact Or.inr ⟨fun p member => small p ((around p).mpr member), q, left, by omega, returns⟩

/-- The loop of `malloc` goes around at most twice. -/
theorem Kept.mallocLoop {start : Nat} (kept : Kept base heap ⟨state, allocated⟩ cells)
    (below : base < heap) (member : start ∈ cells) (isFreep : state.freep = some start)
    (positive : 0 < need) (isAmount : State.amount need = 8 * State.coreUnits need) :
    ∃ result, State.mallocLoop grant need rounds state start (state.ptr start) = some result ∧
      Given base heap need allocated result := by
  have few : cells.length ≤ rounds := (kept.length_le below).trans (by decide)
  rcases kept.walk grant below member isFreep positive few with
    found | ⟨small, q, left, isLeft, returns⟩
  · exact found
  · rw [returns, State.mallocLoop, if_neg (not_le.mpr (small start member)), if_pos isFreep.symm]
    rcases kept.morecore below isAmount with ⟨next, failed, keeps⟩ |
      ⟨p, next, cells', isCore, isFreep', keeps, q, memQ, large⟩
    · rw [failed]
      refine ⟨(none, next), rfl, ⟨cells, keeps⟩, ?_⟩
      intro ap absent
      cases absent
    · rw [isCore]
      have few' : cells'.length ≤ left := by
        have := kept.length_le below
        have := keeps.length_le below
        unfold rounds at isLeft
        omega
      obtain ⟨start', memStart, isStart⟩ := keeps.freep
      have isP : start' = p := Option.some.inj (isStart.symm.trans isFreep')
      subst isP
      rcases keeps.walk grant below memStart isStart positive few' with
        found | ⟨small', -⟩
      · exact found
      · exact absurd large (not_le.mpr (small' q memQ))

/-! ## Whole runs -/

/-- No call was made yet, or there is a list. -/
def Sound (base heap : Nat) (world : World) : Prop :=
  world = ⟨State.initial heap, []⟩ ∨ ∃ cells, Kept base heap world cells

theorem kept_start (word : heap < 2 ^ 32) :
    Kept base heap ⟨(State.initial heap).start base, []⟩ [base] := by
  refine ⟨⟨rfl, ?_, List.isChain_singleton base, ?_, ?_⟩, ⟨base, List.mem_singleton_self base, rfl⟩,
    by simp, ?_, ?_, ?_, le_rfl, word⟩
  · simp [IsRing, State.start, State.initial]
  · simp [State.start, State.initial]
  · grind
  · intro address
    simp [State.start, State.initial, granted, State.setFreep, State.setHeader, State.size]
  · intro address
    simp [State.start, State.initial, granted, State.setFreep, State.setHeader]
  · simp [State.start, State.initial, granted, State.setFreep, State.setHeader]

/-- Every call of `malloc` returns. -/
theorem Sound.malloc (sound : Sound base heap world) (below : base < heap) (word : heap < 2 ^ 32)
    (small : nbytes < 2 ^ 31 - 2 ^ 16) (grant : Nat) :
    ∃ result, world.state.malloc base nbytes grant = some result ∧
      Given base heap (State.nunits nbytes) world.allocated result := by
  obtain ⟨cells, kept⟩ : ∃ cells,
      Kept base heap ⟨world.state.start base, world.allocated⟩ cells := by
    rcases sound with rfl | ⟨cells, kept⟩
    · exact ⟨[base], kept_start word⟩
    · obtain ⟨p, -, isFreep⟩ := kept.freep
      refine ⟨cells, ?_⟩
      rwa [State.start, isFreep]
  obtain ⟨start, member, isFreep⟩ := kept.freep
  rw [State.malloc, isFreep, Option.bind_some]
  refine kept.mallocLoop below member isFreep (Nat.succ_pos _) (State.amount_eq ?_)
  unfold State.maxBytes
  omega

/-- Every call of `free` returns. -/
theorem Sound.free {ap : Nat} (sound : Sound base heap world) (below : base < heap)
    (allocated : block ap ∈ world.allocated) :
    ∃ next cells, world.state.free ap = some next ∧
      Kept base heap ⟨next, world.allocated.erase (block ap)⟩ cells := by
  rcases sound with rfl | ⟨cells, kept⟩
  · exact absurd allocated List.not_mem_nil
  · obtain ⟨next, cells', returns, keeps, -⟩ := kept.freeBlock below allocated
    exact ⟨next, cells', returns, keeps⟩

theorem Sound.step {label : Label} {after : World} (sound : Sound base heap world)
    (below : base < heap) (word : heap < 2 ^ 32) (stepped : world.step base label = some after) :
    Sound base heap after := by
  cases label with
  | malloc nbytes grant =>
    rw [World.step] at stepped
    split at stepped
    next small =>
        obtain ⟨result, returns, ⟨cells, kept⟩, -⟩ := sound.malloc below word small grant
        rw [returns] at stepped
        cases stepped
        exact Or.inr ⟨cells, kept⟩
    next => exact absurd stepped.symm (Option.some_ne_none _)
  | free ap =>
    rw [World.step] at stepped
    split at stepped
    next allocated =>
        obtain ⟨next, cells, returns, kept⟩ := sound.free below allocated
        rw [returns] at stepped
        cases stepped
        exact Or.inr ⟨cells, kept⟩
    next => exact absurd stepped.symm (Option.some_ne_none _)

theorem pairwise_disjoint_of_cover {blocks : List Nat}
    (once : ∀ address, state.cover blocks address ≤ 1) :
    blocks.Pairwise fun p q => ∀ address ∈ state.bytes p, address ∉ state.bytes q := by
  induction blocks with
  | nil => exact List.Pairwise.nil
  | cons p blocks ih =>
    simp only [State.cover_cons] at once
    rw [List.pairwise_cons]
    refine ⟨?_, ih fun address => (Nat.le_add_left ..).trans (once address)⟩
    intro q member address inP inQ
    have covered := state.inBlock_le_cover member address
    have : inBlock q (state.size q) address = 1 := if_pos inQ
    have : inBlock p (state.size p) address = 1 := if_pos inP
    have := once address
    omega

theorem cover_pos_iff {blocks : List Nat} {address : Nat} :
    0 < state.cover blocks address ↔ ∃ p ∈ blocks, address ∈ state.bytes p := by
  induction blocks with
  | nil => simp
  | cons p blocks ih =>
    rw [State.cover_cons, Nat.add_pos_iff_pos_or_pos, ih, List.exists_mem_cons_iff, inBlock]
    refine or_congr ?_ Iff.rfl
    split
    next inside => exact ⟨fun _ => inside, fun _ => Nat.one_pos⟩
    next outside => exact ⟨fun absurdity => absurd absurdity (lt_irrefl 0),
      fun inside => absurd inside outside⟩

theorem granted_pos_iff {address : Nat} :
    0 < granted state.calls address ↔ address ∈ state.obtained := by
  unfold State.obtained
  generalize state.calls = calls
  induction calls with
  | nil => simp [granted]
  | cons call calls ih =>
    rw [granted, List.map_cons, List.sum_cons, ← granted, Nat.add_pos_iff_pos_or_pos, ih]
    obtain ⟨n, result⟩ := call
    cases result with
    | none => simp
    | some p =>
      simp only [Option.mem_def, Option.some.injEq, exists_eq_left', Set.mem_ofPred_eq]
      constructor
      · grind
      · grind

theorem Kept.exact (kept : Kept base heap world cells) : FreeListExact base world cells := by
  refine ⟨kept.list.head, kept.freep, kept.list.ring, kept.list.increasing, ?_, ?_, ?_⟩
  · exact pairwise_disjoint_of_cover fun address => (kept.cover address).trans_le
      (kept.once address)
  · intro address
    rw [← cover_pos_iff, kept.cover, granted_pos_iff]
  · intro p memP q memQ touches
    by_contra ne
    have pairwise := kept.list.pairwise
    obtain ⟨front, back, rfl⟩ := List.append_of_mem memP
    rw [List.pairwise_append, List.pairwise_cons] at pairwise
    obtain ⟨-, ⟨after, -⟩, before⟩ := pairwise
    rcases List.mem_append.mp memQ with inFront | member
    · grind
    · grind

theorem Sound.exact (sound : Sound base heap world) : Exact base world := by
  rcases sound with rfl | ⟨cells, kept⟩
  · refine Or.inl ⟨rfl, rfl, ?_⟩
    simp [State.obtained, State.initial]
  · exact Or.inr ⟨cells, kept.exact⟩

/-- Every call of a program returns, and `malloc` returns blocks with enough room. -/
structure CallsReturn (base : Nat) (world : World) : Prop where
  malloc : ∀ nbytes grant, nbytes < 2 ^ 31 - 2 ^ 16 →
    ∃ result, world.state.malloc base nbytes grant = some result ∧
      ∀ ap ∈ result.1, nbytes ≤ 8 * (result.2.size (block ap) - 1)
  free : ∀ ap, block ap ∈ world.allocated → (world.state.free ap).isSome

theorem Sound.callsReturn (sound : Sound base heap world) (below : base < heap)
    (word : heap < 2 ^ 32) : CallsReturn base world := by
  refine ⟨fun nbytes grant small => ?_, fun ap allocated => ?_⟩
  · obtain ⟨result, returns, -, isSize⟩ := sound.malloc below word small grant
    refine ⟨result, returns, fun ap isAp => ?_⟩
    rw [isSize ap isAp]
    refine State.le_unit_mul_nunits ?_
    unfold State.maxBytes
    omega
  · obtain ⟨next, cells, returns, -⟩ := sound.free below allocated
    rw [returns, Option.isSome_some]

/-- In every run of a program the free list is one ring in increasing order, its blocks
and those of the program make up the memory obtained, and every call returns. -/
theorem free_list_exact {trace : List (World × Label)} {finish : World}
    (layout : base + 8 ≤ heap) (word : heap < 2 ^ 32) (run : HeapRun base heap trace finish) :
    Throughout (fun world => Exact base world ∧ CallsReturn base world) trace finish := by
  have below : base < heap := by omega
  have sound : Throughout (Sound base heap) trace finish := by
    refine Run.always (Sound base heap) (Or.inl rfl) (fun sound edge => ?_) run
    exact sound.step below word edge
  refine ⟨fun entry member => ?_, sound.2.exact, sound.2.callsReturn below word⟩
  exact ⟨(sound.1 entry member).exact, (sound.1 entry member).callsReturn below word⟩

/-- A program gets two blocks, frees them, and then gets one from new memory that does
not touch the old. -/
def session : List Label :=
  [.malloc 100 1, .malloc 200 1, .free 37664, .free 37456, .malloc 40000 9]

theorem free_list_exact_session :
    ∃ (trace : List (World × Label)) (finish : World), HeapRun 4000 5000 trace finish ∧
      trace.map Prod.snd = session ∧ finish.allocated = [37776] ∧
        Throughout (fun world => Exact 4000 world ∧ CallsReturn 4000 world) trace finish := by
  refine exists_run_of_test (fun _ finish => finish.allocated = [37776]) (by decide +kernel) ?_
  exact fun _ _ run _ allocated => ⟨allocated, free_list_exact (by decide) (by decide) run⟩

end Umalloc

end Xv6
