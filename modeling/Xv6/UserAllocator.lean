import Mathlib.Algebra.Ring.Int.Defs
import Mathlib.Algebra.Ring.Nat
import Mathlib.Data.Set.Basic
import Xv6.LabelledRuns
import Xv6.RingLists

/-!
# The allocator of user programs

`umalloc.c` keeps the free blocks in a circular list.  A block starts with a
header of 8 bytes, which holds the size of the block in units of a header and,
while the block is free, a pointer to the next free block.  Pointers are addresses,
and arithmetic on pointers and sizes is that of 32-bit words.

The operating system answers a call of `sbrk` with a number: 0 if it fails, and
otherwise one more than the distance between the old end of the heap and the
memory it grants.  The loops are followed for as many rounds as there can be
blocks; code that needs more rounds does not return.
-/

namespace Xv6

namespace Umalloc

open LabelledRun RingList

abbrev rounds : Nat := 2 ^ 34

structure Header where
  ptr : Nat
  size : Nat

/-- The headers by their addresses, `freep`, the end of the heap, and the calls of
`sbrk` with the address they returned, the last call first. -/
structure State where
  header : Nat → Header
  freep : Option Nat
  brk : Nat
  calls : List (Int × Option Nat)

def plus (p units : Nat) : Nat :=
  (p + 8 * units) % 2 ^ 32

/-- The header before a pointer to the rest of its block. -/
def block (ap : Nat) : Nat :=
  (ap + 2 ^ 32 - 8) % 2 ^ 32

def toInt (word : Nat) : Int :=
  if word < 2 ^ 31 then word else word - 2 ^ 32

namespace State

def ptr (state : State) (p : Nat) : Nat :=
  (state.header p).ptr

def size (state : State) (p : Nat) : Nat :=
  (state.header p).size

def setHeader (state : State) (p : Nat) (header : Header) : State :=
  { state with header := Function.update state.header p header }

def setPtr (state : State) (p q : Nat) : State :=
  state.setHeader p ⟨q, state.size p⟩

def setSize (state : State) (p size : Nat) : State :=
  state.setHeader p ⟨state.ptr p, size⟩

def setFreep (state : State) (p : Nat) : State :=
  { state with freep := some p }

/-! ## `free` -/

/-- Where the loop of `free` stops. -/
def Stops (state : State) (bp p : Nat) : Prop :=
  p < bp ∧ bp < state.ptr p ∨ state.ptr p ≤ p ∧ (p < bp ∨ bp < state.ptr p)

instance (state : State) (bp p : Nat) : Decidable (state.Stops bp p) :=
  inferInstanceAs (Decidable (_ ∨ _))

def search (state : State) (bp : Nat) : Nat → Nat → Option Nat
  | 0, _ => none
  | fuel + 1, p => if state.Stops bp p then some p else state.search bp fuel (state.ptr p)

/-- `free` joins the block with the one after it, or links to it. -/
def joinNext (state : State) (bp p : Nat) : State :=
  if plus bp (state.size bp) = state.ptr p then
    state.setHeader bp
      ⟨state.ptr (state.ptr p), (state.size bp + state.size (state.ptr p)) % 2 ^ 32⟩
  else state.setPtr bp (state.ptr p)

/-- `free` joins the block with the one before it, or links it. -/
def joinPrevious (state : State) (bp p : Nat) : State :=
  if plus p (state.size p) = bp then
    state.setHeader p ⟨state.ptr bp, (state.size p + state.size bp) % 2 ^ 32⟩
  else state.setPtr p bp

def freeBlock (state : State) (bp : Nat) : Option State :=
  state.freep.bind fun start =>
    (state.search bp rounds start).map fun p =>
      ((state.joinNext bp p).joinPrevious bp p).setFreep p

def free (state : State) (ap : Nat) : Option State :=
  state.freeBlock (block ap)

/-! ## `malloc` -/

/-- A call of `sbrk` and the end of the heap after it. -/
def record (state : State) (call : Int × Option Nat) (brk : Nat) : State :=
  { state with brk := brk, calls := call :: state.calls }

/-- `sbrk`, whose `growproc` fails at the kernel and for the whole memory, and does nothing
when more than that is taken away. -/
def sbrk (state : State) (grant : Nat) (n : Int) : Option Nat × State :=
  let p := state.brk + (grant - 1)
  if grant = 0 ∨ 2 ^ 31 ≤ p + n ∨ n < 0 ∧ p + n = 0 then (none, state.record (n, none) state.brk)
  else (some p, state.record (n, some p) (if p + n < 0 then p else (p + n).toNat))

/-- The units that `morecore` asks for. -/
def coreUnits (nu : Nat) : Nat :=
  if nu < 4096 then 4096 else nu

/-- `nu * sizeof(Header)` as the `int` that `sbrk` takes. -/
def amount (nu : Nat) : Int :=
  toInt (8 * coreUnits nu % 2 ^ 32)

def morecore (state : State) (grant nu : Nat) : Option (Option Nat × State) :=
  match state.sbrk grant (amount nu) with
  | (none, state) => some (none, state)
  | (some p, state) =>
    ((state.setSize p (coreUnits nu)).free (plus p 1)).map fun state => (state.freep, state)

/-- `malloc` takes units from the end of the block at `p`, which comes after
`prevp`. -/
def take (state : State) (nunits prevp p : Nat) : Option Nat × State :=
  if state.size p = nunits then
    (some (plus p 1), (state.setPtr prevp (state.ptr p)).setFreep prevp)
  else
    let rest := state.size p - nunits
    (some (plus (plus p rest) 1),
      ((state.setSize p rest).setSize (plus p rest) nunits).setFreep prevp)

def mallocLoop (grant nunits : Nat) : Nat → State → Nat → Nat → Option (Option Nat × State)
  | 0, _, _, _ => none
  | fuel + 1, state, prevp, p =>
    if nunits ≤ state.size p then some (state.take nunits prevp p)
    else if some p = state.freep then
      (state.morecore grant nunits).bind fun result =>
        match result with
        | (none, state) => some (none, state)
        | (some p, state) => mallocLoop grant nunits fuel state p (state.ptr p)
    else mallocLoop grant nunits fuel state p (state.ptr p)

/-- The units that `malloc` needs for a number of bytes, and a header. -/
def nunits (nbytes : Nat) : Nat :=
  (nbytes + 7) % 2 ^ 32 / 8 + 1

/-- The list with `base` alone, if there is none. -/
def start (state : State) (base : Nat) : State :=
  match state.freep with
  | some _ => state
  | none => (state.setHeader base ⟨base, 0⟩).setFreep base

def malloc (state : State) (base nbytes grant : Nat) : Option (Option Nat × State) :=
  (state.start base).freep.bind fun prevp =>
    mallocLoop grant (nunits nbytes) rounds (state.start base) prevp
      ((state.start base).ptr prevp)

def initial (heap : Nat) : State where
  header _ := ⟨0, 0⟩
  freep := none
  brk := heap
  calls := []

end State

/-! ## Programs -/

/-- The allocator and the addresses of the blocks that the program has. -/
structure World where
  state : State
  allocated : List Nat

/-- A call of the program.  The second argument of `malloc` is the answer to `sbrk`. -/
inductive Label
  | malloc (nbytes grant : Nat)
  | free (ap : Nat)

/-- A program asks for less than 2 GB, and frees what it was given. -/
def World.step (base : Nat) (world : World) : Label → Option World
  | .malloc nbytes grant =>
    if nbytes < 2 ^ 31 - 2 ^ 16 then
      (world.state.malloc base nbytes grant).map fun result =>
        ⟨result.2, (result.1.map block).toList ++ world.allocated⟩
    else none
  | .free ap =>
    if block ap ∈ world.allocated then
      (world.state.free ap).map fun state => ⟨state, world.allocated.erase (block ap)⟩
    else none

/-- Sequences of calls of a program with the given addresses of `base` and of its
heap. -/
abbrev HeapRun (base heap : Nat) : List (World × Label) → World → Prop :=
  Run (World.step base) ⟨State.initial heap, []⟩

/-! ## Blocks -/

def State.bytes (state : State) (p : Nat) : Set Nat :=
  {address | p ≤ address ∧ address < p + 8 * state.size p}

def State.obtained (state : State) : Set Nat :=
  {address | ∃ n p, (n, some p) ∈ state.calls ∧ p ≤ address ∧ (address : Int) < p + n}

/-- The list of free blocks with `base` at its head, and the blocks of the program,
make up the heap. -/
structure FreeListExact (base : Nat) (world : World) (cells : List Nat) : Prop where
  head : cells.head? = some base
  freep : ∃ p ∈ cells, world.state.freep = some p
  ring : IsRing world.state.ptr cells
  increasing : cells.Pairwise (· < ·)
  disjoint : (cells ++ world.allocated).Pairwise fun p q =>
    ∀ address ∈ world.state.bytes p, address ∉ world.state.bytes q
  memory : ∀ address, (∃ p ∈ cells ++ world.allocated, address ∈ world.state.bytes p) ↔
    address ∈ world.state.obtained
  apart : ∀ p ∈ cells, ∀ q ∈ cells, p + 8 * world.state.size p = q → p = q

/-- Before the first call there are no blocks. -/
def Exact (base : Nat) (world : World) : Prop :=
  world.state.freep = none ∧ world.allocated = [] ∧ world.state.obtained = ∅ ∨
    ∃ cells, FreeListExact base world cells

end Umalloc

end Xv6
