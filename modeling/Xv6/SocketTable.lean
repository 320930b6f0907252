import Mathlib.Data.Fintype.Card
import Mathlib.Data.Fin.Basic
import Xv6.CStrings

/-!
# The socket table

The data model of `sock.h` and the table helpers of `sock.c`: slot lookup by
port and by owner, allocation, reset and the choice of a free port.  Pointers
into `stable.sock` are slot indices and the null pointer is `none`; the type
of process pointers is a parameter.  All functions here run with
`stable.lock` held and are pure functions of the table.
-/

namespace Xv6

namespace Socket

open CString

abbrev nport : Int := 128

abbrev nsock : Nat := 32

/-- `SBUFFSIZE`: bytes of a receive buffer. -/
abbrev sbuffsize : Nat := 128

abbrev invPort : Int := -1

/-- The error codes of `signalcodes.h`. -/
def eMissingArg : Int := -1
def eNotfound : Int := -1025
def eAccessDenied : Int := -1026
def eWrongState : Int := -1027
def eFail : Int := -1028
def eInvalidArg : Int := -1029
def eConnectionResetByRemote : Int := -1030

inductive SockState
  | closed
  | opened
  | listening
  | connected
  deriving DecidableEq, Repr

abbrev Slot : Type := Fin nsock

structure Sock (Proc : Type) where
  sid : Int
  state : SockState
  owner : Option Proc
  recvbuffer : Fin sbuffsize → UInt8
  hasfullbuffer : Bool
  lPort : Int
  rPort : Int

/-- `stable.sock` with the two counters kept beside it. -/
structure SockTable (Proc : Type) where
  sock : Slot → Sock Proc
  countSock : Int
  nextsid : Int

/-- `DISCARD_INV_PORT` rejects the ports outside this range. -/
def ValidPort (port : Int) : Prop :=
  0 ≤ port ∧ port < nport

instance (port : Int) : Decidable (ValidPort port) :=
  inferInstanceAs (Decidable (_ ∧ _))

/-- The scans over an array: the first index that passes a test.  Kept
irreducible so that no proof unfolds a scan. -/
@[irreducible]
def firstIndex {size : Nat} (test : Fin size → Bool) : Option (Fin size) :=
  Fin.find? test

variable {size : Nat}

theorem firstIndex_eq_some {test : Fin size → Bool} {index : Fin size}
    (found : firstIndex test = some index) : test index = true := by
  rw [firstIndex] at found
  exact (Fin.find?_eq_some_iff.mp found).1

theorem firstIndex_eq_false_of_lt {test : Fin size → Bool} {index earlier : Fin size}
    (found : firstIndex test = some index) (before : earlier < index) : test earlier = false := by
  rw [firstIndex] at found
  exact (Fin.find?_eq_some_iff.mp found).2 earlier before

theorem firstIndex_eq_none_iff {test : Fin size → Bool} :
    firstIndex test = none ↔ ∀ index, test index = false := by
  rw [firstIndex]
  exact Fin.find?_eq_none_iff

variable {Proc : Type}

/-- `setsockvalue`: overwrite every field, or only those whose argument
differs from its default. -/
def setsockvalue (sid : Int) (state : SockState) (owner : Option Proc) (lPort rPort : Int)
    (hasfullbuffer : Bool) (buff : List UInt8) (overWriteToDef : Bool)
    (socket : Sock Proc) : Sock Proc :=
  if overWriteToDef then
    { owner := owner
      state := state
      lPort := lPort
      rPort := rPort
      hasfullbuffer := hasfullbuffer
      sid := sid
      recvbuffer := strncpy socket.recvbuffer buff 1 }
  else
    { owner := if owner.isSome then owner else socket.owner
      state := if state ≠ .closed then state else socket.state
      lPort := if lPort ≠ invPort then lPort else socket.lPort
      rPort := if rPort ≠ invPort then rPort else socket.rPort
      hasfullbuffer := if hasfullbuffer then hasfullbuffer else socket.hasfullbuffer
      sid := if sid ≠ -1 then sid else socket.sid
      recvbuffer :=
        if strncmp buff [] 1 ≠ 0 then strncpy socket.recvbuffer buff 1
        else socket.recvbuffer }

/-- `resetsock`: the default value of every field. -/
def resetsock (socket : Sock Proc) : Sock Proc :=
  setsockvalue (-1) .closed none invPort invPort false [] true socket

namespace SockTable

def modify (table : SockTable Proc) (slot : Slot) (change : Sock Proc → Sock Proc) :
    SockTable Proc :=
  { table with sock := Function.update table.sock slot (change (table.sock slot)) }

/-- `getsock`: the first slot that is not closed and has the port. -/
def getsock (table : SockTable Proc) (port : Int) : Option Slot :=
  if 0 ≤ port ∧ port < nport then
    firstIndex fun slot =>
      decide ((table.sock slot).state ≠ .closed ∧ (table.sock slot).lPort = port)
  else
    none

def closedSlot (table : SockTable Proc) : Option Slot :=
  firstIndex fun slot => decide ((table.sock slot).state = .closed)

/-- The assignments of `allocsock` to the slot it found and to the counters. -/
def opensock (table : SockTable Proc) (myproc : Proc) (lport : Int) (slot : Slot) :
    SockTable Proc where
  sock := Function.update table.sock slot
    (setsockvalue table.nextsid .opened (some myproc) lport invPort false [] true
      (table.sock slot))
  countSock := table.countSock + 1
  nextsid := table.nextsid + 1

/-- `allocsock`: open the first closed slot at an unused port. -/
def allocsock (table : SockTable Proc) (myproc : Proc) (lport : Int) :
    Option (Slot × SockTable Proc) :=
  if lport < 0 ∨ nport ≤ lport ∨ (table.getsock lport).isSome then
    none
  else
    match table.closedSlot with
    | none => none
    | some slot => some (slot, table.opensock myproc lport slot)

def getfreeportFrom (table : SockTable Proc) : Nat → Int
  | 0 => invPort
  | port + 1 =>
    if table.getsock (port + 1 : Nat) = none then (port + 1 : Nat)
    else table.getfreeportFrom port

/-- `getfreeport`: the highest unused port above zero. -/
def getfreeport (table : SockTable Proc) : Int :=
  table.getfreeportFrom (nport - 1).toNat

/-- `getprocsock`: the first open slot of a process. -/
def getprocsock [DecidableEq Proc] (table : SockTable Proc) (process : Proc) : Option Slot :=
  firstIndex fun slot =>
    decide ((table.sock slot).state ≠ .closed ∧ (table.sock slot).owner = some process)

/-- The table half of `removesock`: reset the slot and lower the count. -/
def dropsock (table : SockTable Proc) (slot : Slot) : SockTable Proc :=
  { table.modify slot resetsock with countSock := table.countSock - 1 }

/-- `sinit` over zeroed memory: every slot is closed. -/
def initial : SockTable Proc where
  sock _ :=
    { sid := 0, state := .closed, owner := none, recvbuffer := fun _ => 0
      hasfullbuffer := false, lPort := 0, rPort := 0 }
  countSock := 0
  nextsid := 0

/-! ## Assignments -/

@[simp]
theorem modify_sock_self (table : SockTable Proc) (slot : Slot)
    (change : Sock Proc → Sock Proc) :
    (table.modify slot change).sock slot = change (table.sock slot) := by
  simp [modify]

variable {slot other : Slot} {table : SockTable Proc} {port : Int}

theorem modify_sock_of_ne (table : SockTable Proc) (change : Sock Proc → Sock Proc)
    (different : other ≠ slot) : (table.modify slot change).sock other = table.sock other := by
  simp [modify, different]

@[simp]
theorem opensock_sock_self (table : SockTable Proc) (myproc : Proc) (lport : Int)
    (slot : Slot) :
    (table.opensock myproc lport slot).sock slot =
      setsockvalue table.nextsid .opened (some myproc) lport invPort false [] true
        (table.sock slot) := by
  simp [opensock]

theorem opensock_sock_of_ne (table : SockTable Proc) (myproc : Proc) (lport : Int)
    (different : other ≠ slot) :
    (table.opensock myproc lport slot).sock other = table.sock other := by
  simp [opensock, different]

@[simp]
theorem dropsock_sock_self (table : SockTable Proc) (slot : Slot) :
    (table.dropsock slot).sock slot = resetsock (table.sock slot) := by
  simp [dropsock]

theorem dropsock_sock_of_ne (table : SockTable Proc) (different : other ≠ slot) :
    (table.dropsock slot).sock other = table.sock other :=
  table.modify_sock_of_ne resetsock different

/-! ## Lookup -/

def IsOpen (table : SockTable Proc) (slot : Slot) : Prop :=
  (table.sock slot).state ≠ .closed

instance (table : SockTable Proc) (slot : Slot) : Decidable (table.IsOpen slot) :=
  inferInstanceAs (Decidable (_ ≠ _))

def PortsDistinct (table : SockTable Proc) : Prop :=
  ∀ first second, table.IsOpen first → table.IsOpen second →
    (table.sock first).lPort = (table.sock second).lPort → first = second

theorem getsock_spec (found : table.getsock port = some slot) :
    ValidPort port ∧ table.IsOpen slot ∧ (table.sock slot).lPort = port := by
  unfold getsock at found
  split at found
  case isTrue valid =>
      have matched := firstIndex_eq_some found
      simp only [decide_eq_true_eq] at matched
      exact ⟨valid, matched⟩
  case isFalse => simp at found

theorem getsock_eq_none_iff (valid : ValidPort port) :
    table.getsock port = none ↔
      ∀ slot, table.IsOpen slot → (table.sock slot).lPort ≠ port := by
  unfold getsock
  rw [if_pos (show 0 ≤ port ∧ port < nport from valid), firstIndex_eq_none_iff]
  simp [IsOpen]

theorem getsock_eq_some_iff (distinct : table.PortsDistinct) (valid : ValidPort port) :
    table.getsock port = some slot ↔
      table.IsOpen slot ∧ (table.sock slot).lPort = port := by
  constructor
  · intro found
    exact (getsock_spec found).2
  · rintro ⟨isOpen, atPort⟩
    cases found : table.getsock port with
    | none => exact absurd atPort ((getsock_eq_none_iff valid).mp found slot isOpen)
    | some other =>
      obtain ⟨-, otherOpen, otherPort⟩ := getsock_spec found
      rw [distinct other slot otherOpen isOpen (otherPort.trans atPort.symm)]

theorem getsock_congr {first second : SockTable Proc}
    (states : ∀ slot, (first.sock slot).state = (second.sock slot).state)
    (ports : ∀ slot, (first.sock slot).lPort = (second.sock slot).lPort) (port : Int) :
    first.getsock port = second.getsock port := by
  simp only [getsock, states, ports]

theorem closedSlot_spec (found : table.closedSlot = some slot) : ¬ table.IsOpen slot := by
  have matched := firstIndex_eq_some found
  simpa [IsOpen] using matched

theorem allocsock_spec {next : SockTable Proc} {myproc : Proc} {lport : Int}
    (allocated : table.allocsock myproc lport = some (slot, next)) :
    ValidPort lport ∧ table.getsock lport = none ∧ ¬ table.IsOpen slot ∧
      next = table.opensock myproc lport slot := by
  unfold allocsock at allocated
  split at allocated
  case isTrue => simp at allocated
  case isFalse usable =>
      simp only [not_or, not_lt, not_le, Option.not_isSome_iff_eq_none] at usable
      cases found : table.closedSlot with
      | none => simp [found] at allocated
      | some free =>
        simp only [found, Option.some.injEq, Prod.mk.injEq] at allocated
        obtain ⟨rfl, rfl⟩ := allocated
        exact ⟨⟨usable.1, usable.2.1⟩, usable.2.2, closedSlot_spec found, rfl⟩

theorem getprocsock_spec [DecidableEq Proc] {process : Proc}
    (found : table.getprocsock process = some slot) :
    table.IsOpen slot ∧ (table.sock slot).owner = some process := by
  have matched := firstIndex_eq_some found
  simpa [IsOpen] using matched

end SockTable

end Socket

end Xv6
