import Mathlib.Order.Bounds.Basic
import Xv6.SocketErrors

/-!
# The port and the host of a connection

`connect` gives the new socket the highest port above zero at which there is no
socket, and pairs it with the listener.  It compares the host with each of the
two names it allows only up to the length of the host, so that it takes every
string one of the names starts with.
-/

namespace Xv6

namespace Socket

open CString LabelledRun

variable {Proc : Type}

/-! ## Free ports -/

namespace SockTable

theorem inUse_of_getfreeportFrom_lt {table : SockTable Proc} {start : Nat} (below : start < nport)
    {port : Nat} (above : table.getfreeportFrom start < port) (passed : port ≤ start)
    (positive : 0 < port) : table.InUse port := by
  induction start with
  | zero => omega
  | succ start ih =>
    have valid : ValidPort (start + 1 : Nat) := ⟨by omega, below⟩
    rw [getfreeportFrom] at above
    split at above
    · omega
    · rename_i found
      by_cases last : port = start + 1
      · subst last
        by_contra unused
        exact found ((getsock_eq_none_iff_not_inUse valid).mpr unused)
      · exact ih (by omega) above (by omega)

def freePorts (table : SockTable Proc) : Set Int :=
  {port | 1 ≤ port ∧ port ≤ nport - 1 ∧ ¬ table.InUse port}

theorem isGreatest_getfreeport (table : SockTable Proc) :
    IsGreatest table.freePorts table.getfreeport := by
  obtain ⟨positive, valid, free⟩ := table.getfreeport_spec
  refine ⟨⟨positive, Int.le_sub_one_of_lt valid.2, free⟩, ?_⟩
  rintro port ⟨least, most, unused⟩
  by_contra above
  obtain ⟨number, rfl⟩ := Int.eq_ofNat_of_zero_le (show 0 ≤ port by omega)
  have passed : number ≤ (nport - 1).toNat := by
    omega
  exact unused (inUse_of_getfreeportFrom_lt (by decide) (not_le.mp above) passed (by omega))

end SockTable

/-- Two sockets that are connected with each other and have not been sent
anything. -/
structure Paired (first second : Sock Proc) : Prop where
  states : first.state = .connected ∧ second.state = .connected
  remote : first.rPort = second.lPort
  loc : second.rPort = first.lPort
  empty : first.hasfullbuffer = false ∧ second.hasfullbuffer = false

/-- What a successful `connect` does to the table. -/
structure Connects (rport lport : Int) (table next : SockTable Proc) : Prop where
  otherPort : lport ≠ rport
  fresh : ∀ slot, table.IsOpen slot → (table.sock slot).lPort ≠ lport
  pairs : ∃ loc rem, ¬ table.IsOpen loc ∧ table.getsock rport = some rem ∧
    (next.sock loc).lPort = lport ∧ (next.sock rem).lPort = rport ∧
      Paired (next.sock loc) (next.sock rem) ∧
        ∀ other, other ≠ loc → other ≠ rem → next.sock other = table.sock other

theorem connects_connectTable {table : SockTable Proc} {rport : Int} {loc rem : Slot}
    (found : table.getsock rport = some rem) (closed : ¬ table.IsOpen loc) (process : Proc) :
    Connects rport table.getfreeport table
      (table.connectTable process table.getfreeport loc rem) := by
  obtain ⟨-, -, free⟩ := table.getfreeport_spec
  obtain ⟨-, isOpen, atPort⟩ := SockTable.getsock_spec found
  have different : rem ≠ loc := fun same => closed (same ▸ isOpen)
  have client := table.connectTable_sock_client process table.getfreeport different
  have listener := table.connectTable_sock_listener process table.getfreeport different
  constructor
  case otherPort => exact fun same => free ⟨rem, isOpen, same ▸ atPort⟩
  case fresh => exact fun slot slotOpen slotPort => free ⟨slot, slotOpen, slotPort⟩
  case pairs =>
    have paired : Paired ((table.connectTable process table.getfreeport loc rem).sock loc)
        ((table.connectTable process table.getfreeport loc rem).sock rem) := by
      rw [client, listener]
      exact ⟨⟨rfl, rfl⟩, rfl, rfl, rfl, rfl⟩
    refine ⟨loc, rem, closed, found, ?_, ?_, paired, ?_⟩
    · rw [client]
      rfl
    · rw [listener]
      exact atPort
    · intro other notClient notListener
      exact table.connectTable_sock_of_ne process table.getfreeport notClient notListener

theorem connect_of_refused (process : Proc) {rport : Int} {host : CStr} (world : World Proc)
    (refused : ¬ (ValidPort rport ∧ HostAccepted host)) :
    connect process rport host world = retsockfunc world eInvalidArg := by
  grind [connect]

/-- The ways through `connect` after its checks: it returns an error and changes nothing,
or it pairs the listener with a new socket. -/
theorem connect_cases (process : Proc) {rport : Int} (valid : ValidPort rport) {host : CStr}
    (accepted : HostAccepted host) (world : World Proc) :
    (∃ code ∈ [eNotfound, eWrongState, eFail],
        connect process rport host world = retsockfunc world code) ∨
      (connect process rport host world).code = some world.stable.getfreeport ∧
        Connects rport world.stable.getfreeport world.stable
          (connect process rport host world).world.stable := by
  cases found : world.stable.getsock rport with
  | none =>
    have unused := (SockTable.getsock_eq_none_iff_not_inUse valid).mp found
    exact .inl ⟨eNotfound, by simp, connect_of_unused process valid accepted unused⟩
  | some rem =>
    by_cases listening : (world.stable.sock rem).state = .listening
    case neg =>
      exact .inl ⟨eWrongState, by simp,
        connect_of_not_listening process valid accepted found listening⟩
    by_cases full : world.stable.Full
    · exact .inl ⟨eFail, by simp, connect_of_full process valid accepted found listening full⟩
    · obtain ⟨loc, closed, result⟩ :=
        connect_of_room process valid accepted found listening full
      rw [result]
      exact .inr ⟨rfl, connects_connectTable found closed process⟩

/-- A new client gets the greatest free port, and there is always one.  A `connect` that
returns a port connects the listener with a new socket at this port and does nothing
else to the table. -/
theorem connect_fresh_port (table : SockTable Proc) :
    IsGreatest table.freePorts table.getfreeport ∧ table.getfreeport ≠ invPort ∧
      ∀ (world : World Proc) (process : Proc) (rport : Int) (host : CStr) (lport : Int),
        world.stable = table → (connect process rport host world).code = some lport →
          0 ≤ lport → lport = table.getfreeport ∧
            Connects rport lport table (connect process rport host world).world.stable := by
  refine ⟨table.isGreatest_getfreeport, table.getfreeport_ne_invPort, ?_⟩
  rintro world process rport host lport rfl returns success
  by_cases checked : ValidPort rport ∧ HostAccepted host
  case neg =>
    rw [connect_of_refused process world checked] at returns
    obtain rfl := Option.some.inj returns
    exact absurd success (by decide)
  rcases connect_cases process checked.1 checked.2 world with
    ⟨code, isError, result⟩ | ⟨code, connects⟩
  · rw [result] at returns
    obtain rfl := Option.some.inj returns
    have negative : ∀ code ∈ [eNotfound, eWrongState, eFail], code < 0 := by decide
    exact absurd success (not_le.mpr (negative code isError))
  · obtain rfl := Option.some.inj (code.symm.trans returns)
    exact ⟨rfl, connects⟩

/-- The first client of a listener at port 10 gets port 127. -/
theorem connect_fresh_port_first :
    ∃ world : World (Fin 2), (connect 1 10 localHost world).code = some 127 ∧
      Connects 10 127 world.stable (connect 1 10 localHost world).world.stable := by
  have returns : (connect 1 10 localHost
      (listen 0 10 (World.initial : World (Fin 2))).world).code = some 127 := by
    decide +kernel
  obtain ⟨-, -, succeeds⟩ :=
    connect_fresh_port (listen 0 10 (World.initial : World (Fin 2))).world.stable
  exact ⟨_, returns, (succeeds _ 1 10 localHost 127 rfl returns (by decide)).2⟩

/-! ## The host -/

/-- A string is compared with a name up to its own length. -/
theorem strncmp_length_eq_zero_iff {host text : List UInt8} (free : 0 ∉ host)
    (textFree : 0 ∉ text) : strncmp host text host.length = 0 ↔ host <+: text := by
  rw [strncmp_eq_zero_iff, ofBytes_eq_self free, ofBytes_eq_self textFree, List.take_length,
    List.prefix_iff_eq_take]

/-- `connect` allows the strings that one of the names starts with. -/
theorem hostAccepted_iff (host : CStr) :
    HostAccepted host ↔ host.1 <+: localhost ∨ host.1 <+: loopback := by
  rw [HostAccepted, strlen_eq_length host.2, strncmp_length_eq_zero_iff host.2 (by decide),
    strncmp_length_eq_zero_iff host.2 (by decide)]

def ProperPrefix (host name : List UInt8) : Prop :=
  host <+: name ∧ host ≠ name

theorem connect_code_eq_eInvalidArg_iff (process : Proc) {rport : Int} (valid : ValidPort rport)
    (host : CStr) (world : World Proc) :
    (connect process rport host world).code = some eInvalidArg ↔ ¬ HostAccepted host := by
  constructor
  · intro returns accepted
    rcases connect_cases process valid accepted world with ⟨code, isError, result⟩ | ⟨code, -⟩
    · rw [result] at returns
      cases returns
      exact absurd isError (by decide)
    · have positive := world.stable.getfreeport_spec.1
      rw [code, Option.some.injEq] at returns
      rw [returns] at positive
      cases positive
  · intro refused
    rw [connect_of_refused process world fun checked => refused checked.2]
    rfl

/-- `connect` gets past its host check for the two names only, exactly if the host is not
the beginning of one of them. -/
theorem host_filter_exact_iff (process : Proc) {rport : Int} (valid : ValidPort rport)
    (host : CStr) (world : World Proc) :
    ((connect process rport host world).code ≠ some eInvalidArg ↔
        host.1 = localhost ∨ host.1 = loopback) ↔
      ¬ ProperPrefix host.1 localhost ∧ ¬ ProperPrefix host.1 loopback := by
  rw [ne_eq, connect_code_eq_eInvalidArg_iff process valid, not_not, hostAccepted_iff]
  constructor
  · rintro same
    constructor
    · rintro ⟨begins, other⟩
      rcases same.mp (.inl begins) with isName | isName
      · exact other isName
      · exact absurd (isName ▸ begins) (by decide)
    · rintro ⟨begins, other⟩
      rcases same.mp (.inr begins) with isName | isName
      · exact absurd (isName ▸ begins) (by decide)
      · exact other isName
  · rintro ⟨notFirst, notSecond⟩
    refine Iff.intro (Or.imp ?_ ?_) (Or.imp ?_ ?_)
    · exact fun begins => by_contra fun other => notFirst ⟨begins, other⟩
    · exact fun begins => by_contra fun other => notSecond ⟨begins, other⟩
    · exact fun isName => isName ▸ List.prefix_refl _
    · exact fun isName => isName ▸ List.prefix_refl _

theorem host_filter_exact_localHost :
    (connect 1 10 localHost (World.initial : World (Fin 2))).code ≠ some eInvalidArg := by
  refine ((host_filter_exact_iff 1 (by decide) localHost World.initial).mpr ?_).mpr (.inl rfl)
  simp [ProperPrefix, localHost, localhost, loopback, List.prefix_iff_eq_take]

/-- The empty string is taken for a host: the listener is looked up and connected. -/
theorem connect_accepts_empty_host :
    (connect 1 10 ⟨[], List.not_mem_nil⟩
        (listen 0 10 (World.initial : World (Fin 2))).world).code = some 127 ∧
      ([] : List UInt8) ≠ localhost ∧ ([] : List UInt8) ≠ loopback := by
  decide +kernel

end Socket

end Xv6
