import Mathlib.Data.Finset.Card
import Mathlib.Data.Fintype.Basic
import Mathlib.Tactic.NormNum
import Xv6.SocketEffects

/-!
# The representation invariant of the socket table

The count kept beside the table agrees with the open slots, open sockets have
distinct valid ports, none of them is left half opened, and the remote port is set
exactly for connected sockets.
-/

namespace Xv6

namespace Socket

variable {Proc : Type}

structure TableInvariant (table : SockTable Proc) : Prop where
  count : table.countSock = (Finset.univ.filter table.IsOpen).card
  distinct : table.PortsDistinct
  local_valid : ∀ slot, table.IsOpen slot → ValidPort (table.sock slot).lPort
  settled : ∀ slot, table.IsOpen slot →
    (table.sock slot).state = .listening ∨ (table.sock slot).state = .connected
  remote_valid : ∀ slot, (table.sock slot).state = .connected →
    ValidPort (table.sock slot).rPort
  remote_unset : ∀ slot, (table.sock slot).state = .listening →
    (table.sock slot).rPort = invPort

def SameLink (first second : Sock Proc) : Prop :=
  first.state = second.state ∧ first.owner = second.owner ∧
    first.lPort = second.lPort ∧ first.rPort = second.rPort

theorem SameLink.refl (socket : Sock Proc) : SameLink socket socket :=
  ⟨rfl, rfl, rfl, rfl⟩

theorem SameLink.trans {first second third : Sock Proc} (before : SameLink first second)
    (after : SameLink second third) : SameLink first third :=
  ⟨before.1.trans after.1, before.2.1.trans after.2.1, before.2.2.1.trans after.2.2.1,
    before.2.2.2.trans after.2.2.2⟩

theorem SameLink.of_eq {first second : Sock Proc} (same : first = second) :
    SameLink first second :=
  same ▸ .refl first

variable {table next : SockTable Proc} {slot : Slot}

theorem sameLink_modify {change : Sock Proc → Sock Proc}
    (keeps : ∀ socket, SameLink (change socket) socket) (other : Slot) :
    SameLink ((table.modify slot change).sock other) (table.sock other) := by
  by_cases same : other = slot
  · simp_all
  · exact .of_eq (table.modify_sock_of_ne change same)

theorem sameLink_storeData (data : CStr) (n : Int) (socket : Sock Proc) :
    SameLink (storeData data n socket) socket :=
  ⟨rfl, rfl, rfl, rfl⟩

theorem sameLink_emptyBuffer (socket : Sock Proc) : SameLink (emptyBuffer socket) socket :=
  ⟨rfl, rfl, rfl, rfl⟩

/-! ## Counting open slots -/

theorem isOpen_filter_open (nowOpen : next.IsOpen slot)
    (rest : ∀ other, other ≠ slot → (next.IsOpen other ↔ table.IsOpen other)) :
    Finset.univ.filter next.IsOpen = insert slot (Finset.univ.filter table.IsOpen) := by
  grind

theorem isOpen_filter_close (nowClosed : ¬ next.IsOpen slot)
    (rest : ∀ other, other ≠ slot → (next.IsOpen other ↔ table.IsOpen other)) :
    Finset.univ.filter next.IsOpen = (Finset.univ.filter table.IsOpen).erase slot := by
  grind

theorem TableInvariant.count_open (holds : TableInvariant table) (free : ¬ table.IsOpen slot)
    (nowOpen : next.IsOpen slot)
    (rest : ∀ other, other ≠ slot → (next.IsOpen other ↔ table.IsOpen other))
    (counted : next.countSock = table.countSock + 1) :
    next.countSock = (Finset.univ.filter next.IsOpen).card := by
  rw [isOpen_filter_open nowOpen rest, Finset.card_insert_of_notMem (by simpa using free),
    counted, holds.count]
  norm_num

theorem TableInvariant.count_close (holds : TableInvariant table) (wasOpen : table.IsOpen slot)
    (nowClosed : ¬ next.IsOpen slot)
    (rest : ∀ other, other ≠ slot → (next.IsOpen other ↔ table.IsOpen other))
    (counted : next.countSock = table.countSock - 1) :
    next.countSock = (Finset.univ.filter next.IsOpen).card := by
  have member : slot ∈ Finset.univ.filter table.IsOpen := by simpa using wasOpen
  have positive : 0 < (Finset.univ.filter table.IsOpen).card := Finset.card_pos.mpr ⟨slot, member⟩
  rw [isOpen_filter_close nowClosed rest, Finset.card_erase_of_mem member, counted, holds.count]
  omega

theorem TableInvariant.count_bounds (holds : TableInvariant table) :
    0 ≤ table.countSock ∧ table.countSock ≤ nsock := by
  have bound := Finset.card_filter_le (Finset.univ : Finset Slot) table.IsOpen
  rw [Finset.card_univ, Fintype.card_fin] at bound
  have count := holds.count
  omega

/-! ## The table invariant under the table updates -/

theorem TableInvariant.congr (holds : TableInvariant table)
    (links : ∀ slot, SameLink (next.sock slot) (table.sock slot))
    (counted : next.countSock = table.countSock) : TableInvariant next := by
  have opens : ∀ slot, next.IsOpen slot ↔ table.IsOpen slot := fun slot => by
    simp only [SockTable.IsOpen, (links slot).1]
  constructor
  · simp only [counted, holds.count, opens]
  · intro first second firstOpen secondOpen samePort
    rw [(links first).2.2.1, (links second).2.2.1] at samePort
    exact holds.distinct first second ((opens first).mp firstOpen) ((opens second).mp secondOpen)
      samePort
  · intro slot isOpen
    rw [(links slot).2.2.1]
    exact holds.local_valid slot ((opens slot).mp isOpen)
  · intro slot isOpen
    rw [(links slot).1]
    exact holds.settled slot ((opens slot).mp isOpen)
  · intro slot linked
    rw [(links slot).1] at linked
    rw [(links slot).2.2.2]
    exact holds.remote_valid slot linked
  · intro slot listening
    rw [(links slot).1] at listening
    rw [(links slot).2.2.2]
    exact holds.remote_unset slot listening

theorem SockTable.PortsDistinct.extend {port : Int} (distinct : table.PortsDistinct)
    (valid : ValidPort port) (unused : table.getsock port = none)
    (atPort : (next.sock slot).lPort = port)
    (opens : ∀ other, other ≠ slot → (next.IsOpen other ↔ table.IsOpen other))
    (ports : ∀ other, other ≠ slot → (next.sock other).lPort = (table.sock other).lPort) :
    next.PortsDistinct := by
  have fresh : ∀ other, other ≠ slot → next.IsOpen other → (next.sock other).lPort ≠ port := by
    grind [SockTable.getsock_eq_none_iff]
  intro first second firstOpen secondOpen samePort
  by_cases firstNew : first = slot
  · grind
  · by_cases secondNew : second = slot
    · grind
    · rw [ports first firstNew, ports second secondNew] at samePort
      exact distinct first second ((opens first firstNew).mp firstOpen)
        ((opens second secondNew).mp secondOpen) samePort

theorem TableInvariant.listen (holds : TableInvariant table) (process : Proc) {lport : Int}
    (valid : ValidPort lport) (unused : table.getsock lport = none) (free : ¬ table.IsOpen slot) :
    TableInvariant (table.listenTable process lport slot) := by
  have elsewhere : ∀ other, other ≠ slot →
      (table.listenTable process lport slot).sock other = table.sock other :=
    fun other different => table.listenTable_sock_of_ne process lport different
  have opens : ∀ other, other ≠ slot →
      ((table.listenTable process lport slot).IsOpen other ↔ table.IsOpen other) :=
    fun other different => by simp only [SockTable.IsOpen, elsewhere other different]
  have nowOpen : (table.listenTable process lport slot).IsOpen slot := by
    simp [SockTable.IsOpen, setsockvalue]
  constructor
  · exact holds.count_open free nowOpen opens rfl
  · refine holds.distinct.extend valid unused (by simp [setsockvalue]) opens ?_
    intro other different
    rw [elsewhere other different]
  · intro other isOpen
    by_cases same : other = slot
    · simpa [same, setsockvalue] using valid
    · rw [elsewhere other same]
      exact holds.local_valid other ((opens other same).mp isOpen)
  · intro other isOpen
    by_cases same : other = slot
    · simp [same, setsockvalue]
    · rw [elsewhere other same]
      exact holds.settled other ((opens other same).mp isOpen)
  · intro other linked
    by_cases same : other = slot
    · simp [same, setsockvalue] at linked
    · rw [elsewhere other same] at linked ⊢
      exact holds.remote_valid other linked
  · intro other listening
    by_cases same : other = slot
    · simp [same, setsockvalue]
    · rw [elsewhere other same] at listening ⊢
      exact holds.remote_unset other listening

theorem listener_ne_client {loc rem : Slot} (listening : (table.sock rem).state = .listening)
    (free : ¬ table.IsOpen loc) : rem ≠ loc := by
  rintro rfl
  exact free (by simp [SockTable.IsOpen, listening])

theorem TableInvariant.connect (holds : TableInvariant table) (process : Proc) {lport : Int}
    {loc rem : Slot} (valid : ValidPort lport) (unused : table.getsock lport = none)
    (free : ¬ table.IsOpen loc) (listening : (table.sock rem).state = .listening) :
    TableInvariant (table.connectTable process lport loc rem) := by
  have different := listener_ne_client listening free
  have remOpen : table.IsOpen rem := by simp [SockTable.IsOpen, listening]
  have client := table.connectTable_sock_client process lport different
  have listener := table.connectTable_sock_listener process lport different
  have elsewhere : ∀ other, other ≠ loc → other ≠ rem →
      (table.connectTable process lport loc rem).sock other = table.sock other :=
    fun other notClient notListener =>
      table.connectTable_sock_of_ne process lport notClient notListener
  have opens : ∀ other, other ≠ loc →
      ((table.connectTable process lport loc rem).IsOpen other ↔ table.IsOpen other) := by
    intro other notClient
    by_cases same : other = rem
    · simp [same, SockTable.IsOpen, listener, listening]
    · simp only [SockTable.IsOpen, elsewhere other notClient same]
  constructor
  · refine holds.count_open free ?_ opens rfl
    simp [SockTable.IsOpen, client, setsockvalue]
  · refine holds.distinct.extend valid unused (by simp [client, setsockvalue]) opens ?_
    intro other notClient
    by_cases same : other = rem
    · simp [same, listener]
    · rw [elsewhere other notClient same]
  · intro other isOpen
    by_cases isClient : other = loc
    · simpa [isClient, client, setsockvalue] using valid
    · by_cases isListener : other = rem
      · simpa [isListener, listener] using holds.local_valid rem remOpen
      · rw [elsewhere other isClient isListener]
        exact holds.local_valid other ((opens other isClient).mp isOpen)
  · intro other isOpen
    by_cases isClient : other = loc
    · simp [isClient, client, setsockvalue]
    · by_cases isListener : other = rem
      · simp [isListener, listener]
      · rw [elsewhere other isClient isListener]
        exact holds.settled other ((opens other isClient).mp isOpen)
  · intro other linked
    by_cases isClient : other = loc
    · simpa [isClient, client, setsockvalue] using holds.local_valid rem remOpen
    · by_cases isListener : other = rem
      · simpa [isListener, listener] using valid
      · rw [elsewhere other isClient isListener] at linked ⊢
        exact holds.remote_valid other linked
  · intro other stillListening
    by_cases isClient : other = loc
    · simp [isClient, client, setsockvalue] at stillListening
    · by_cases isListener : other = rem
      · simp [isListener, listener] at stillListening
      · rw [elsewhere other isClient isListener] at stillListening ⊢
        exact holds.remote_unset other stillListening

theorem TableInvariant.drop (holds : TableInvariant table) (wasOpen : table.IsOpen slot) :
    TableInvariant (table.dropsock slot) := by
  have elsewhere : ∀ other, other ≠ slot → (table.dropsock slot).sock other = table.sock other :=
    fun other different => table.dropsock_sock_of_ne different
  have opens : ∀ other, other ≠ slot →
      ((table.dropsock slot).IsOpen other ↔ table.IsOpen other) :=
    fun other different => by simp only [SockTable.IsOpen, elsewhere other different]
  have nowClosed : ¬ (table.dropsock slot).IsOpen slot := by
    simp [SockTable.IsOpen, resetsock, setsockvalue]
  have survivor : ∀ other, (table.dropsock slot).IsOpen other → other ≠ slot := by
    grind
  constructor
  · exact holds.count_close wasOpen nowClosed opens rfl
  · intro first second firstOpen secondOpen samePort
    have firstNe := survivor first firstOpen
    have secondNe := survivor second secondOpen
    rw [elsewhere first firstNe, elsewhere second secondNe] at samePort
    exact holds.distinct first second ((opens first firstNe).mp firstOpen)
      ((opens second secondNe).mp secondOpen) samePort
  · intro other isOpen
    have different := survivor other isOpen
    rw [elsewhere other different]
    exact holds.local_valid other ((opens other different).mp isOpen)
  · intro other isOpen
    have different := survivor other isOpen
    rw [elsewhere other different]
    exact holds.settled other ((opens other different).mp isOpen)
  · intro other linked
    have different := survivor other (by simp [SockTable.IsOpen, linked])
    rw [elsewhere other different] at linked ⊢
    exact holds.remote_valid other linked
  · intro other listening
    have different := survivor other (by simp [SockTable.IsOpen, listening])
    rw [elsewhere other different] at listening ⊢
    exact holds.remote_unset other listening

end Socket

end Xv6
