import Xv6.KernelRoutines

/-!
# The lock order of the kernel

The kernel takes `stable.lock` before `ptable.lock`: a process that sleeps or
wakes others inside a socket call holds the first and acquires the second.  Every
routine keeps to that order except `kill`, which closes the sockets of the process
it found while it holds `ptable.lock`, and with an open socket acquires it again.
-/

namespace Xv6

namespace KernelLock

open CString LockMachine LabelledRun Socket

def Lock.rank : Lock → Nat
  | .other _ => 0
  | .stable => 1
  | .ptable => 2
  | .kmem => 3

/-- The parts of the socket calls that start with `stable.lock` and release it. -/
def underStable : Routine → Bool
  | .listenLocked _ | .connectLocked _ | .sendLocked _ _ _ | .sendAwake _ _ _ _
  | .recvLocked _ _ | .recvAwake _ _ | .recvEnd _ | .disconnectLocked _ => true
  | _ => false

/-- The routines after which the process is no longer `RUNNING`. -/
def stops : Routine → Bool
  | .block _ | .setRunnable | .passChildren => true
  | _ => false

/-- The contracts of the routines: the locks held and whether the process is
`RUNNING`, before and after. -/
inductive Keeps : Contract Lock Routine
  | ret {code : Int} {held : Finset Lock} {marked : Bool} :
      Keeps (.ret code) held marked held marked
  | wakeup {chan : Option Chan} {held : Finset Lock} :
      (∀ lock ∈ held, lock.rank < Lock.ptable.rank) → Keeps (.wakeup chan) held true held true
  | wakeup1 {chan : Option Chan} {held : Finset Lock} :
      .ptable ∈ held → Keeps (.wakeup1 chan) held true held true
  | sleep {chan : Chan} {lk : Lock} :
      lk = .ptable ∨ lk.rank < Lock.ptable.rank → Keeps (.sleep chan lk) {lk} true {lk} true
  | stop {routine : Routine} {held : Finset Lock} :
      stops routine = true → .ptable ∈ held → Keeps routine held true held false
  | tidyUp {held : Finset Lock} : .ptable ∈ held → Keeps .tidyUp held true held true
  | wakeKilled {process : Proc} {held : Finset Lock} :
      .ptable ∈ held → Keeps (.wakeKilled process) held true held true
  | killScan {pid : Int} : Keeps (.killScan pid) {.ptable} true ∅ true
  | waitScan : Keeps .waitScan {.ptable} true ∅ true
  | zombieExit : Keeps .zombieExit {.ptable} true ∅ true
  | kfree {held : Finset Lock} :
      (∀ lock ∈ held, lock.rank < Lock.kmem.rank) → Keeps .kfree held true held true
  | dropsock {socket : Slot} {held : Finset Lock} :
      .stable ∈ held → Keeps (.dropsock socket) held true held true
  | removesock {socket : Slot} : Keeps (.removesock socket) {.stable} true {.stable} true
  | closeLoop {process : Proc} : Keeps (.closeLoop process) {.stable} true {.stable} true
  | closeprocsocks {process : Proc} : Keeps (.closeprocsocks process) ∅ true ∅ true
  | underStable {routine : Routine} :
      underStable routine = true → Keeps routine {.stable} true ∅ true
  | entry {routine : Routine} :
      systemCall routine = true ∨ interrupt routine = true → Keeps routine ∅ true ∅ true

/-- Code that keeps to the lock order and to the contracts. -/
abbrev InOrder : Finset Lock → Bool → Code → Finset Lock → Bool → Prop :=
  Locked Lock.ptable Lock.rank Keeps

/-! ## The code of the routines -/

variable {held middle : Finset Lock} {lock : Lock} {code : Code} {data : KernelData}
  {routine : Routine} {process : Proc} {result : KernelData × Code} {between : Bool}

theorem not_mem_of_rank_lt (below : ∀ other ∈ held, other.rank < lock.rank) : lock ∉ held := by
  intro member
  exact lt_irrefl _ (below lock member)

theorem wakeup_inOrder (chan : Option Chan) (below : ∀ lock ∈ held, lock.rank < Lock.ptable.rank) :
    InOrder held true (wakeup chan) held true := by
  have member : Lock.ptable ∈ insert Lock.ptable held := Finset.mem_insert_self _ held
  exact .acquire below rfl (.call (.wakeup1 member) (.release member (fun _ => rfl)
    (Finset.erase_insert (not_mem_of_rank_lt below)) .nil))

theorem kfree_inOrder (below : ∀ lock ∈ held, lock.rank < Lock.kmem.rank) :
    InOrder held true kfree held true := by
  exact .acquire below rfl (.release (Finset.mem_insert_self _ held) (fun _ => rfl)
    (Finset.erase_insert (not_mem_of_rank_lt below)) .nil)

theorem lock_inOrder {final : Finset Lock} {last : Bool}
    (inside : InOrder {lock} true code final last) :
    InOrder ∅ true (.acquire lock :: code) final last :=
  .acquire (by simp) (insert_empty_eq _) inside

theorem unlock_inOrder {final : Finset Lock} {last : Bool}
    (outside : InOrder ∅ true code final last) :
    InOrder {lock} true (.release lock :: code) final last :=
  .release (Finset.mem_singleton_self _) (fun _ => rfl) (Finset.erase_singleton _) outside

theorem block_sched_inOrder (chan : Chan) :
    InOrder {.ptable} true [.call (.block chan), .sched, .call .tidyUp] {.ptable} true := by
  have member : Lock.ptable ∈ ({.ptable} : Finset Lock) := Finset.mem_singleton_self _
  exact .call (.stop rfl member) (.sched (.call (.tidyUp member) .nil))

theorem sleep_inOrder (chan : Chan) {lk : Lock}
    (below : lk = .ptable ∨ lk.rank < Lock.ptable.rank) :
    InOrder {lk} true (sleep chan lk) {lk} true := by
  by_cases same : lk = .ptable
  · subst same
    simpa [sleep] using block_sched_inOrder chan
  · have ordered : ∀ other ∈ ({lk} : Finset Lock), other.rank < Lock.ptable.rank := by
      intro other member
      rw [Finset.mem_singleton.mp member]
      exact below.resolve_left same
    have only : (insert .ptable {lk} : Finset Lock).erase lk = {.ptable} := by
      grind
    have before : InOrder {lk} true [.acquire .ptable, .release lk] {.ptable} true :=
      .acquire ordered rfl (.release (by simp) (fun _ => rfl) only .nil)
    have after : InOrder {.ptable} true [.release .ptable, .acquire lk] {lk} true :=
      unlock_inOrder (lock_inOrder .nil)
    rw [sleep, if_pos same, if_pos same]
    exact (before.append (block_sched_inOrder chan)).append after

theorem yield_inOrder : InOrder ∅ true yield ∅ true := by
  have member : Lock.ptable ∈ ({.ptable} : Finset Lock) := Finset.mem_singleton_self _
  exact lock_inOrder (.call (.stop rfl member) (.sched (unlock_inOrder .nil)))

theorem forkret_inOrder : InOrder {.ptable} true forkret ∅ true :=
  unlock_inOrder .nil

theorem actions_inOrder (index : Nat) (actions : List Action) :
    InOrder {.other index} true (actions.map (Action.code index)) {.other index} true := by
  have below : (Lock.other index).rank < Lock.ptable.rank := by
    simp [Lock.rank]
  induction actions with
  | nil => exact .nil
  | cons action actions ih =>
    cases action with
    | sleep chan => exact .call (.sleep (.inr below)) ih
    | wakeup chan =>
      refine .call (.wakeup ?_) ih
      intro lock member
      rw [Finset.mem_singleton.mp member]
      exact below

theorem section_inOrder (part : Section) : InOrder ∅ true part.code ∅ true := by
  cases part with
  | locked index actions =>
    exact lock_inOrder ((actions_inOrder index actions).append (unlock_inOrder .nil))
  | page => exact .call (.kfree (by simp)) .nil

theorem sections_inOrder (files : List Section) : InOrder ∅ true (sections files) ∅ true := by
  induction files with
  | nil => exact .nil
  | cons part files ih =>
    exact (section_inOrder part).append ih

theorem retsockfunc_inOrder (code : Int) : InOrder {.stable} true (retsockfunc code) ∅ true :=
  unlock_inOrder (.call .ret .nil)

theorem stable_below : ∀ lock ∈ ({.stable} : Finset Lock), lock.rank < Lock.ptable.rank := by
  intro lock member
  rw [Finset.mem_singleton.mp member]
  decide

theorem removesock_inOrder (socket : Slot) :
    InOrder {.stable} true (removesock socket) {.stable} true := by
  exact .call (.wakeup stable_below) (.call (.dropsock (Finset.mem_singleton_self _)) .nil)

theorem closeLoop_inOrder (process : Proc) (data : KernelData) :
    InOrder {.stable} true (closeLoop process data) {.stable} true := by
  unfold closeLoop
  split
  · exact .nil
  · exact .call .removesock (.call .closeLoop .nil)

theorem closeprocsocks_inOrder (process : Proc) :
    InOrder ∅ true (closeprocsocks process) ∅ true :=
  lock_inOrder (.call .closeLoop (unlock_inOrder .nil))

theorem ptable_return_inOrder (code : Int) :
    InOrder {.ptable} true [.release .ptable, .call (.ret code)] ∅ true :=
  unlock_inOrder (.call .ret .nil)

theorem exit_inOrder {curproc : Proc} {files : List Section}
    (exits : exit curproc files data = some code) : InOrder ∅ true code ∅ true := by
  obtain ⟨-, result⟩ := Option.ite_none_left_eq_some.mp exits
  cases result
  apply (sections_inOrder files).append
  refine .call .closeprocsocks (lock_inOrder (.call (.stop rfl ?_) (.sched ?_)))
  · exact Finset.mem_singleton_self _
  · exact .call .zombieExit .nil

theorem kfrees_inOrder (below : ∀ lock ∈ held, lock.rank < Lock.kmem.rank) (count : Nat) :
    InOrder held true (List.replicate count (.call .kfree)) held true := by
  induction count with
  | zero => exact .nil
  | succ count ih => exact .call (.kfree below) ih

theorem waitScan_inOrder (curproc : Proc) (data : KernelData) :
    InOrder {.ptable} true (waitScan curproc data).2 ∅ true := by
  have below : ∀ lock ∈ ({.ptable} : Finset Lock), lock.rank < Lock.kmem.rank := by
    intro lock member
    rw [Finset.mem_singleton.mp member]
    decide
  unfold waitScan
  split
  · exact (kfrees_inOrder below _).append (ptable_return_inOrder _)
  · split
    · exact ptable_return_inOrder _
    · exact .call (.sleep (.inl rfl)) (.call .waitScan .nil)

theorem killScan_inOrder {pid : Int} (absent : findPid data pid = none) :
    InOrder {.ptable} true (killScan pid data).2 ∅ true := by
  rw [killScan, absent]
  exact ptable_return_inOrder _

theorem listenLocked_inOrder (myproc : Proc) (lport : Int) (data : KernelData) :
    InOrder {.stable} true (listenLocked myproc lport data).2 ∅ true := by
  unfold listenLocked
  split
  · exact retsockfunc_inOrder _
  split
  · exact retsockfunc_inOrder _
  · exact .call (.sleep (.inr (by decide))) (retsockfunc_inOrder _)

theorem connectLocked_inOrder (myproc : Proc) (rport : Int) (data : KernelData) :
    InOrder {.stable} true (connectLocked myproc rport data).2 ∅ true := by
  simp only [connectLocked]
  split
  · exact retsockfunc_inOrder _
  split
  · exact retsockfunc_inOrder _
  split
  · exact retsockfunc_inOrder _
  split
  · exact retsockfunc_inOrder _
  · exact .call (.wakeup stable_below) (retsockfunc_inOrder _)

theorem sleep_first_inOrder {waits : Prop} [Decidable waits] {chan : Chan}
    (later : InOrder {.stable} true code ∅ true) :
    InOrder {.stable} true ((if waits then [.call (.sleep chan .stable)] else []) ++ code)
      ∅ true := by
  split
  · exact .call (.sleep (.inr (by decide))) later
  · exact later

theorem sendLocked_inOrder (myproc : Proc) (lport : Int) (text : CStr) (n : Int)
    (data : KernelData) : InOrder {.stable} true (sendLocked myproc lport text n data) ∅ true := by
  unfold sendLocked
  split
  · exact retsockfunc_inOrder _
  · exact sleep_first_inOrder (.call (.underStable rfl) .nil)

theorem sendAwake_inOrder (loc rem : Slot) (text : CStr) (n : Int) (data : KernelData) :
    InOrder {.stable} true (sendAwake loc rem text n data).2 ∅ true := by
  unfold sendAwake
  split
  · exact .call .removesock (retsockfunc_inOrder _)
  · exact .call (.wakeup stable_below) (retsockfunc_inOrder _)

theorem recvLocked_inOrder (myproc : Proc) (lport n : Int) (data : KernelData) :
    InOrder {.stable} true (recvLocked myproc lport n data) ∅ true := by
  unfold recvLocked
  split
  · exact retsockfunc_inOrder _
  · exact sleep_first_inOrder (.call (.underStable rfl) .nil)

theorem recvEnd_inOrder (loc : Slot) (data : KernelData) :
    InOrder {.stable} true (recvEnd loc data) ∅ true := by
  unfold recvEnd
  split
  · exact .call .removesock (retsockfunc_inOrder _)
  · exact retsockfunc_inOrder _

theorem disconnectLocked_inOrder (myproc : Proc) (lport : Int) (data : KernelData) :
    InOrder {.stable} true (disconnectLocked myproc lport data) ∅ true := by
  unfold disconnectLocked
  split
  · exact retsockfunc_inOrder _
  split
  · exact retsockfunc_inOrder _
  · exact .call .removesock (retsockfunc_inOrder _)

theorem socket_call_inOrder {invalid : Prop} [Decidable invalid]
    (inside : underStable routine = true) (refused : InOrder ∅ true code ∅ true) :
    InOrder ∅ true (if invalid then code else [.acquire .stable, .call routine]) ∅ true := by
  split
  · exact refused
  · exact lock_inOrder (.call (.underStable inside) .nil)

/-! ## The processes that run -/

/-- What no iteration of the loop of `exit` changes, the loop does not change. -/
theorem foldl_passChild {View : Type} (view : KernelData → View) (curproc : Proc)
    (kept : ∀ data process, view (passChild curproc data process) = view data)
    (processes : List Proc) (start : KernelData) :
    view (processes.foldl (passChild curproc) start) = view start := by
  induction processes generalizing start with
  | nil => rfl
  | cons process processes ih => exact (ih _).trans (kept start process)

namespace KernelData

theorem isRunning_setProc_of_iff (data : KernelData) (process : Proc)
    (change : ProcEntry → ProcEntry)
    (keeps : (change (data.ptable process)).state = .running ↔
      (data.ptable process).state = .running) (other : Proc) :
    (data.setProc process change).isRunning other = data.isRunning other := by
  grind [isRunning_setProc, isRunning]

theorem isRunning_wakeup1 (chan : Option Chan) (data : KernelData) (process : Proc) :
    (KernelLock.wakeup1 chan data).isRunning process = data.isRunning process := by
  by_cases asleep : (data.ptable process).state = .sleeping ∧ (data.ptable process).chan = chan
  · simp [KernelLock.wakeup1, ProcEntry.wakeup1, isRunning, asleep]
  · simp [KernelLock.wakeup1, ProcEntry.wakeup1, isRunning, asleep]

theorem isRunning_passChild (curproc : Proc) (data : KernelData) (process other : Proc) :
    (passChild curproc data process).isRunning other = data.isRunning other := by
  simp only [passChild]
  split
  · have passed : ∀ query, (data.setProc process fun entry =>
        { entry with parent := some data.initproc }).isRunning query = data.isRunning query :=
      data.isRunning_setProc_of_iff process _ Iff.rfl
    split
    · exact (isRunning_wakeup1 _ _ other).trans (passed other)
    · exact passed other
  · rfl

theorem isRunning_passChildren (curproc : Proc) (data : KernelData) (other : Proc) :
    (passChildren curproc data).isRunning other =
      if other = curproc then false else data.isRunning other := by
  have loop := foldl_passChild (fun data => data.isRunning other) curproc
    (fun data process => isRunning_passChild curproc data process other) (List.finRange nproc)
  rw [passChildren, isRunning_setState, loop, isRunning_wakeup1]
  simp

theorem isRunning_waitScan (curproc : Proc) (data : KernelData) (other : Proc) :
    (waitScan curproc data).1.isRunning other = data.isRunning other := by
  unfold waitScan
  split
  case h_1 process found =>
      have zombie := firstIndex_eq_some found
      simp only [decide_eq_true_eq] at zombie
      exact data.isRunning_setProc_of_iff process reap (by simp [reap, zombie.2]) other
  case h_2 =>
      split <;> rfl

theorem isRunning_killScan (pid : Int) (data : KernelData) (other : Proc) :
    (killScan pid data).1.isRunning other = data.isRunning other := by
  unfold killScan
  split
  · rfl
  · rw [isRunning_setProc_of_iff]
    rfl

theorem isRunning_wakeKilled (process : Proc) (data : KernelData) (other : Proc) :
    (wakeKilled process data).isRunning other = data.isRunning other := by
  unfold wakeKilled
  split
  case isTrue asleep =>
      exact data.isRunning_setProc_of_iff process _ (by simp [asleep]) other
  case isFalse => rfl

theorem isRunning_sendAwake (loc rem : Slot) (text : CStr) (n : Int) (data : KernelData)
    (other : Proc) : (sendAwake loc rem text n data).1.isRunning other = data.isRunning other := by
  unfold sendAwake
  split <;> rfl

theorem isRunning_listenLocked (myproc : Proc) (lport : Int) (data : KernelData) (other : Proc) :
    (listenLocked myproc lport data).1.isRunning other = data.isRunning other := by
  unfold listenLocked
  split
  · rfl
  split <;> rfl

theorem isRunning_connectLocked (myproc : Proc) (rport : Int) (data : KernelData) (other : Proc) :
    (connectLocked myproc rport data).1.isRunning other = data.isRunning other := by
  simp only [connectLocked]
  split
  · rfl
  split
  · rfl
  split
  · rfl
  split <;> rfl

end KernelData

/-- Only the routines that stop the caller change which processes run. -/
theorem body_isRunning (called : body process data routine = some result)
    (goesOn : stops routine = false) (other : Proc) :
    result.1.isRunning other = data.isRunning other := by
  cases routine with
  | block chan => cases goesOn
  | setRunnable => cases goesOn
  | passChildren => cases goesOn
  | exit files =>
    obtain ⟨code, -, rfl⟩ := Option.map_eq_some_iff.mp called
    rfl
  | zombieExit => cases called
  | ret code =>
    cases called
    rw [KernelData.isRunning_setProc_of_iff]
    rfl
  | tidyUp =>
    cases called
    rw [tidyUp, KernelData.isRunning_setProc_of_iff]
    rfl
  | wakeup1 chan =>
    cases called
    exact data.isRunning_wakeup1 chan other
  | killScan pid =>
    cases called
    exact data.isRunning_killScan pid other
  | wakeKilled killed =>
    cases called
    exact data.isRunning_wakeKilled killed other
  | waitScan =>
    cases called
    exact data.isRunning_waitScan process other
  | listenLocked lport =>
    cases called
    exact data.isRunning_listenLocked process lport other
  | connectLocked rport =>
    cases called
    exact data.isRunning_connectLocked process rport other
  | sendAwake loc rem text n =>
    cases called
    exact data.isRunning_sendAwake loc rem text n other
  | recvAwake loc n =>
    cases called
    rw [recvAwake, KernelData.isRunning_setProc_of_iff] <;> rfl
  | _ =>
    cases called
    rfl

/-- A routine that stops the caller has no code of its own and leaves the other
processes as they are. -/
theorem body_of_stops (called : body process data routine = some result)
    (stopped : stops routine = true) :
    result.2 = [] ∧ result.1.isRunning process = false ∧
      ∀ other, other ≠ process → result.1.isRunning other = data.isRunning other := by
  cases routine with
  | block chan =>
    cases called
    refine ⟨rfl, ?_, ?_⟩
    · simp [block, KernelData.isRunning_setProc]
    · intro other different
      simp [block, KernelData.isRunning_setProc, different]
  | setRunnable =>
    cases called
    refine ⟨rfl, ?_, ?_⟩
    · simp [KernelData.isRunning_setState]
    · intro other different
      simp [KernelData.isRunning_setState, different]
  | passChildren =>
    obtain rfl := Option.some.inj called
    refine ⟨rfl, ?_, ?_⟩
    · simp [KernelData.isRunning_passChildren]
    · intro other different
      simp [KernelData.isRunning_passChildren, different]
  | _ => cases stopped

theorem entry_inOrder (called : body process data routine = some result)
    (starts : systemCall routine = true ∨ interrupt routine = true) :
    InOrder ∅ true result.2 ∅ true := by
  have invalid : InOrder ∅ true [.call (.ret eInvalidArg)] ∅ true := .call .ret .nil
  cases routine with
  | kill pid =>
    cases called
    exact lock_inOrder (.call .killScan .nil)
  | exit files =>
    obtain ⟨code, exits, rfl⟩ := Option.map_eq_some_iff.mp called
    exact exit_inOrder exits
  | wait =>
    cases called
    exact lock_inOrder (.call .waitScan .nil)
  | listen lport =>
    cases called
    exact socket_call_inOrder rfl invalid
  | connect rport host =>
    cases called
    unfold connect
    split
    · exact invalid
    · exact socket_call_inOrder rfl invalid
  | send lport text n =>
    cases called
    exact socket_call_inOrder rfl invalid
  | recv lport n =>
    cases called
    exact socket_call_inOrder rfl invalid
  | disconnect lport =>
    cases called
    exact socket_call_inOrder rfl invalid
  | sections files =>
    cases called
    exact sections_inOrder files
  | yield =>
    cases called
    exact yield_inOrder
  | _ => simp [systemCall, interrupt] at starts

theorem underStable_inOrder (called : body process data routine = some result)
    (inside : underStable routine = true) : InOrder {.stable} true result.2 ∅ true := by
  cases routine with
  | listenLocked lport =>
    cases called
    exact listenLocked_inOrder process lport data
  | connectLocked rport =>
    cases called
    exact connectLocked_inOrder process rport data
  | sendLocked lport text n =>
    cases called
    exact sendLocked_inOrder process lport text n data
  | sendAwake loc rem text n =>
    cases called
    exact sendAwake_inOrder loc rem text n data
  | recvLocked lport n =>
    cases called
    exact recvLocked_inOrder process lport n data
  | recvAwake loc n =>
    cases called
    exact .call (.wakeup stable_below) (.call (.underStable rfl) .nil)
  | recvEnd loc =>
    cases called
    exact recvEnd_inOrder loc data
  | disconnectLocked lport =>
    cases called
    exact disconnectLocked_inOrder process lport data
  | _ => cases inside

/-! ## The discipline -/

theorem underStable_goesOn (inside : underStable routine = true) : stops routine = false := by
  cases routine <;> first | rfl | cases inside

theorem entry_goesOn (starts : systemCall routine = true ∨ interrupt routine = true) :
    stops routine = false := by
  cases routine <;> first | rfl | simp [systemCall, interrupt] at starts

theorem Keeps.of_stops {marked : Bool} (kept : Keeps routine held marked middle between)
    (stopped : stops routine = true) : Lock.ptable ∈ held ∧ middle = held ∧ between = false := by
  cases kept with
  | stop _ member => exact ⟨member, rfl, rfl⟩
  | underStable inside => simp [underStable_goesOn inside] at stopped
  | entry starts => simp [entry_goesOn starts] at stopped
  | _ => cases stopped

theorem code_inOrder {marked : Bool} (kept : Keeps routine held marked middle between)
    (goesOn : stops routine = false)
    (absent : ∀ pid, routine = .killScan pid → findPid data pid = none)
    (called : body process data routine = some result) :
    InOrder held marked result.2 middle between := by
  cases kept with
  | stop stopped => simp [goesOn] at stopped
  | underStable inside => exact underStable_inOrder called inside
  | entry starts => exact entry_inOrder called starts
  | zombieExit => cases called
  | killScan =>
    cases called
    exact killScan_inOrder (absent _ rfl)
  | waitScan =>
    cases called
    exact waitScan_inOrder process data
  | wakeup below =>
    cases called
    exact wakeup_inOrder _ below
  | sleep below =>
    cases called
    exact sleep_inOrder _ below
  | kfree below =>
    cases called
    exact kfree_inOrder below
  | removesock =>
    cases called
    exact removesock_inOrder _
  | closeLoop =>
    cases called
    exact closeLoop_inOrder _ data
  | closeprocsocks =>
    cases called
    exact closeprocsocks_inOrder _
  | _ =>
    cases called
    exact .nil

theorem body_inOrder (kept : Keeps routine held (data.isRunning process) middle between)
    (absent : ∀ pid, routine = .killScan pid → findPid data pid = none)
    (called : body process data routine = some result) :
    InOrder held (result.1.isRunning process) result.2 middle between := by
  by_cases stopped : stops routine = true
  · obtain ⟨-, rfl, rfl⟩ := kept.of_stops stopped
    obtain ⟨noCode, notRunning, -⟩ := body_of_stops called stopped
    rw [noCode, notRunning]
    exact .nil
  · grind [body_isRunning, code_inOrder]

/-- The lock discipline of the kernel.  Its guard: no process has the pid that
`kill` looks for. -/
def lockOrder : Discipline xv6 where
  rank := Lock.rank
  contract := Keeps
  guard _ data routine := ∀ pid, routine = .killScan pid → findPid data pid = none
  systemCall := by
    intro routine call
    exact .entry (.inl call)
  interrupt := by
    intro routine call
    exact .entry (.inr call)
  sound := by
    intro process data routine held middle between next code kept absent called
    exact body_inOrder kept absent called
  unmarks := by
    intro process data routine held middle between next code kept called running stopped
    by_cases stops : stops routine = true
    · exact (kept.of_stops stops).1
    · have same := body_isRunning called (Bool.eq_false_iff.mpr stops) process
      exact absurd (running.symm.trans (same.symm.trans stopped)) (by decide)
  others := by
    intro process other data routine next code called different
    by_cases stopped : stops routine = true
    · exact (body_of_stops called stopped).2.2 other different
    · exact body_isRunning called (Bool.eq_false_iff.mpr stopped) other

/-! ## Runs -/

/-- The next instruction of the processor is the loop of a `kill`, and some
process has the pid it looks for. -/
def killFinds {Cpu : Type} (state : KernelState Cpu) : KernelMove Cpu → Bool
  | .exec cpu =>
    (state.running cpu).any fun process =>
      match state.code process with
      | .call (.killScan pid) :: _ => (findPid state.data pid).isSome
      | _ => false
  | _ => false

/-- A machine with any number of processors, whose processes start in
`forkret`. -/
abbrev KernelRun {Cpu : Type} [DecidableEq Cpu] (data : KernelData)
    (trace : List (KernelState Cpu × KernelMove Cpu)) (finish : KernelState Cpu) : Prop :=
  Run (LockMachine.step xv6) (boot (fun _ => forkret) data) trace finish

theorem guards_of_killFinds {Cpu : Type} {state : KernelState Cpu} {move : KernelMove Cpu}
    (spares : killFinds state move = false) : lockOrder.Guards state move := by
  rintro cpu process routine rest rfl running code pid rfl
  simpa [killFinds, running, code] using spares

theorem disciplined_of_run {Cpu : Type} [DecidableEq Cpu]
    {trace : List (KernelState Cpu × KernelMove Cpu)} {finish : KernelState Cpu}
    (run : KernelRun data trace finish)
    (spares : ∀ entry ∈ trace, killFinds entry.1 entry.2 = false) :
    Throughout (Disciplined lockOrder) trace finish :=
  disciplined_throughout (disciplined_boot (fun _ => forkret_inOrder) data) run
    fun entry member => guards_of_killFinds (spares entry member)

/-- As long as no `kill` finds its process, no processor fails a check of the
lock routines, none acquires a lock it holds, and none acquires `stable.lock`
while it holds `ptable.lock`. -/
theorem locks_ordered_throughout {Cpu : Type} [DecidableEq Cpu] {data : KernelData}
    {trace : List (KernelState Cpu × KernelMove Cpu)} {finish : KernelState Cpu}
    (run : KernelRun data trace finish)
    (spares : ∀ entry ∈ trace, killFinds entry.1 entry.2 = false) :
    Throughout (fun state => ∀ cpu, panics xv6 state cpu = false ∧
      (∀ lock, ¬ Acquires state cpu lock lock) ∧ ¬ Acquires state cpu .ptable .stable)
      trace finish := by
  obtain ⟨earlier, last⟩ := disciplined_of_run run spares
  have ordered : ∀ {state : KernelState Cpu}, Disciplined lockOrder state →
      ∀ cpu, panics xv6 state cpu = false ∧
        (∀ lock, ¬ Acquires state cpu lock lock) ∧ ¬ Acquires state cpu .ptable .stable := by
    intro state holds cpu
    refine ⟨holds.not_panics cpu, ?_, ?_⟩
    · intro lock acquires
      exact lt_irrefl _ (holds.rank_lt acquires)
    · intro acquires
      exact absurd (holds.rank_lt acquires) (by decide)
  exact ⟨fun entry member => ordered (earlier entry member), ordered last⟩

/-- Two processes: the initial one with pid 1, and its child with pid 2. -/
def initAndChild : KernelData where
  stable := .initial
  ptable process :=
    { state := if process = 0 ∨ process = 1 then .runnable else .unused
      pid := if process = 0 then 1 else if process = 1 then 2 else 0
      parent := if process = 1 then some 0 else none
      chan := none, killed := false, pages := 0, eax := 0, out := [] }
  initproc := 0

/-- The child runs on processor 0, listens at port 10 and sleeps; the initial
process runs on processor 1. -/
def childListens : List (KernelMove (Fin 2)) :=
  [.lockScheduler 0, .dispatch 0 1, .exec 0, .enter 0 (.listen 10)] ++
    List.replicate 8 (.exec 0) ++
    [.unlockScheduler 0, .lockScheduler 1, .dispatch 1 0, .exec 1]

/-- The initial process connects to the child and kills a process that does not
exist; the child returns from its `listen`. -/
def childServes : List (KernelMove (Fin 2)) :=
  childListens ++ .enter 1 (.connect 10 localHost) :: List.replicate 9 (.exec 1) ++
    .enter 1 (.kill 3) :: List.replicate 5 (.exec 1) ++
    [.lockScheduler 0, .dispatch 0 1] ++ List.replicate 5 (.exec 0)

theorem locks_ordered_child_serves :
    ∃ (trace : List (KernelState (Fin 2) × KernelMove (Fin 2))) (finish : KernelState (Fin 2)),
      KernelRun initAndChild trace finish ∧ trace.map Prod.snd = childServes ∧
        (finish.data.ptable 0).eax = -1 ∧ (finish.data.ptable 1).eax = 0 ∧
        finish.data.stable.countSock = 2 ∧ ∀ cpu, panics xv6 finish cpu = false := by
  refine exists_run_of_test (fun trace finish =>
    (∀ entry ∈ trace, killFinds entry.1 entry.2 = false) ∧ (finish.data.ptable 0).eax = -1 ∧
      (finish.data.ptable 1).eax = 0 ∧ finish.data.stable.countSock = 2) (by decide +kernel) ?_
  rintro _ _ run - ⟨spares, parent, child, sockets⟩
  exact ⟨parent, child, sockets, fun cpu => ((locks_ordered_throughout run spares).2 cpu).1⟩

/-- The child listens and sleeps with `stable.lock` taken before `ptable.lock`.
The initial process kills it: it takes `stable.lock` with `ptable.lock` held,
and then the next instruction acquires `ptable.lock` again, with the socket
still open. -/
theorem kill_acquires_ptable_twice :
    ∃ (trace : List (KernelState (Fin 2) × KernelMove (Fin 2))) (finish : KernelState (Fin 2)),
      KernelRun initAndChild trace finish ∧
        trace.map Prod.snd = childListens ++ .enter 1 (.kill 2) :: List.replicate 8 (.exec 1) ∧
        (∃ entry ∈ trace, Acquires entry.1 0 .stable .ptable) ∧
        (∃ entry ∈ trace, Acquires entry.1 1 .ptable .stable) ∧
        Acquires finish 1 .ptable .ptable ∧ panics xv6 finish 1 = true ∧
        (finish.data.stable.getprocsock 1).isSome :=
  exists_run_of_decide (by decide +kernel)

end KernelLock

end Xv6
