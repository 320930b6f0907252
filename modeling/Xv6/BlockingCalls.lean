import Mathlib.Logic.Function.Basic

/-!
# Calls that sleep

A process is in user code, or inside a call: asleep on a channel, or woken and
about to take the lock of the call again.  What the call keeps across its sleep
is its frame.  A wakeup makes the sleepers of one channel runnable; who sleeps
after it was asleep before, on another channel.
-/

namespace Xv6

/-- Where a process stands with respect to the calls of one component. -/
inductive CallState (Chan Frame : Type)
  | user
  | sleeping (chan : Chan) (frame : Frame)
  | runnable (frame : Frame)

namespace CallState

variable {Chan Frame : Type} [DecidableEq Chan]

def wakeup1 (chan : Chan) : CallState Chan Frame → CallState Chan Frame
  | .sleeping sleepChan frame =>
    if sleepChan = chan then .runnable frame else .sleeping sleepChan frame
  | other => other

omit [DecidableEq Chan] in
def rouse : CallState Chan Frame → CallState Chan Frame
  | .sleeping _ frame => .runnable frame
  | other => other

def sleepsOn (chan : Chan) : CallState Chan Frame → Bool
  | .sleeping sleepChan _ => sleepChan = chan
  | _ => false

omit [DecidableEq Chan] in
def frame? : CallState Chan Frame → Option Frame
  | .user => none
  | .sleeping _ frame => some frame
  | .runnable frame => some frame

variable {state : CallState Chan Frame} {chan sleepChan : Chan} {frame : Frame}

theorem wakeup1_eq_sleeping :
    state.wakeup1 chan = .sleeping sleepChan frame ↔
      state = .sleeping sleepChan frame ∧ sleepChan ≠ chan := by
  cases state with
  | user => simp [wakeup1]
  | runnable other => simp [wakeup1]
  | sleeping otherChan other =>
    grind [wakeup1]

theorem frame?_wakeup1 : (state.wakeup1 chan).frame? = state.frame? := by
  cases state with
  | user => rfl
  | runnable other => rfl
  | sleeping otherChan other =>
    rw [wakeup1]
    split <;> rfl

omit [DecidableEq Chan] in
theorem frame?_rouse : state.rouse.frame? = state.frame? := by
  cases state <;> rfl

omit [DecidableEq Chan] in
theorem rouse_ne_sleeping : state.rouse ≠ .sleeping chan frame := by
  cases state <;> simp [rouse]

theorem exists_of_sleepsOn (asleep : state.sleepsOn chan = true) :
    ∃ frame, state = .sleeping chan frame := by
  cases state with
  | user => cases asleep
  | runnable frame => cases asleep
  | sleeping sleepChan frame =>
    obtain rfl := of_decide_eq_true asleep
    exact ⟨frame, rfl⟩

end CallState

end Xv6
