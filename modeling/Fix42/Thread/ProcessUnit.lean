import Mathlib.Data.List.Basic
import Fix42.Lib.Progress

/-!
# A process unit

`ProcessUnit<T>` over `AInputProcess<T>`: the thread that `start` makes, its input queue, the promise it
sets when it ends, and the calls of `status` and `stop`. Every access to the queue, to the stop token or
to the promise is a step. `m_cv` is never notified, so the wait ends by its time-out or by its predicate;
either way the thread goes on, and what woke it is not looked at.

`pushed`, `handled` and `fresh` (the messages pushed since the thread last found the queue empty) are not
in the source.
-/

namespace Fix42

/-- Where the thread of a unit is, in `process` and `runtime`. -/
inductive UnitPc (μ : Type*)
  | unstarted
  /-- before `while (!_st.stop_requested())` -/
  | head
  /-- in `wait_for` -/
  | wait
  /-- before `while (!m_input.empty())` -/
  | test
  | pop
  /-- in `onInput` -/
  | input (m : μ)
  /-- `runtime` has returned -/
  | returned
  /-- an exception of `runtime` was caught -/
  | caught
  | ended
  deriving DecidableEq

/-- `m_promise`. -/
inductive UnitPromise
  | unset | value | exception
  deriving DecidableEq

/-- Where the call of `stop` is. -/
inductive UnitStop
  | notCalled | join | wait | returned
  deriving DecidableEq

/-- What a call of `status` does. -/
inductive UnitStatus
  | running | stop
  /-- the exception of the unit is thrown again -/
  | rethrown
  /-- `m_future` has no state any more -/
  | undefined
  deriving DecidableEq

structure ProcessUnit (μ : Type*) where
  pc : UnitPc μ
  stopRequested : Bool
  queue : List μ
  promise : UnitPromise
  /-- `m_future.valid()` -/
  valid : Bool
  stop : UnitStop
  pushed : List μ
  handled : List μ
  fresh : List μ
  deriving DecidableEq

namespace ProcessUnit

variable {μ : Type*}

def new : ProcessUnit μ where
  pc := .unstarted
  stopRequested := false
  queue := []
  promise := .unset
  valid := true
  stop := .notCalled
  pushed := []
  handled := []
  fresh := []

inductive Act (μ : Type*)
  | push (m : μ)
  | start
  /-- a step of the thread; `throws` says how a call of `onInput` ends -/
  | run (throws : Bool)
  | status
  /-- a step of the caller of `stop` -/
  | stop
  deriving DecidableEq

def push (u : ProcessUnit μ) (m : μ) : ProcessUnit μ :=
  { u with queue := u.queue ++ [m], pushed := u.pushed ++ [m], fresh := u.fresh ++ [m] }

/-- What `status` gives, and the future it leaves. -/
def status (u : ProcessUnit μ) : UnitStatus × ProcessUnit μ :=
  if u.valid then
    match u.promise with
    | .unset => (.running, u)
    | .value => (.stop, { u with valid := false })
    | .exception => (.rethrown, { u with valid := false })
  else (.undefined, u)

/-- The thread goes one step further; an empty queue has no front. -/
def run (u : ProcessUnit μ) (throws : Bool) : Option (ProcessUnit μ) :=
  match u.pc with
  | .unstarted | .ended => none
  | .head => some { u with pc := if u.stopRequested then .returned else .wait }
  | .wait => some { u with pc := .test }
  | .test =>
    match u.queue with
    | [] => some { u with pc := .head, fresh := [] }
    | _ :: _ => some { u with pc := .pop }
  | .pop =>
    match u.queue with
    | [] => none
    | m :: rest => some { u with pc := .input m, queue := rest }
  | .input m => some { u with pc := if throws then .caught else .test, handled := u.handled ++ [m] }
  | .returned => some { u with pc := .ended, promise := .value }
  | .caught => some { u with pc := .ended, promise := .exception }

/-- `stop`: a joinable thread is asked to stop and joined, then a valid future is waited for. -/
def stopStep (u : ProcessUnit μ) : Option (ProcessUnit μ) :=
  match u.stop, u.pc with
  | .notCalled, .unstarted => some { u with stop := .wait }
  | .notCalled, _ => some { u with stopRequested := true, stop := .join }
  | .join, .ended => some { u with stop := .wait }
  | .join, _ => none
  | .wait, _ => if u.valid && u.promise = .unset then none else some { u with stop := .returned }
  | .returned, _ => none

def step (u : ProcessUnit μ) : Act μ → Option (ProcessUnit μ)
  | .push m => some (u.push m)
  | .start =>
    match u.pc with
    | .unstarted => some { u with pc := .head }
    | _ => none
  | .run throws => u.run throws
  | .status => some u.status.2
  | .stop => u.stopStep

/-- The message the thread has in hand. -/
def hand (u : ProcessUnit μ) : List μ :=
  match u.pc with
  | .input m => [m]
  | _ => []

/-- The thread's steps that are left at most once it was asked to stop, if nothing is pushed. -/
def rest (u : ProcessUnit μ) : Nat :=
  match u.pc with
  | .unstarted | .ended => 0
  | .returned | .caught => 1
  | .head => 2
  | .pop => 3 * u.queue.length + 2
  | .test => 3 * u.queue.length + 3
  | .wait | .input _ => 3 * u.queue.length + 4

end ProcessUnit

end Fix42
