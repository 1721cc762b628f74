import Mathlib.Data.Fin.Basic
import Mathlib.Logic.Function.Basic
import Fix42.Lib.Trans

/-!
# The thread pool

`ThreadPool<S>` with one call of `stop`. What a worker or a caller does under `m_mutex` is one step;
`m_terminate` is read at the head of the loop without it. A worker asleep in `m_cond.wait` may wake
at any time, by a notification or spuriously. Tasks are numbered in the order they are enqueued.

`Complete` is what a stop that waits for the queue to be empty is for; `NotLast` is the condition on
the head of the loop.
-/

namespace Fix42

inductive TPFinishStrategy
  | waitEmpty | direct
  deriving DecidableEq

/-- Where a worker is in `loop`. -/
inductive PoolWorker
  /-- before `while (!m_terminate)` -/
  | head
  /-- about to take `m_mutex` -/
  | wait
  | asleep
  | task (t : Nat)
  | returned
  deriving DecidableEq

/-- Where the caller of `stop` is. -/
inductive PoolStop
  | notCalled
  /-- the threads before `k` are joined -/
  | join (k : Nat)
  | returned
  deriving DecidableEq

structure ThreadPool (S : Nat) where
  terminate : Bool
  finish : TPFinishStrategy
  queue : List Nat
  worker : Fin S → PoolWorker
  stop : PoolStop
  /-- the tasks enqueued so far -/
  next : Nat
  /-- not in the source: the tasks enqueued before `stop` -/
  before : Nat
  /-- not in the source: the tasks taken from the queue, and those that ended -/
  started : List Nat
  executed : List Nat

namespace ThreadPool

variable {S : Nat}

def init (S : Nat) : ThreadPool S where
  terminate := false
  finish := .direct
  queue := []
  worker := fun _ => .head
  stop := .notCalled
  next := 0
  before := 0
  started := []
  executed := []

inductive Act (S : Nat)
  | enqueue
  | stop (finish : TPFinishStrategy)
  /-- the next thread is joined -/
  | join
  /-- worker `w` reads `m_terminate` -/
  | loop (w : Fin S)
  /-- it takes the mutex and looks at the queue -/
  | lock (w : Fin S)
  | wake (w : Fin S)
  /-- its task ends -/
  | done (w : Fin S)
  deriving DecidableEq

def setWorker (s : ThreadPool S) (w : Fin S) (pc : PoolWorker) : ThreadPool S :=
  { s with worker := Function.update s.worker w pc }

/-- The block of `loop` under the mutex. -/
def stepLock (s : ThreadPool S) (w : Fin S) : ThreadPool S :=
  if s.queue.isEmpty && !s.terminate then s.setWorker w .asleep
  else if s.terminate && (s.finish = .waitEmpty && s.queue.isEmpty || s.finish = .direct) then
    s.setWorker w .returned
  else
    match s.queue with
    | [] => s
    | t :: queue => { s.setWorker w (.task t) with queue, started := s.started ++ [t] }

def step (s : ThreadPool S) : Act S → Option (ThreadPool S)
  | .enqueue => some { s with queue := s.queue ++ [s.next], next := s.next + 1 }
  | .stop finish =>
    if s.stop = .notCalled then
      some { s with finish, terminate := true, stop := .join 0, before := s.next }
    else none
  | .join =>
    match s.stop with
    | .join k =>
      if h : k < S then
        if s.worker ⟨k, h⟩ = .returned then some { s with stop := .join (k + 1) } else none
      else some { s with stop := .returned }
    | _ => none
  | .loop w =>
    if s.worker w = .head then some (s.setWorker w (if s.terminate then .returned else .wait))
    else none
  | .lock w => if s.worker w = .wait then some (s.stepLock w) else none
  | .wake w => if s.worker w = .asleep then some (s.setWorker w .wait) else none
  | .done w =>
    match s.worker w with
    | .task t => some { s.setWorker w .head with executed := s.executed ++ [t] }
    | _ => none

/-- No task is run twice, and once a stop that waits for the queue to be empty has returned, each
task enqueued before it has run and ended. -/
structure Complete (s : ThreadPool S) : Prop where
  once : ∀ t, s.started.count t ≤ 1
  executed : s.stop = .returned → s.finish = .waitEmpty →
    ∀ t < s.before, s.started.count t = 1 ∧ s.executed.count t = 1

/-- The last worker does not leave at the head of the loop with a task queued that was enqueued before
the stop. -/
def NotLast (s : ThreadPool S) : Act S → Prop
  | .loop w => s.terminate = true → s.finish = .waitEmpty →
      (∀ w', w' ≠ w → s.worker w' = .returned) → ∀ t ∈ s.queue, s.before ≤ t
  | _ => True

instance (s : ThreadPool S) : ∀ a, Decidable (s.NotLast a)
  | .loop w => inferInstanceAs (Decidable (_ → _ → (∀ w', w' ≠ w → s.worker w' = .returned) → _))
  | .enqueue | .stop _ | .join | .lock _ | .wake _ | .done _ => inferInstanceAs (Decidable True)

end ThreadPool

end Fix42
