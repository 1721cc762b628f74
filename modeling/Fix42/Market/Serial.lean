import Fix42.Lib.QueueLock
import Fix42.Market.Tickets

/-!
# A market served in the router's order

`Market.queueLock` forgets everything of a market but its lock: `QueueLock` is what the tickets are
for. `SpinMarket` runs the market with every access of `QueueMutex::lock` and `unlock` to the queue
and to `m_lock` a step of its own.
-/

namespace Fix42

variable {α : Type*}

/-- The ticket a worker holds the lock with. -/
def held : TicketLock.Worker ExecId → Option ExecId
  | .holding id => some id
  | .idle | .waiting _ => none

/-- The request an effect is about. -/
def Effect.subject : Effect α → Option ExecId
  | .finish id | .finishAgain id | .unlock id => some id
  | .queueNew i => some i.executionId
  | .queueCancel i => some i.executionId
  | .append _ | .add _ | .cancel _ => none

/-- The request a unit has still to release or to pass on. -/
def pending (es : List (Effect α)) : List ExecId := (es.findSome? Effect.subject).toList

def CancelUnitPc.pending : CancelUnitPc α → List ExecId
  | .running es => Fix42.pending es
  | .found i | .verified i _ => [i.executionId]
  | .dead => []

namespace Market

variable [LinearOrder α]

/-- The tickets the router allowed, in order. -/
def allowed (m : Market α) : List ExecId :=
  m.handed ++ match m.router with
    | .handing r => [r.id]
    | _ => []

/-- The request whose critical section a thread is in. -/
def critical (m : Market α) : Thread → Option ExecId
  | .newWorker => held m.newWorker.stage
  | .cancelWorker => held m.cancelWorker.stage
  | _ => none

def holder (m : Market α) : Option ExecId := (m.critical .newWorker).or (m.critical .cancelWorker)

/-- The critical sections of both workers, in order, by the request each was for. -/
def sections (m : Market α) : List ExecId := m.unlocked.map Unlock.worker ++ m.holder.toList

/-- The market's lock (module doc). -/
def queueLock (m : Market α) : QueueLock.State ExecId where
  queue := m.mutex.queue
  holder := m.holder
  allowed := m.allowed
  finished := m.finished
  served := m.unlocked.map fun u => (u.worker, u.popped)

end Market

/-! ## Spinning -/

/-- Where a worker is in `lock(id)`, `while (empty() || front() != id || m_lock) {} m_lock = true`:
before one of the three reads or before the write. Or in `unlock()`, between its writes. What
`front()` reads in an empty queue is not defined, and a worker that does so is followed no further. -/
inductive LockPc
  | empty | front | locked | acquire | pop | undefined
  deriving DecidableEq

/-- A read of the loop. -/
def LockPc.read (queue : List ExecId) (lock : Bool) (id : ExecId) : LockPc → LockPc
  | .empty => if queue.isEmpty then .empty else .front
  | .front =>
    match queue with
    | [] => .undefined
    | first :: _ => if first ≠ id then .empty else .locked
  | .locked => if lock then .empty else .acquire
  | pc => pc

/-- A market with its `m_lock`; `market.mutex.locked` is on from a worker's entry to its pop. -/
structure SpinMarket (α : Type*) [LinearOrder α] where
  market : Market α
  lock : Bool
  newPc : LockPc
  cancelPc : LockPc

namespace SpinMarket

variable [Field α] [LinearOrder α]

def new (name : String) : SpinMarket α := ⟨Market.new name, false, .empty, .empty⟩

def newWorkerStep (s : SpinMarket α) : Option (SpinMarket α) :=
  match s.market.newWorker with
  | .waiting i info =>
    match s.newPc with
    | .acquire => some
        { market := { s.market with mutex := s.market.mutex.lock, newWorker := .checking i info }
          lock := true, newPc := .empty, cancelPc := s.cancelPc }
    | .undefined => none
    | pc => some { s with newPc := pc.read s.market.mutex.queue s.lock i.executionId }
  | .running (.unlock _ :: _) =>
    match s.newPc with
    | .pop => s.market.newWorkerStep.map fun market => { s with market, newPc := .empty }
    | _ => some { s with lock := false, newPc := .pop }
  | _ => s.market.newWorkerStep.map fun market => { s with market }

def cancelWorkerStep (s : SpinMarket α) : Option (SpinMarket α) :=
  match s.market.cancelWorker with
  | .waiting i =>
    match s.cancelPc with
    | .acquire => some
        { market := { s.market with mutex := s.market.mutex.lock, cancelWorker := .checking i }
          lock := true, newPc := s.newPc, cancelPc := .empty }
    | .undefined => none
    | pc => some { s with cancelPc := pc.read s.market.mutex.queue s.lock i.executionId }
  | .running (.unlock _ :: _) =>
    match s.cancelPc with
    | .pop => s.market.cancelWorkerStep.map fun market => { s with market, cancelPc := .empty }
    | _ => some { s with lock := false, cancelPc := .pop }
  | _ => s.market.cancelWorkerStep.map fun market => { s with market }

def step (s : SpinMarket α) : Action α → Option (SpinMarket α)
  | .run .newWorker _ _ => s.newWorkerStep
  | .run .cancelWorker _ _ => s.cancelWorkerStep
  | a => (s.market.step a).map fun market => { s with market }

abbrev Reachable (name : String) (s : SpinMarket α) : Prop :=
  Trans.Reach step (SpinMarket.new name) s

end SpinMarket

end Fix42
