import Fix42.Lib.TicketLock
import Fix42.Market.Model

/-!
# The tickets of a market

`Market.lockState` forgets everything of a market but its tickets: the two units with their workers
are the two pipelines of `TicketLock`. `ticketSafe` is the condition under which no ticket is lost.
-/

namespace Fix42

variable {α : Type*}

inductive Kind
  | newOrder | cancel
  deriving DecidableEq

def Request.kind : Request α → Kind
  | .newOrder _ => .newOrder
  | .cancel _ => .cancel

/-- The ticket an effect releases or passes on. -/
def Effect.ticket : Effect α → Option ExecId
  | .finish id | .unlock id => some id
  | .queueNew i => some i.executionId
  | .queueCancel i => some i.executionId
  | .finishAgain _ | .append _ | .add _ | .cancel _ => none

def RouterPc.stage : RouterPc α → TicketLock.Router Kind ExecId
  | .idle => .idle
  | .allowing r => .allowing r.kind r.id
  | .handing r => .handing r.kind r.id

/-- A worker holds the lock until the `unlock` it has still to do. -/
def stageOf (es : List (Effect α)) : TicketLock.Worker ExecId :=
  match es.findSome? Effect.ticket with
  | some id => .holding id
  | none => .idle

def NewWorkerPc.stage : NewWorkerPc α → TicketLock.Worker ExecId
  | .waiting i _ => .waiting i.executionId
  | .checking i _ => .holding i.executionId
  | .running es => stageOf es
  | .dead => .idle

def CancelWorkerPc.stage : CancelWorkerPc α → TicketLock.Worker ExecId
  | .waiting i => .waiting i.executionId
  | .checking i => .holding i.executionId
  | .running es => stageOf es
  | .dead => .idle

def CancelUnitPc.tickets : CancelUnitPc α → List ExecId
  | .running es => es.filterMap Effect.ticket
  | .found i | .verified i _ => [i.executionId]
  | .dead => []

/-- A new order that would be queued is a Limit order. -/
def NewOrder.decided (i : Context (NewOrderSingle α)) : Bool :=
  i.message.price.isNone || i.message.orderQty.isNone || !i.message.side.supported ||
    i.message.ordType = .limit

/-- A cancel with a quantity names a side the market trades. -/
def Cancel.decided (i : Context (OrderCancelRequest α)) : Bool :=
  i.message.orderQty.isNone || i.message.side.supported

namespace Market

variable [LinearOrder α]

/-- The market's tickets (module doc). -/
def lockState (m : Market α) : TicketLock.State Kind ExecId where
  queue := m.mutex.queue
  locked := m.mutex.locked
  router := m.router.stage
  unit
    | .newOrder => m.newUnit.filterMap Effect.ticket ++ m.newInput.map Context.executionId
    | .cancel => m.cancelUnit.tickets ++ m.cancelInput.map Context.executionId
  ready
    | .newOrder => m.newQueue.map Context.executionId
    | .cancel => m.cancelQueue.map Context.executionId
  worker
    | .newOrder => m.newWorker.stage
    | .cancel => m.cancelWorker.stage
  routed
    | .newOrder => m.routedNew
    | .cancel => m.routedCancel
  handed := m.handed
  finished := m.finished
  queued := m.queued
  unlocked := m.unlocked.map fun u => (u.worker, u.popped)

/-- The tickets a thread has to deal with. -/
def holds (m : Market α) : Thread → List ExecId
  | .router =>
    match m.router with
    | .handing r => [r.id]
    | _ => []
  | .newUnit => m.lockState.unit .newOrder
  | .newWorker => (m.lockState.worker .newOrder).tickets ++ m.lockState.ready .newOrder
  | .cancelUnit => m.lockState.unit .cancel
  | .cancelWorker => (m.lockState.worker .cancel).tickets ++ m.lockState.ready .cancel
  | .eventUnit | .pool => []

/-- The step leaves `onInput` on a path that releases the ticket or passes it on, and not both: the
request taken up is `decided`, and the order whose id was found is still in the book. -/
def ticketSafe (m : Market α) : Action α → Bool
  | .run .newUnit _ _ => !m.newUnit.isEmpty || m.newInput.head?.all NewOrder.decided
  | .run .cancelUnit _ _ =>
    match m.cancelUnit with
    | .running [] => m.cancelInput.head?.all Cancel.decided
    | .found i => m.ob.has i.message.origClOrdId
    | _ => true
  | _ => true

end Market

end Fix42
