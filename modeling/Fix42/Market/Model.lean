import Fix42.Market.Units

/-!
# One market, all its threads

The router, the NewOrder and Cancel units with their workers, and the event unit with its pool of
one worker, as a step function on the state they share. `Market.step` takes one access of one thread
at a time, so its runs are all interleavings. Book operations are single steps; the read locks on the
id maps, which only exclude some of these interleavings, are left out.

`routedNew`, `routedCancel`, `handed`, `finished`, `queued` and `unlocked` are records of what
happened and not in the source.
-/

namespace Fix42

/-- A parsed request on its way to a unit. -/
inductive Request (α : Type*)
  | newOrder (i : Context (NewOrderSingle α))
  | cancel (i : Context (OrderCancelRequest α))

def Request.id {α : Type*} : Request α → ExecId
  | .newOrder i => i.executionId
  | .cancel i => i.executionId

/-- Where the router is in `redirectToMarket`. -/
inductive RouterPc (α : Type*)
  | idle
  | allowing (r : Request α)
  | handing (r : Request α)

/-- The Cancel unit's `onInput`: between its reads of the book and of the ticket queue, and then in
a list of effects. -/
inductive CancelUnitPc (α : Type*)
  | running (es : List (Effect α))
  | found (i : Context (OrderCancelRequest α))
  | verified (i : Context (OrderCancelRequest α)) (order : Order α)
  | dead

inductive NewWorkerPc (α : Type*)
  | running (es : List (Effect α))
  | waiting (i : Context (NewOrderSingle α)) (info : OrderInfo α)
  | checking (i : Context (NewOrderSingle α)) (info : OrderInfo α)
  | dead

inductive CancelWorkerPc (α : Type*)
  | running (es : List (Effect α))
  | waiting (i : Context (OrderCancelRequest α))
  | checking (i : Context (OrderCancelRequest α))
  | dead

/-- A worker's unlock: the request it worked on, and the ticket popped. -/
structure Unlock where
  worker : ExecId
  popped : Option ExecId
  deriving DecidableEq

structure Market (α : Type*) [LinearOrder α] where
  ob : OrderBook α
  mutex : QueueMutex
  output : List (Output α)
  clients : List Client
  userId : Client → UserId
  router : RouterPc α
  newInput : List (Context (NewOrderSingle α))
  newUnit : List (Effect α)
  newQueue : List (Context (NewOrderSingle α))
  newWorker : NewWorkerPc α
  cancelInput : List (Context (OrderCancelRequest α))
  cancelUnit : CancelUnitPc α
  cancelQueue : List (Context (OrderCancelRequest α))
  cancelWorker : CancelWorkerPc α
  eventUnit : Option (Event α)
  poolQueue : List (Event α)
  poolWorker : Option (Event α)
  routedNew : List ExecId
  routedCancel : List ExecId
  handed : List ExecId
  finished : List ExecId
  queued : List ExecId
  unlocked : List Unlock

inductive Thread
  | router | newUnit | newWorker | cancelUnit | cancelWorker | eventUnit | pool
  deriving DecidableEq

/-- What can happen: clients come, go and log in, a request reaches the router, a thread goes one
step further (`execId` and `now` are the values it may draw). -/
inductive Action (α : Type*)
  | session (clients : List Client) (userId : Client → UserId)
  | route (r : Request α)
  | run (t : Thread) (execId : ExecId) (now : Int)

namespace Market

variable {α : Type*} [Field α] [LinearOrder α]

def new (name : String) : Market α where
  ob := OrderBook.new name
  mutex := .new
  output := []
  clients := []
  userId := fun _ => ""
  router := .idle
  newInput := []
  newUnit := []
  newQueue := []
  newWorker := .running []
  cancelInput := []
  cancelUnit := .running []
  cancelQueue := []
  cancelWorker := .running []
  eventUnit := none
  poolQueue := []
  poolWorker := none
  routedNew := []
  routedCancel := []
  handed := []
  finished := []
  queued := []
  unlocked := []

/-- Carries out one effect. -/
def exec (m : Market α) : Effect α → Except Fault (Market α)
  | .finish id => .ok { m with mutex := m.mutex.finish id, finished := m.finished ++ [id] }
  | .finishAgain id => .ok { m with mutex := m.mutex.finish id }
  | .unlock id => .ok { m with
      mutex := m.mutex.unlock, unlocked := m.unlocked ++ [⟨id, m.mutex.queue.head?⟩] }
  | .append out => .ok { m with output := m.output ++ [out] }
  | .queueNew i => .ok { m with
      newQueue := m.newQueue ++ [i], queued := m.queued ++ [i.executionId] }
  | .queueCancel i => .ok { m with
      cancelQueue := m.cancelQueue ++ [i], queued := m.queued ++ [i.executionId] }
  | .add info => (m.ob.add info).map fun ob => { m with ob }
  | .cancel i => (m.ob.cancel i.message.origClOrdId i.message.side).map fun ob => { m with ob }

/-- `MarketRouter::redirectToMarket`: the ticket first, then the request. -/
def routerStep (m : Market α) : Option (Market α) :=
  match m.router with
  | .idle => none
  | .allowing r => some { m with router := .handing r, mutex := m.mutex.allow r.id }
  | .handing (.newOrder i) => some { m with
      router := .idle, newInput := m.newInput ++ [i], handed := m.handed ++ [i.executionId] }
  | .handing (.cancel i) => some { m with
      router := .idle, cancelInput := m.cancelInput ++ [i], handed := m.handed ++ [i.executionId] }

def newUnitStep (m : Market α) : Option (Market α) :=
  match m.newUnit with
  | e :: es => (m.exec e).toOption.map fun m => { m with newUnit := es }
  | [] =>
    match m.newInput with
    | [] => none
    | i :: rest => some { m with newInput := rest, newUnit := NewOrder.onInput i }

def newWorkerStep (m : Market α) : Option (Market α) :=
  match m.newWorker with
  | .dead => none
  | .running (e :: es) =>
    match m.exec e with
    | .ok m => some { m with newWorker := .running es }
    | .error _ => some { m with newWorker := .dead }
  | .running [] =>
    match m.newQueue with
    | [] => none
    | i :: rest =>
      match NewOrder.orderInfo (m.userId i.client) i with
      | .ok info => some { m with newQueue := rest, newWorker := .waiting i info }
      | .error _ => some { m with newQueue := rest, newWorker := .dead }
  | .waiting i info =>
    if m.mutex.canLock i.executionId then
      some { m with mutex := m.mutex.lock, newWorker := .checking i info }
    else none
  | .checking i info =>
    let (v, ob) := NewOrder.verdict m.ob info
    some { m with ob, newWorker := .running (NewOrder.orderProcessing ob.name i info v) }

/-- `Cancel::onInput`; an unsupported side makes `lockReadOrder` throw, an id that has left the book
since `has` makes `getOrder` throw. -/
def cancelUnitStep (m : Market α) : Option (Market α) :=
  match m.cancelUnit with
  | .dead => none
  | .running (e :: es) => (m.exec e).toOption.map fun m => { m with cancelUnit := .running es }
  | .running [] =>
    match m.cancelInput with
    | [] => none
    | i :: rest =>
      let m := { m with cancelInput := rest }
      if i.message.orderQty.isNone then
        some { m with cancelUnit := .running (Cancel.noQuantity i) }
      else if !i.message.side.supported then some { m with cancelUnit := .dead }
      else if !m.ob.hasSide i.message.origClOrdId i.message.side then
        some { m with cancelUnit := .running (Cancel.unknownOrder i) }
      else some { m with cancelUnit := .found i }
  | .found i =>
    match m.ob.getOrder i.message.origClOrdId with
    | .error _ => some { m with cancelUnit := .dead }
    | .ok order =>
      if order.side ≠ i.message.side then
        some { m with cancelUnit := .running (Cancel.otherSide i) }
      else some { m with cancelUnit := .verified i order }
  | .verified i order =>
    let busy := !m.cancelQueue.isEmpty || m.mutex.queue.head? ≠ some i.executionId
    some { m with cancelUnit := .running (Cancel.accept m.ob.name i order busy) }

def cancelWorkerStep (m : Market α) : Option (Market α) :=
  match m.cancelWorker with
  | .dead => none
  | .running (e :: es) =>
    match m.exec e with
    | .ok m => some { m with cancelWorker := .running es }
    | .error _ => some { m with cancelWorker := .dead }
  | .running [] =>
    match m.cancelQueue with
    | [] => none
    | i :: rest => some { m with cancelQueue := rest, cancelWorker := .waiting i }
  | .waiting i =>
    if m.mutex.canLock i.executionId then
      some { m with mutex := m.mutex.lock, cancelWorker := .checking i }
    else none
  | .checking i =>
    match i.message.orderQty with
    | none => some { m with cancelWorker := .dead }
    | some qty =>
      match Cancel.verifyOrderStateWithLock m.ob i.message.origClOrdId qty i.message.side with
      | .error _ => some { m with cancelWorker := .dead }
      | .ok v => some { m with
          cancelWorker := .running (Cancel.orderProcessing m.ob.name i v) }

/-- `OBEvent::onInput`: an event goes from the book's queue to the pool's. -/
def eventUnitStep (m : Market α) : Option (Market α) :=
  match m.eventUnit with
  | some e => some { m with eventUnit := none, poolQueue := m.poolQueue ++ [e] }
  | none =>
    match m.ob.eventOutput with
    | [] => none
    | e :: rest => some { m with ob := { m.ob with eventOutput := rest }, eventUnit := some e }

/-- The pool's worker: `createEvent`, for a user who is connected. -/
def poolStep (m : Market α) (execId : ExecId) (now : Int) : Option (Market α) :=
  match m.poolWorker with
  | some e =>
    match m.clients.find? fun c => m.userId c = e.order.userId with
    | none => some { m with poolWorker := none }
    | some client => some { m with
        poolWorker := none
        output := m.output ++ [OBEvent.createEvent m.ob.name client now execId e] }
  | none =>
    match m.poolQueue with
    | [] => none
    | e :: rest => some { m with poolQueue := rest, poolWorker := some e }

/-- One step. Execution ids are generated, so a routed request brings one that is not in use. -/
def step (m : Market α) : Action α → Option (Market α)
  | .session clients userId => some { m with clients, userId }
  | .route r =>
    match m.router with
    | .idle =>
      if r.id ∈ m.routedNew ++ m.routedCancel then none
      else
        match r with
        | .newOrder i => some { m with
            router := .allowing r, routedNew := m.routedNew ++ [i.executionId] }
        | .cancel i => some { m with
            router := .allowing r, routedCancel := m.routedCancel ++ [i.executionId] }
    | _ => none
  | .run .router _ _ => m.routerStep
  | .run .newUnit _ _ => m.newUnitStep
  | .run .newWorker _ _ => m.newWorkerStep
  | .run .cancelUnit _ _ => m.cancelUnitStep
  | .run .cancelWorker _ _ => m.cancelWorkerStep
  | .run .eventUnit _ _ => m.eventUnitStep
  | .run .pool execId now => m.poolStep execId now

/-- The markets any interleaving of the threads can reach from an empty one. -/
abbrev Reachable (name : String) (m : Market α) : Prop := Trans.Reach step (Market.new name) m

/-- `n` steps of one thread. -/
def runs (t : Thread) (n : Nat) : List (Action α) := List.replicate n (.run t "" 0)

end Market

end Fix42
