import Fix42.Book.Serve
import Fix42.Market.Serial

/-!
# A market with the record of what it served

`ServedMarket` is a market with the requests routed to it and, for each request its workers have dealt
with, what it asked of the exchange and how it was answered. A request is served at one step of its
worker: when the worker finds it ruled out, or when it changes the book.
-/

namespace Fix42

variable {α : Type*}

/-- A request a worker has dealt with. -/
structure Served (α : Type*) where
  id : ExecId
  op : Reference.Op α
  outcome : Reference.Outcome α

/-- What a routed request asks of the exchange; the user is the one its client is logged in as when the
worker takes it up. -/
inductive Request.Asks : Request α → Reference.Op α → Prop
  | newOrder (i : Context (NewOrderSingle α)) (o : Reference.Incoming α)
      (orderId : o.orderId = i.message.clOrdId) (quantity : i.message.orderQty = some o.quantity)
      (limit : i.message.price = some o.limit) (side : o.side = i.message.side) :
      Asks (.newOrder i) (.enter o)
  | cancel (i : Context (OrderCancelRequest α)) (qty : α) (quantity : i.message.orderQty = some qty) :
      Asks (.cancel i) (.withdraw i.message.origClOrdId qty i.message.side)

structure ServedMarket (α : Type*) [LinearOrder α] where
  market : Market α
  routed : List (Request α)
  served : List (Served α)

namespace Market

variable [Field α] [LinearOrder α]

/-- The request the NewOrder worker deals with in a step to `m'`. -/
def servesNew (m m' : Market α) : Option (Served α) :=
  match m.newWorker with
  | .checking i info =>
    match (NewOrder.verdict m.ob info).1 with
    | .accepted => none
    | v => some ⟨i.executionId, .enter info.incoming, v.outcome []⟩
  | .running (.add info :: _) =>
    let new := m'.ob.eventOutput.drop m.ob.eventOutput.length
    some ⟨info.order.submission, .enter info.incoming, .accepted (fillsOf info.order.userId new)⟩
  | _ => none

/-- The request the Cancel worker deals with next. -/
def servesCancel (m : Market α) : Option (Served α) :=
  let check (i : Context (OrderCancelRequest α)) (qty : α) :=
    Cancel.verifyOrderStateWithLock m.ob i.message.origClOrdId qty i.message.side
  let served (i : Context (OrderCancelRequest α)) (qty : α) (v : Cancel.Refusal ⊕ Order α) :=
    some ⟨i.executionId, .withdraw i.message.origClOrdId qty i.message.side, Cancel.outcome v⟩
  match m.cancelWorker with
  | .checking i =>
    i.message.orderQty.bind fun qty =>
      match check i qty with
      | .ok (.inl r) => served i qty (.inl r)
      | _ => none
  | .running (.cancel i :: _) =>
    i.message.orderQty.bind fun qty =>
      match check i qty with
      | .ok (.inr o) => served i qty (.inr o)
      | _ => none
  | _ => none

/-- What is served in a step to `m'`. -/
def serves (m m' : Market α) : Action α → Option (Served α)
  | .run .newWorker _ _ => m.servesNew m'
  | .run .cancelWorker _ _ => m.servesCancel
  | _ => none

end Market

/-- The request an action routes. -/
def Action.routes : Action α → List (Request α)
  | .route r => [r]
  | _ => []

namespace ServedMarket

variable [Field α] [LinearOrder α]

def new (name : String) : ServedMarket α := ⟨Market.new name, [], []⟩

def step (s : ServedMarket α) (a : Action α) : Option (ServedMarket α) :=
  (s.market.step a).map fun market =>
    ⟨market, s.routed ++ a.routes, s.served ++ (s.market.serves market a).toList⟩

/-- New orders are for a positive quantity. -/
def Positive (_ : ServedMarket α) : Action α → Prop
  | .route (.newOrder i) => ∀ qty ∈ i.message.orderQty, 0 < qty
  | _ => True

instance (s : ServedMarket α) : ∀ a, Decidable (s.Positive a)
  | .route (.newOrder i) => inferInstanceAs (Decidable (∀ qty ∈ i.message.orderQty, 0 < qty))
  | .route (.cancel _) | .session _ _ | .run _ _ _ => .isTrue trivial

end ServedMarket

end Fix42
