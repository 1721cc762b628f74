import Fix42.Market.Model

/-!
# One call of `Cancel::onInput`

The whole call on one state of the market, with nothing between its accesses; an exception that
leaves it is a `Fault`. `Market.cancelUnitStep` is the same code one access at a time. `Rejected` and
`Accepted` are the two ways a call is meant to end.
-/

namespace Fix42

variable {α : Type*}

/-- The switch of `lockReadOrder`. -/
def lockReadOrder.{u} (side : Side) : Except Fault PUnit.{u + 1} :=
  if side.supported then .ok ⟨⟩ else .error (.thrown "Side not supported, for lockReadOrder")

/-- A message that refuses a request. -/
def Report.isRejection : Report α → Bool
  | .business _ | .cancelReject _ => true
  | .execution _ => false

variable [Field α] [LinearOrder α]

/-- Carries out effects in order. -/
def Market.execAll (m : Market α) (es : List (Effect α)) : Except Fault (Market α) :=
  es.foldlM Market.exec m

namespace Cancel

/-- `verifyOrderState`: what it sends before it returns nothing, or the order. -/
def verifyOrderState (ob : OrderBook α) (i : Context (OrderCancelRequest α)) :
    Except Fault (List (Effect α) ⊕ Order α) := do
  lockReadOrder i.message.side
  if !ob.hasSide i.message.origClOrdId i.message.side then
    pure (.inl (unknownOrder i))
  else
    let order ← ob.getOrder i.message.origClOrdId
    if order.side ≠ i.message.side then pure (.inl (otherSide i)) else pure (.inr order)

/-- Whether the unit reports the request as pending before it queues it. -/
def busy (m : Market α) (i : Context (OrderCancelRequest α)) : Bool :=
  !m.cancelQueue.isEmpty || m.mutex.queue.head? ≠ some i.executionId

/-- `onInput`. -/
def onInput (m : Market α) (i : Context (OrderCancelRequest α)) : Except Fault (Market α) :=
  if i.message.orderQty.isNone then m.execAll (noQuantity i)
  else do
    match ← verifyOrderState m.ob i with
    | .inl es => m.execAll es
    | .inr order => m.execAll (accept m.ob.name i order (busy m i))

/-- One rejection goes to the request's client, the ticket is finished, the book is as before. -/
structure Rejected (i : Context (OrderCancelRequest α)) (m m' : Market α) : Prop where
  ob : m'.ob = m.ob
  mutex : m'.mutex = m.mutex.finish i.executionId
  queue : m'.cancelQueue = m.cancelQueue
  output : ∃ out, m'.output = m.output ++ [out] ∧ out.client = i.client ∧
    out.report.isRejection = true

/-- The request waits for the worker and keeps its ticket, the book is as before; at most a pending
report about the order is sent. -/
structure Accepted (i : Context (OrderCancelRequest α)) (m m' : Market α) : Prop where
  ob : m'.ob = m.ob
  mutex : m'.mutex = m.mutex
  queue : m'.cancelQueue = m.cancelQueue ++ [i]
  output : m'.output = m.output ∨ ∃ order, m.ob.getOrder i.message.origClOrdId = .ok order ∧
    m'.output = m.output ++ [pendingCancel m.ob.name i order]

end Cancel

end Fix42
