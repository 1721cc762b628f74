import Fix42.Book.Worker
import Fix42.Core.Message
import Fix42.Market.QueueMutex

/-!
# The units of a market

What `NewOrder`, `Cancel` and `OBEvent` do, as lists of effects on the state they share: tickets,
output queue, internal queues, order book. `NewOrder.onInput` is a function of the request; the other
parts read the book first and are split at those reads (Market.Model interleaves them).

A unit that would throw has no effect list: the exception ends its thread.
-/

namespace Fix42

variable {α : Type*}

/-- One access to what the threads of a market share. -/
inductive Effect (α : Type*)
  /-- `m_mutex.finish(id)` -/
  | finish (id : ExecId)
  /-- `m_mutex.finish(id)` on a path that has already finished this ticket -/
  | finishAgain (id : ExecId)
  /-- `m_mutex.unlock()` by the worker of request `id` -/
  | unlock (id : ExecId)
  /-- `m_tcp_output.append(…)` -/
  | append (out : Output α)
  /-- `m_internal_queue.push(…)` of either unit -/
  | queueNew (i : Context (NewOrderSingle α))
  | queueCancel (i : Context (OrderCancelRequest α))
  /-- `m_ob.add(info)` -/
  | add (info : OrderInfo α)
  /-- `m_ob.cancel(origin_id, side)` for request `i` -/
  | cancel (i : Context (OrderCancelRequest α))

/-- A reject of request `i` sent back to its client. -/
def businessReject {μ : Type*} (i : Context μ) (refId : OrderId) (reason : RejectReasonBusiness)
    (text : String) : Output α where
  client := i.client
  receiveTime := i.receiveTime
  report := .business
    { refSeqNum := some i.header.msgSeqNum, refMsgType := i.header.msgType,
      businessRejectRefId := some refId, businessRejectReason := reason, text := some text }

/-! ## New orders -/

namespace NewOrder

def reject (i : Context (NewOrderSingle α)) (reason : RejectReasonBusiness) (text : String) :
    Effect α := .append (businessReject i i.message.clOrdId reason text)

def notSupportedOrderType (i : Context (NewOrderSingle α)) : Effect α :=
  reject i .other "Not supported order type"

def notSupportedSide (i : Context (NewOrderSingle α)) : Effect α :=
  reject i .other "Not supported side"

/-- `NewOrder::onInput`. The branch of an unsupported order type finishes the ticket and goes on to
the side. -/
def onInput (i : Context (NewOrderSingle α)) : List (Effect α) :=
  let id := i.executionId
  if i.message.price.isNone then
    [.finish id, reject i .condReqFieldMissing "Price required when OrderType is Limit"]
  else if i.message.orderQty.isNone then
    [.finish id, reject i .condReqFieldMissing "Order quantity required"]
  else if i.message.ordType = .limit then
    if i.message.side.supported then [.queueNew i]
    else [.finish id, notSupportedSide i, .finishAgain id]
  else
    [notSupportedOrderType i, .finish id] ++
      if i.message.side.supported then [.queueNew i]
      else [.finishAgain id, notSupportedSide i, .finishAgain id]

variable [Field α] [LinearOrder α]

/-- The `OrderInfo` the worker builds from a queued request; `value()` throws on a missing price or
quantity. -/
def orderInfo (userId : UserId) (i : Context (NewOrderSingle α)) : Except Fault (OrderInfo α) :=
  match i.message.price, i.message.orderQty with
  | some price, some qty =>
    .ok (newOrderInfo userId i.executionId i.message.clOrdId price qty i.message.side)
  | _, _ => .error (.thrown "bad optional access")

/-- The part the worker's three execution reports share. -/
def report (symbol : String) (info : OrderInfo α) (status : OrderStatus) (leavesQty : α) :
    ExecutionReport α where
  orderId := info.order.orderId
  execId := info.execid
  execTransType := .new
  execType := status
  ordStatus := status
  symbol
  side := some info.order.side
  orderQty := some info.order.originalQty
  ordType := some .limit
  price := some info.price
  leavesQty
  lastShares := some 0
  lastPx := some 0
  cumQty := 0
  avgPx := 0

/-- The answer to request `i`, about the order `info` it submits. -/
def answer (i : Context (NewOrderSingle α)) (info : OrderInfo α) (r : ExecutionReport α) :
    Output α :=
  { client := i.client, receiveTime := i.receiveTime, report := .execution r,
    about := some info.order.submission }

def acknowledgement (symbol : String) (i : Context (NewOrderSingle α)) (info : OrderInfo α) :
    Output α :=
  answer i info (report symbol info .newOrder info.order.remainQty)

/-- What the worker does once its check under the lock has answered `v`. -/
def orderProcessing (symbol : String) (i : Context (NewOrderSingle α)) (info : OrderInfo α) :
    Verdict → List (Effect α)
  | .tickRefused => [.unlock i.executionId, .append (answer i info
      { report symbol info .rejected 0 with
        text := some "Invalid tick direction for selected side" })]
  | .accepted => [.append (acknowledgement symbol i info), .add info, .unlock i.executionId]
  | .duplicate => [.unlock i.executionId, .append (answer i info
      { report symbol info .rejected 0 with
        ordRejReason := some .duplicate
        text := some "Order Id already used" })]

end NewOrder

/-! ## Cancels -/

namespace Cancel

/-- An `OrderCancelReject` of request `i`. -/
def reject (i : Context (OrderCancelRequest α)) (orderId : OrderId) (reason : CancelRejectReason)
    (text : String) : Effect α :=
  .append
    { client := i.client, receiveTime := i.receiveTime
      report := .cancelReject
        { orderId, origClOrdId := i.message.clOrdId, ordStatus := .rejected,
          cxlRejResponseTo := .cancelRequest, cxlRejReason := some reason, text := some text } }

/-- `Cancel::onInput` without a quantity. -/
def noQuantity (i : Context (OrderCancelRequest α)) : List (Effect α) :=
  [.finish i.executionId,
    .append (businessReject i i.message.clOrdId .condReqFieldMissing "Quantity is required")]

/-- `verifyOrderState` on an id its side does not have. -/
def unknownOrder (i : Context (OrderCancelRequest α)) : List (Effect α) :=
  [reject i "NONE" .unknownOrderCancel "Unknow order Id on this side", .finish i.executionId]

/-- `verifyOrderState` on an order of another side. -/
def otherSide (i : Context (OrderCancelRequest α)) : List (Effect α) :=
  [reject i i.message.origClOrdId .unknownOrderCancel "Side doesn't exactly match",
    .finish i.executionId]

section
variable [Sub α]

/-- The part the unit's two execution reports share. -/
def report (symbol : String) (i : Context (OrderCancelRequest α)) (order : Order α)
    (execType : ExecutionStatus) (leavesQty : α) : ExecutionReport α where
  orderId := i.message.origClOrdId
  clOrdId := some i.message.clOrdId
  execId := i.executionId
  execTransType := .cancel
  execType
  ordStatus := order.status
  symbol
  leavesQty
  cumQty := order.cumQty
  avgPx := order.avgPrice

/-- The answer to request `i`, about the order it names. -/
def answer (i : Context (OrderCancelRequest α)) (order : Order α) (r : ExecutionReport α) :
    Output α :=
  { client := i.client, receiveTime := i.receiveTime, report := .execution r,
    about := some order.submission }

def pendingCancel (symbol : String) (i : Context (OrderCancelRequest α)) (order : Order α) :
    Output α :=
  answer i order (report symbol i order .pendingCancel order.remainQty)

/-- The end of `onInput`: `busy` when another ticket or request is before this one. -/
def accept (symbol : String) (i : Context (OrderCancelRequest α)) (order : Order α) (busy : Bool) :
    List (Effect α) :=
  (if busy then [.append (pendingCancel symbol i order)] else []) ++ [.queueCancel i]

def canceled [Zero α] (symbol : String) (i : Context (OrderCancelRequest α)) (order : Order α) :
    Output α :=
  answer i order { report symbol i order .canceled 0 with side := some i.message.side }

/-- What the worker does once `verifyOrderStateWithLock` has answered. -/
def orderProcessing [Zero α] (symbol : String) (i : Context (OrderCancelRequest α)) :
    Refusal ⊕ Order α → List (Effect α)
  | .inl .notFound => [.unlock i.executionId,
      reject i i.message.origClOrdId .tooLateCancel "Order already processed"]
  | .inl .quantity => [.unlock i.executionId,
      reject i i.message.origClOrdId .tooLateCancel "Order has invalid quantity"]
  | .inr order => [.cancel i, .unlock i.executionId, .append (canceled symbol i order)]

end

end Cancel

/-! ## Events -/

namespace OBEvent

/-- `createEvent`, for a client found under the order's user id. -/
def createEvent [Sub α] (symbol : String) (client : Client) (now : Int) (execId : ExecId)
    (e : Event α) : Output α where
  client
  receiveTime := now
  report := .execution
    { orderId := e.order.orderId, execId, execTransType := .new, execType := e.execStatus,
      ordStatus := e.order.status, symbol, side := some e.order.side,
      orderQty := some e.order.originalQty, ordType := some .limit, leavesQty := e.order.remainQty,
      lastShares := some e.lastQty, lastPx := some e.lastPrice, cumQty := e.order.cumQty,
      avgPx := e.order.avgPrice }
  about := some e.order.submission

end OBEvent

end Fix42
