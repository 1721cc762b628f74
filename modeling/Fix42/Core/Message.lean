import Fix42.Core.Types

/-!
# Messages

The two requests the market takes and the three kinds of message it answers with, each with the
fields its units read or set, and the context a request arrives in.
-/

namespace Fix42

/-- A connected client (`ClientStore::Client`). -/
abbrev Client := Nat

/-- What a reject quotes of the request's header. -/
structure Header where
  msgSeqNum : UInt32
  msgType : Char
  deriving DecidableEq, Repr

structure NewOrderSingle (α : Type*) where
  clOrdId : OrderId
  side : Side
  orderQty : Option α
  ordType : OrderType
  price : Option α
  deriving DecidableEq

structure OrderCancelRequest (α : Type*) where
  origClOrdId : OrderId
  clOrdId : OrderId
  side : Side
  orderQty : Option α
  deriving DecidableEq

/-- `Context<data::ParsedMessage<T>>`. -/
structure Context (μ : Type*) where
  client : Client
  receiveTime : Int
  executionId : ExecId
  header : Header
  message : μ
  deriving DecidableEq

/-! ## Answers -/

structure ExecutionReport (α : Type*) where
  orderId : OrderId
  clOrdId : Option OrderId := none
  execId : ExecId
  execTransType : TransactionType
  execType : ExecutionStatus
  ordStatus : OrderStatus
  ordRejReason : Option OrderRejectReason := none
  symbol : String
  side : Option Side := none
  orderQty : Option α := none
  ordType : Option OrderType := none
  price : Option α := none
  leavesQty : α
  lastShares : Option α := none
  lastPx : Option α := none
  cumQty : α
  avgPx : α
  text : Option String := none
  deriving DecidableEq

structure BusinessReject where
  refSeqNum : Option UInt32
  refMsgType : Char
  businessRejectRefId : Option String
  businessRejectReason : RejectReasonBusiness
  text : Option String
  deriving DecidableEq

structure OrderCancelReject where
  orderId : OrderId
  origClOrdId : OrderId
  ordStatus : OrderStatus
  cxlRejResponseTo : CancelRejectResponseTo
  cxlRejReason : Option CancelRejectReason
  text : Option String
  deriving DecidableEq

inductive Report (α : Type*)
  | execution (r : ExecutionReport α)
  | business (r : BusinessReject)
  | cancelReject (r : OrderCancelReject)
  deriving DecidableEq

def Report.execution? {α : Type*} : Report α → Option (ExecutionReport α)
  | .execution r => some r
  | .business _ | .cancelReject _ => none

theorem Report.execution?_eq_some {α : Type*} {report : Report α} {r : ExecutionReport α}
    (h : report.execution? = some r) : report = .execution r := by
  cases report with
  | execution r' =>
    cases h
    rfl
  | business | cancelReject => cases h

/-- An entry of the server's output queue. `about` is not in the source: the submission whose order
an execution report is about. -/
structure Output (α : Type*) where
  client : Client
  receiveTime : Int
  report : Report α
  about : Option ExecId := none
  deriving DecidableEq

end Fix42
