import Mathlib.Order.Defs.LinearOrder
import Mathlib.Data.Rat.Defs

/-!
# Core types

The enumerations of `fix42` that the market reads, the order record and its ids. Prices and
quantities (`float` in the source) are numbers of a type `α`; the proofs take any linearly ordered
field, the concrete runs `ℚ`.
-/

namespace Fix42

abbrev UserId := String
abbrev OrderId := String
abbrev ExecId := String

inductive Side
  | buy | sell | buyMinus | sellPlus | sellShort | sellShortExempt | undisclosed | cross | crossShort
  deriving DecidableEq, Repr

/-- `fix42::OrderStatus`, also used as `ExecutionStatus`. -/
inductive OrderStatus
  | newOrder | partiallyFilled | filled | doneForDay | canceled | replaced | pendingCancel | stopped
  | rejected | suspended | pendingNew | caluclated | expired | acceptedBiddingRestated
  | pendingReplace
  deriving DecidableEq, Repr

abbrev ExecutionStatus := OrderStatus

inductive TransactionType
  | new | cancel | correct | status
  deriving DecidableEq, Repr

inductive OrderRejectReason
  | brokerOption | unknowSymbol | exchangeClose | orderExceedLimit | tooLate | unknownOrder
  | duplicate | duplicateVerbally | staleOrder
  deriving DecidableEq, Repr

inductive RejectReasonBusiness
  | other | unknownId | unknownSecurity | unsupportedMsgType | appNotAvailable | condReqFieldMissing
  deriving DecidableEq, Repr

inductive OrderType
  | market | limit | stop | stopLimit | marketOnClose | withOrWithout | limitOrBetter
  | limitWithOrWithout | onBasis | onClose | limitOnClose | forexMarket | prevQuoted
  | prevIndicated | forexLimit | forexSwap | forexPrevQuoted | funari | pegged
  deriving DecidableEq, Repr

inductive CancelRejectResponseTo
  | cancelRequest | replaceRequest
  deriving DecidableEq, Repr

inductive CancelRejectReason
  | tooLateCancel | unknownOrderCancel | brokerOptionCancel | orderPendingCancelorReplace
  deriving DecidableEq, Repr

/-! ## Sides of the book -/

/-- The sides whose orders rest in the bid book. -/
def Side.isBid : Side → Bool
  | .buy | .buyMinus => true
  | _ => false

/-- The sides whose orders rest in the ask book. -/
def Side.isAsk : Side → Bool
  | .sell | .sellPlus => true
  | _ => false

/-- The sides the market trades. -/
def Side.supported (s : Side) : Bool := s.isBid || s.isAsk

@[simp] theorem Side.isAsk_of_isBid {s : Side} (h : s.isBid = true) : s.isAsk = false := by
  cases s <;> simp_all [isBid, isAsk]

@[simp] theorem Side.isBid_of_isAsk {s : Side} (h : s.isAsk = true) : s.isBid = false := by
  cases s <;> simp_all [isBid, isAsk]

theorem Side.supported_sell : Side.sell.supported = true := rfl

theorem Side.supported_buy : Side.buy.supported = true := rfl

/-! ## Orders -/

/-- `struct Order`. `submission` is not in the source: it names the request that submitted the
order (its execution id), so that reports of two orders with one client-chosen id stay apart. -/
structure Order (α : Type*) where
  userId : UserId
  orderId : OrderId
  originalQty : α
  remainQty : α
  avgPrice : α
  side : Side
  status : OrderStatus
  submission : ExecId
  deriving DecidableEq, Repr

/-- What the book has executed of an order. -/
def Order.cumQty {α : Type*} [Sub α] (o : Order α) : α := o.originalQty - o.remainQty

/-- The same order, however much of either is filled. -/
structure Order.SameAs {α : Type*} (o o' : Order α) : Prop where
  submission : o.submission = o'.submission
  orderId : o.orderId = o'.orderId
  side : o.side = o'.side
  userId : o.userId = o'.userId

theorem Order.SameAs.refl {α : Type*} (o : Order α) : o.SameAs o := ⟨rfl, rfl, rfl, rfl⟩

theorem Order.SameAs.trans {α : Type*} {o o' o'' : Order α} (h : o.SameAs o') (h' : o'.SameAs o'') :
    o.SameAs o'' :=
  ⟨h.submission.trans h'.submission, h.orderId.trans h'.orderId, h.side.trans h'.side,
    h.userId.trans h'.userId⟩

instance {α : Type*} (o o' : Order α) : Decidable (o.SameAs o') :=
  decidable_of_iff (o.submission = o'.submission ∧ o.orderId = o'.orderId ∧ o.side = o'.side ∧
    o.userId = o'.userId) ⟨fun ⟨h1, h2, h3, h4⟩ => ⟨h1, h2, h3, h4⟩, fun ⟨h1, h2, h3, h4⟩ =>
      ⟨h1, h2, h3, h4⟩⟩

end Fix42
