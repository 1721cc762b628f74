import Fix42.Book.Calls
import Fix42.Book.Worker
import Fix42.Lib.Tally

/-!
# The tape

A `Tape` is an order book with what it has done so far, trades and events in the order they
happened. Two histories are read off it: what an order has traded for (`turnover`), against which
`PricedIn` holds the average prices reported, and the trade prices, of which `Tick.ofHistory` makes
the tick record without a fold: from the last two prices and the last change of price.
-/

namespace Fix42

variable {α : Type*}

structure Trade (α : Type*) where
  taker : ExecId
  maker : ExecId
  price : α
  quantity : α
  deriving DecidableEq

inductive TapeEntry (α : Type*)
  | trade (t : Trade α)
  | event (e : Event α)
  deriving DecidableEq

def trades (log : List (TapeEntry α)) : List (Trade α) :=
  log.filterMap fun
    | .trade t => some t
    | .event _ => none

def events (log : List (TapeEntry α)) : List (Event α) :=
  log.filterMap fun
    | .trade _ => none
    | .event e => some e

/-! ## What an order has traded for -/

/-- Price times quantity of a trade, for each of its two orders. -/
def Trade.amounts [Mul α] (t : Trade α) : List (ExecId × α) :=
  [(t.taker, t.price * t.quantity), (t.maker, t.price * t.quantity)]

/-- The sum of price times quantity over the trades of an order. -/
def turnover [Semiring α] (log : List (TapeEntry α)) (submission : ExecId) : α :=
  tally ((trades log).flatMap Trade.amounts) submission

/-- The average price of an order is the one of its trades in `log`. -/
def Order.PricedBy [Ring α] (log : List (TapeEntry α)) (o : Order α) : Prop :=
  o.avgPrice * o.cumQty = turnover log o.submission

/-- Every event gives the average price of the trades before it. -/
def PricedIn [Ring α] (log : List (TapeEntry α)) : Prop :=
  ∀ pre e post, log = pre ++ .event e :: post → e.order.PricedBy pre

/-! ## Ticks of a history of prices -/

section
variable [LinearOrder α]

/-- Whether the last change in a history of prices, last price first, was upwards; a history
without a change counts as rising. -/
def roseLast : List α → Bool
  | p :: q :: ps => if q < p then true else if p < q then false else roseLast (q :: ps)
  | _ => true

/-- The tick of a history of prices, last price first. -/
def tickOf : List α → TickDirection
  | p :: q :: ps =>
    if q < p then .plusTick
    else if p < q then .minusTick
    else if roseLast (q :: ps) then .zeroPlusTick else .zeroMinusTick
  | _ => .zeroPlusTick

/-- The tick record after trades at these prices, last price first, from the initial price 0. -/
def Tick.ofHistory [Zero α] (prices : List α) : Tick α where
  lastprice := (prices ++ [0]).headD 0
  lastpriceDiff := (prices ++ [0]).tail.headD 0
  tick := tickOf (prices ++ [0])

/-- The tick record of a new order book. -/
def Tick.initial [Zero α] : Tick α := ⟨0, 0, .zeroPlusTick⟩

/-- A trade, or a question whether the tick rule allows a side. -/
inductive TickOp (α : Type*)
  | trade (price : α)
  | query (side : Side)

/-- The answers to the queries among trades and queries, and the tick record they leave. -/
def Tick.serve : Tick α → List (TickOp α) → List Bool × Tick α
  | t, [] => ([], t)
  | t, .trade price :: ops => (t.trade price).serve ops
  | t, .query side :: ops =>
    let r := (t.allowTick side).2.serve ops
    ((t.allowTick side).1 :: r.1, r.2)

/-- The prices among trades and queries, last price first, after the prices `before`. -/
def pricesAfter (before : List α) : List (TickOp α) → List α
  | [] => before
  | .trade price :: ops => pricesAfter (price :: before) ops
  | .query _ :: ops => pricesAfter before ops

/-- The answers by the history of prices alone. -/
def answersAfter [Zero α] (before : List α) : List (TickOp α) → List Bool
  | [] => []
  | .trade price :: ops => answersAfter (price :: before) ops
  | .query side :: ops => (Tick.ofHistory before).allows side :: answersAfter before ops

end

/-! ## Runs -/

section
variable [Field α] [LinearOrder α]

/-- What a call of `fillOrder` puts on the tape. -/
def FillCall.entries (c : FillCall α) : List (TapeEntry α) :=
  let r := fillOrder c.main c.price c.order
  if r.status = .skipped then []
  else .trade ⟨c.main.order.submission, c.order.submission, r.main.lastPrice, r.main.lastQty⟩ ::
    r.pushed.map .event

/-- What an `add` from `ob` to `ob'` puts on the tape: its fills, then the events it pushes after
them. -/
def OrderBook.recorded (ob ob' : OrderBook α) (info : OrderInfo α) : List (TapeEntry α) :=
  let fills := (ob.fillCalls info).flatMap FillCall.entries
  fills ++ (ob'.eventOutput.drop (ob.eventOutput.length + (events fills).length)).map .event

/-- A call of the order book. -/
inductive BookCall (α : Type*)
  | add (i : NewOrderInput α)
  | cancel (id : OrderId) (side : Side)
  | allowTick (side : Side)

structure Tape (α : Type*) [LinearOrder α] where
  ob : OrderBook α
  log : List (TapeEntry α)
  submitted : List ExecId

namespace Tape

def new (name : String) : Tape α := ⟨OrderBook.new name, [], []⟩

def step (t : Tape α) : BookCall α → Option (Tape α)
  | .add i => (t.ob.add i.info).toOption.map fun ob =>
    ⟨ob, t.log ++ t.ob.recorded ob i.info, t.submitted ++ [i.executionId]⟩
  | .cancel id side => (t.ob.cancel id side).toOption.map fun ob => { t with ob }
  | .allowTick side => some { t with ob := (t.ob.allowTick side).2 }

/-- The trade prices, last one first. -/
def prices (t : Tape α) : List α := ((trades t.log).map Trade.price).reverse

/-- An order is added for a positive quantity, each under a submission of its own. -/
def Proper (t : Tape α) : BookCall α → Prop
  | .add i => 0 < i.orderQty ∧ i.executionId ∉ t.submitted
  | .cancel _ _ | .allowTick _ => True

instance (t : Tape α) : ∀ call, Decidable (t.Proper call)
  | .add i => inferInstanceAs (Decidable (0 < i.orderQty ∧ i.executionId ∉ t.submitted))
  | .cancel _ _ | .allowTick _ => inferInstanceAs (Decidable True)

end Tape

end

end Fix42
