import Fix42.Book.Ledger
import Fix42.Book.Quantity
import Fix42.Lib.Tally

/-!
# Where the quantity of an order goes

An `Account` is a ledger with the quantity every fill gave to each of its two orders, as the two
events of the fill say it, and the quantity every cancel took out. `Conserved` is the balance:
as much is bought as is sold, and what an order came with is at rest, filled or removed.
-/

namespace Fix42

variable {α : Type*} [Field α] [LinearOrder α]

/-- One order's part in a fill. -/
structure OrderFill (α : Type*) where
  submission : ExecId
  side : Side
  quantity : α
  deriving DecidableEq

/-- The two parts of a call of `fillOrder`: the incoming order's by the main event it leaves, the
resting order's by the event it pushes. -/
def FillCall.fills (c : FillCall α) : List (OrderFill α) :=
  let r := fillOrder c.main c.price c.order
  if r.status = .skipped then []
  else ⟨c.main.order.submission, c.main.order.side, r.main.lastQty⟩ ::
    r.pushed.map fun e => ⟨e.order.submission, e.order.side, e.lastQty⟩

/-- The parts of a request's fills. -/
def Worker.fills (ob : OrderBook α) (op : Worker.Op α) : List (OrderFill α) :=
  (Worker.fillCalls ob op).flatMap FillCall.fills

/-- What a request takes out of the book by a cancel. -/
def Worker.removed (ob : OrderBook α) : Worker.Op α → List (ExecId × α)
  | .newOrder _ => []
  | .cancel i =>
    match Cancel.verifyOrderStateWithLock ob i.origClOrdId i.orderQty i.side with
    | .ok (.inr o) => [(o.submission, o.remainQty)]
    | _ => []

structure Account (α : Type*) [LinearOrder α] extends Ledger α where
  fills : List (OrderFill α)
  removed : List (ExecId × α)

/-- The quantity filled on one side. -/
def sideQty (onSide : Side → Bool) (fills : List (OrderFill α)) : α :=
  ((fills.filter fun f => onSide f.side).map OrderFill.quantity).sum

/-- The remaining quantities of resting orders. -/
def remaining (c : List (α × Node α)) : List (ExecId × α) :=
  c.map fun x => (x.2.order.submission, x.2.order.remainQty)

/-- The quantities of fills. -/
def filled (fills : List (OrderFill α)) : List (ExecId × α) :=
  fills.map fun f => (f.submission, f.quantity)

namespace Account

def new (name : String) : Account α := ⟨.new name, [], []⟩

def step (a : Account α) (op : Worker.Op α) : Option (Account α) :=
  (a.toLedger.step op).map fun l =>
    ⟨l, a.fills ++ Worker.fills a.ob op, a.removed ++ Worker.removed a.ob op⟩

structure Conserved (a : Account α) : Prop where
  sides : sideQty Side.isBid a.fills = sideQty Side.isAsk a.fills
  /-- every part of a fill is an accepted order's, on the order's side -/
  labels : ∀ f ∈ a.fills, ∃ o ∈ a.acked, o.submission = f.submission ∧ o.side = f.side
  orders : ∀ o ∈ a.acked, o.originalQty = tally (remaining a.ob.resting) o.submission +
    tally (filled a.fills) o.submission + tally a.removed o.submission

/-- The order a request is about. -/
def subject (op : Worker.Op α) (o : Order α) : Prop :=
  match op with
  | .newOrder i => o.submission = i.executionId
  | .cancel i => o.orderId = i.origClOrdId

/-- A request leaves every other order that does not trade as it is. -/
def Untouched (a a' : Account α) (op : Worker.Op α) : Prop :=
  ∀ x : α × Node α, ¬ subject op x.2.order →
    x.2.order.submission ∉ (Worker.fills a.ob op).map OrderFill.submission →
    (x ∈ a'.ob.resting ↔ x ∈ a.ob.resting)

end Account

end Fix42
