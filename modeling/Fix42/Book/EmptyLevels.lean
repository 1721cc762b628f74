import Fix42.Book.Ledger
import Fix42.Book.Proof.Rep
import Fix42.Book.Quantity
import Fix42.Book.Tape

/-!
# Empty price levels

Cancels and fills leave levels behind whose list is empty. Two books that differ in such levels and in
node addresses only are `Similar`; a `Twin` is two books taking the same requests, and `Worker.seen`
what a request shows of each.
-/

namespace Fix42

variable {α : Type*}

/-- The orders of a side with their prices, level by level and in arrival order. -/
def pricedOrders (levels : List (α × OrderList α)) : List (α × Order α) :=
  (SortedMap.flat levels).map fun x => (x.1, x.2.order)

/-- Two books with the same orders and ticks, each indexed by its own id maps. -/
structure OrderBook.Similar [LinearOrder α] (a b : OrderBook α) : Prop where
  tick : a.tick = b.tick
  eventOutput : a.eventOutput = b.eventOutput
  asks : pricedOrders a.askBook.entries = pricedOrders b.askBook.entries
  bids : pricedOrders a.bidBook.entries = pricedOrders b.bidBook.entries
  left : RepInv a
  right : RepInv b

variable [Field α] [LinearOrder α]

/-- What a request shows: how the worker answers, and the trades. -/
structure Seen (α : Type*) where
  answer : Verdict ⊕ Except Fault (Cancel.Refusal ⊕ Order α)
  trades : List (Trade α)

def Worker.seen (ob : OrderBook α) (op : Worker.Op α) : Seen α where
  answer :=
    match op with
    | .newOrder i => .inl (NewOrder.verdict ob i.info).1
    | .cancel i => .inr (Cancel.verifyOrderStateWithLock ob i.origClOrdId i.orderQty i.side)
  trades := trades ((Worker.fillCalls ob op).flatMap FillCall.entries)

/-- Two order books that take the same requests. -/
structure Twin (α : Type*) [LinearOrder α] where
  left : OrderBook α
  right : OrderBook α

namespace Twin

def step (t : Twin α) (op : Worker.Op α) : Option (Twin α) := do
  let left ← Worker.step t.left op
  let right ← Worker.step t.right op
  pure ⟨left, right⟩

/-- An accepted order is cut short by the tick rule in both books or in neither. -/
def SameStop (t : Twin α) : Worker.Op α → Prop
  | .newOrder i => (NewOrder.verdict t.left i.info).1 = .accepted →
      t.left.tickStops i = t.right.tickStops i
  | .cancel _ => True

instance (t : Twin α) : ∀ op, Decidable (t.SameStop op)
  | .newOrder i => inferInstanceAs (Decidable (_ → t.left.tickStops i = t.right.tickStops i))
  | .cancel _ => inferInstanceAs (Decidable True)

end Twin

end Fix42
