import Fix42.Book.Crossing
import Fix42.Book.Reference
import Fix42.Lib.Allotment

/-!
# Price-time priority

What an incoming order can trade with (`OrderBook.claims`), in the order in which the book lists it, and
the order in which a market serves it (`Quote.Ahead`). Book.Proof.Priority shows that the two orders are
one, and that the book gives an incoming quantity out to the claims as `Allotment.allot` does.
-/

namespace Fix42

variable {α : Type*}

/-- `x` is served before `y`: it is at a better price, or at the same price and came first. -/
def Quote.Ahead (better : α → α → Prop) (x y : Quote α) : Prop :=
  better x.price y.price ∨ x.price = y.price ∧ x.arrival < y.arrival

/-- The fill that gives a claim its share. -/
def Reference.Fill.ofShare (share : (OrderId × α) × α) : Reference.Fill α :=
  ⟨share.1.1, share.2, share.1.2⟩

namespace OrderBook

variable [LinearOrder α]

/-- Both sides are listed in the order of priority, and later orders come behind. -/
structure Arranged (ob : OrderBook α) : Prop where
  bids : ob.bids.Pairwise (Quote.Ahead (· > ·))
  asks : ob.asks.Pairwise (Quote.Ahead (· < ·))
  arrivals : ∀ q ∈ ob.bids ++ ob.asks, q.arrival < ob.nextNode

/-- The resting orders across from a side. -/
def across (ob : OrderBook α) (side : Side) : List (α × Node α) :=
  if side.isBid then SortedMap.flat ob.askBook.entries else SortedMap.flat ob.bidBook.entries

end OrderBook

namespace NewOrderInput

variable [LinearOrder α]

/-- A price within the limit of an order. -/
def within (i : NewOrderInput α) (price : α) : Bool :=
  if i.side.isBid then price ≤ i.price else price ≥ i.price

/-- The better one of two prices for an order. -/
def better (i : NewOrderInput α) (p p' : α) : Prop := if i.side.isBid then p < p' else p > p'

end NewOrderInput

/-- What an order can trade with: the orders across from it, within its limit, of other users. -/
def OrderBook.claims [LinearOrder α] (ob : OrderBook α) (i : NewOrderInput α) : List (α × Node α) :=
  (ob.across i.side).filter fun x => i.within x.1 && x.2.order.userId ≠ i.userId

/-- A resting order as a claim: its id and its price, and what is left of it. -/
def claim (x : α × Node α) : (OrderId × α) × α := ((x.2.order.orderId, x.1), x.2.order.remainQty)

end Fix42
