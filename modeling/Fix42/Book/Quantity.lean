import Fix42.Book.Calls
import Fix42.Book.Proof.Handles

/-!
# Quantities

What the book may hold and report (`Sane`), and what `fillOrder` divides by (`NoZeroDivision`).
`Positive` is the condition on a request: nothing between the wire and `add` looks at the value of a
quantity.
-/

namespace Fix42

variable {α : Type*} [Field α] [LinearOrder α]

/-! ## Sane quantities -/

namespace OrderBook

/-- Resting orders have something left, and no more than they came with; fills are positive. -/
structure Sane (ob : OrderBook α) : Prop where
  resting : ∀ x ∈ ob.resting, 0 < x.2.order.remainQty ∧ x.2.order.remainQty ≤ x.2.order.originalQty
  fills : ∀ e ∈ ob.eventOutput, 0 < e.lastQty

end OrderBook

namespace Worker

/-- The calls a request leads to. -/
def fillCalls (ob : OrderBook α) : Op α → List (FillCall α)
  | .newOrder i =>
    match NewOrder.verdict ob i.info with
    | (.accepted, ob) => ob.fillCalls i.info
    | _ => []
  | .cancel _ => []

/-- No average price is divided by zero. -/
def NoZeroDivision (ob : OrderBook α) (op : Op α) : Prop :=
  ∀ c ∈ fillCalls ob op, ∀ d ∈ c.divisors, d ≠ 0

/-- A new order the worker accepts is for something, or for nothing and meets no order. -/
def Positive (ob : OrderBook α) : Op α → Prop
  | .newOrder i => (NewOrder.verdict ob i.info).1 = .accepted →
      0 < i.orderQty ∨ i.orderQty = 0 ∧ ob.firstMatch i = none
  | .cancel _ => True

instance (ob : OrderBook α) : ∀ op, Decidable (Positive ob op)
  | .newOrder i => inferInstanceAs (Decidable (_ → 0 < i.orderQty ∨ _ ∧ ob.firstMatch i = none))
  | .cancel _ => inferInstanceAs (Decidable True)

end Worker

end Fix42
