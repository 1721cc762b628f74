import Fix42.Book.Worker

/-!
# Crossed orders

Which pairs of a resting bid and a resting ask could trade, and when a book may hold such a pair
(`Explains`). The runs here are those of the order book itself: `add`, `cancel` and `allowTick` in any
order, with ids and ticks unchecked; the workers' runs are among them (`Worker.Reachable.ops`).
-/

namespace Fix42

variable {α : Type*}

/-- A resting order as the other side sees it. `arrival` is the address of its list node, which the
book hands out in the order in which the orders come to rest. -/
structure Quote (α : Type*) where
  price : α
  arrival : Nat
  userId : UserId
  side : Side

def quote (x : α × Node α) : Quote α := ⟨x.1, x.2.addr, x.2.order.userId, x.2.order.side⟩

/-- If the bid `b` and the ask `a` could trade, the later one waits for a tick. -/
def Explains [LE α] (b a : Quote α) : Prop :=
  a.price ≤ b.price → a.userId ≠ b.userId →
    (a.arrival < b.arrival ∧ b.side = .buyMinus) ∨ (b.arrival < a.arrival ∧ a.side = .sellPlus)

namespace OrderBook

variable [LinearOrder α]

def bids (ob : OrderBook α) : List (Quote α) := (SortedMap.flat ob.bidBook.entries).map quote

def asks (ob : OrderBook α) : List (Quote α) := (SortedMap.flat ob.askBook.entries).map quote

/-- A call of one of the operations that change the book. -/
inductive Op (α : Type*)
  | add (i : NewOrderInput α)
  | cancel (id : OrderId) (side : Side)
  | allowTick (side : Side)

variable [Field α]

def step (ob : OrderBook α) : Op α → Option (OrderBook α)
  | .add i => (ob.add i.info).toOption
  | .cancel id side => (ob.cancel id side).toOption
  | .allowTick side => some (ob.allowTick side).2

/-- The books that sequences of operations reach from an empty one. -/
abbrev Reachable (name : String) (ob : OrderBook α) : Prop :=
  Trans.Reach OrderBook.step (OrderBook.new name) ob

end OrderBook

/-- What the workers do to a book are operations on it. -/
theorem Worker.Reachable.ops [Field α] [LinearOrder α] {name : String} {ob : OrderBook α}
    (h : Worker.Reachable name ob) : OrderBook.Reachable name ob := by
  refine Trans.Run.invariant h .start fun s op s' hI _ hs => ?_
  cases op with
  | newOrder i =>
    have htick : OrderBook.Reachable name (s.allowTick i.side).2 :=
      .next hI trivial (i := .allowTick i.side) rfl
    rcases Worker.step_newOrder hs with ⟨-, rfl⟩ | ⟨-, -, -, hadd⟩
    · exact htick
    · exact .next htick trivial (i := .add i) (by simp [OrderBook.step, hadd, Except.toOption])
  | cancel i =>
    rcases Worker.step_cancel hs with ⟨-, rfl⟩ | ⟨o, -, hok⟩
    · exact hI
    · exact .next hI trivial (i := .cancel i.origClOrdId i.side)
        (by simp [OrderBook.step, hok, Except.toOption])

end Fix42
