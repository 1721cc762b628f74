import Mathlib.Algebra.BigOperators.Group.List.Defs
import Fix42.Book.Worker

/-!
# Reports and executions

The workers' runs with what the clients were told: which orders were acknowledged, which were
cancelled, and, in the event queue, every fill report. `Complete` says that for every acknowledged
order still owed its reports the last one gives the quantity that is left of it in the book.
-/

namespace Fix42

variable {α : Type*} [Field α] [LinearOrder α]

/-- An order book with the orders acknowledged and the submissions cancelled so far. -/
structure Ledger (α : Type*) [LinearOrder α] where
  ob : OrderBook α
  acked : List (Order α)
  cancelled : List ExecId

/-- The remaining quantity by the last report about `o`: that of its last event, or, right after
the acknowledgement, all of it. -/
def reportedRemaining (events : List (Event α)) (o : Order α) : α :=
  match (events.filter fun e => e.order.submission = o.submission).getLast? with
  | some e => e.order.remainQty
  | none => o.originalQty

/-- What the last report about `o` says is what the resting orders `c` hold of it: its quantity if
it is among them, nothing otherwise. -/
def ReportedIn (c : List (α × Node α)) (events : List (Event α)) (o : Order α) : Prop :=
  (∀ x ∈ c, x.2.order.submission = o.submission → reportedRemaining events o = x.2.order.remainQty) ∧
  ((∀ x ∈ c, x.2.order.submission ≠ o.submission) → reportedRemaining events o = 0)

namespace Ledger

def new (name : String) : Ledger α := ⟨OrderBook.new name, [], []⟩

/-- One request. Execution ids are generated, so no two requests share one. -/
def step (l : Ledger α) : Worker.Op α → Option (Ledger α)
  | .newOrder i =>
    if i.executionId ∈ l.acked.map Order.submission then none
    else
      match NewOrder.work l.ob i.info with
      | .ok (.accepted, ob) => some { l with ob, acked := l.acked ++ [i.info.order] }
      | .ok (_, ob) => some { l with ob }
      | .error _ => none
  | .cancel i =>
    match Cancel.work l.ob i.origClOrdId i.orderQty i.side with
    | .ok (.inr o, ob) => some { l with ob, cancelled := l.cancelled ++ [o.submission] }
    | .ok (.inl _, ob) => some { l with ob }
    | .error _ => none

/-- Every acknowledged order that was not cancelled is fully reported. -/
def Complete (l : Ledger α) : Prop :=
  ∀ o ∈ l.acked, o.submission ∉ l.cancelled → ReportedIn l.ob.resting l.ob.eventOutput o

end Ledger

/-! ## When the tick rule cuts a match short -/

/-- A quantity `q` is not used up by orders of quantities `qs`, one after the other. -/
def outlasts : List α → α → Bool
  | [], _ => true
  | r :: rs, q => decide (r < q) && outlasts rs (q - r)

/-- The quantities at a level an order of `user` trades with. -/
def tradable (user : UserId) (list : OrderList α) : List α :=
  (list.filter fun n => n.order.userId ≠ user).map fun n => n.order.remainQty

/-- The first level `user` can trade at is at a price that turns the tick against the side
(`worse price last`), the order outlasts it with a part executed, and there is another level within
the limit. -/
def cutShort (cmp worse : α → α → Bool) (levels : List (α × OrderList α)) (user : UserId)
    (limit last q : α) : Bool :=
  match (levels.takeWhile fun l => cmp l.1 limit).dropWhile fun l => tradable user l.2 = [] with
  | (price, list) :: _ :: _ =>
    worse price last && outlasts (tradable user list) q && decide ((tradable user list).sum ≠ 0)
  | _ => false

/-- The tick rule will refuse the order at the level after the first it trades at. -/
def OrderBook.tickStops (ob : OrderBook α) (i : NewOrderInput α) : Bool :=
  match i.side with
  | .buyMinus => cutShort (fun a b => a ≤ b) (fun a b => a < b) ob.askBook.entries i.userId i.price
      ob.tick.lastprice i.orderQty
  | .sellPlus => cutShort (fun a b => a ≥ b) (fun a b => a > b) ob.bidBook.entries i.userId i.price
      ob.tick.lastprice i.orderQty
  | _ => false

/-- The condition on a request: it is no order the worker accepts and the tick rule cuts short. -/
def Ledger.TickSafe (l : Ledger α) : Worker.Op α → Prop
  | .newOrder i => (NewOrder.verdict l.ob i.info).1 = .accepted → l.ob.tickStops i = false
  | .cancel _ => True

instance (l : Ledger α) : ∀ op, Decidable (l.TickSafe op)
  | .newOrder i => inferInstanceAs (Decidable (_ → l.ob.tickStops i = false))
  | .cancel _ => inferInstanceAs (Decidable True)

end Fix42
