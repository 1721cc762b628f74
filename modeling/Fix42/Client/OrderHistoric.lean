import Mathlib.Algebra.Order.Floor.Ring
import Fix42.Book.OrderBook
import Fix42.Client.Execution

/-!
# The order history of the GUI

`OrderHistoric` of the client: a row for every order the backend announced, whose average price and
remaining quantity are written anew with each event of the order. Prices and quantities are exact, and
an item's `toInt` is the nearest integer; a division by zero leaves what is no number (`none`).

`averages` is what the rows are meant to show, `Order.execute` what the server does for one fill, and
`Fits` the condition on the fills.
-/

namespace Fix42

namespace Client

variable {α : Type*}

/-! ## The rows -/

/-- The items of a row that are read again, and the rows below it. -/
structure OrderRow (α : Type*) where
  quantity : α
  remainQty : α
  avgPrice : Option α
  children : List (ExecutionMsg α)

/-- `m_root`. -/
abbrev OrderHistoric (α : Type*) := OrderId → Option (OrderRow α)

/-- What `BackManager` hands to the widget. -/
inductive BackMessage (α : Type*)
  | execNew (exec : ExecutionMsg α)
  | execEvent (exec : ExecutionMsg α)

def BackMessage.orderId : BackMessage α → OrderId
  | .execNew exec | .execEvent exec => exec.orderId

section
variable [Field α] [LinearOrder α] [FloorRing α]

/-- `QVariant::toInt`. -/
def toInt (x : α) : ℤ := if 0 ≤ x then ⌊x + 1 / 2⌋ else -⌊-x + 1 / 2⌋

/-- A number divided by an integer. -/
def divide (x : α) (n : ℤ) : Option α := if n = 0 then none else some (x / n)

namespace OrderHistoric

def newOrder (m : OrderHistoric α) (order : ExecutionMsg α) : OrderHistoric α :=
  Function.update m order.orderId
    (some { quantity := order.quantity, remainQty := order.remainQty, avgPrice := some order.avgPrice
            children := [] })

def eventOrder (m : OrderHistoric α) (order : ExecutionMsg α) : OrderHistoric α :=
  match m order.orderId with
  | none => m
  | some row =>
    let qty1 := toInt row.quantity - toInt row.remainQty
    let qty2 := order.quantity - order.remainQty
    let result := row.avgPrice.bind fun avgPrice =>
      divide (qty1 * toInt avgPrice + qty2 * order.avgPrice) (toInt row.quantity)
    Function.update m order.orderId
      (some { row with
        remainQty := order.remainQty
        avgPrice := result
        children := row.children ++ [order] })

def receive (m : OrderHistoric α) : BackMessage α → OrderHistoric α
  | .execNew exec => m.newOrder exec
  | .execEvent exec => m.eventOrder exec

/-- The average price on the row of an order. -/
def shown (m : OrderHistoric α) (id : OrderId) : Option α := (m id).bind OrderRow.avgPrice

/-- What is shown for the order `id` after each of its events. -/
def shownAfter (id : OrderId) (m : OrderHistoric α) : List (BackMessage α) → List (Option α)
  | [] => []
  | message :: messages =>
    let m := m.receive message
    if message.orderId = id then m.shown id :: shownAfter id m messages
    else shownAfter id m messages

end OrderHistoric

end

end Client

/-! ## The executions of an order -/

/-- An execution. -/
structure OrderExec (α : Type*) where
  price : α
  quantity : α

section
variable [Field α]

/-- What `fillOrder` does to either order of a trade. -/
def Order.execute (o : Order α) (f : OrderExec α) : Order α :=
  { o with
    avgPrice := (o.cumQty * o.avgPrice + f.quantity * f.price) / (o.cumQty + f.quantity)
    remainQty := o.remainQty - f.quantity }

/-- The average prices the server has after each of the executions. -/
def serverAverages (o : Order α) : List (OrderExec α) → List α
  | [] => []
  | f :: fills => (o.execute f).avgPrice :: serverAverages (o.execute f) fills

/-- Quantity times price, summed up, by the quantity, after each of the executions; `turnover` and
`quantity` are the sums before. -/
def averages (turnover quantity : α) : List (OrderExec α) → List α
  | [] => []
  | f :: fills =>
    let turnover := turnover + f.quantity * f.price
    let quantity := quantity + f.quantity
    turnover / quantity :: averages turnover quantity fills

end

namespace Client

/-- The message tells of the order as it is. -/
structure Tells (exec : ExecutionMsg α) (o : Order α) : Prop where
  orderId : exec.orderId = o.orderId
  quantity : exec.quantity = o.originalQty
  remainQty : exec.remainQty = o.remainQty
  avgPrice : exec.avgPrice = o.avgPrice

/-- The messages hold an event for each execution of the order, and otherwise are about other
orders. -/
inductive Feed [Field α] : Order α → List (OrderExec α) → List (BackMessage α) → Prop
  | nil {o : Order α} : Feed o [] []
  | other {o : Order α} {fills : List (OrderExec α)} {message : BackMessage α}
      {messages : List (BackMessage α)} (hid : message.orderId ≠ o.orderId)
      (h : Feed o fills messages) : Feed o fills (message :: messages)
  | event {o : Order α} {f : OrderExec α} {fills : List (OrderExec α)} {exec : ExecutionMsg α}
      {messages : List (BackMessage α)} (htells : Tells exec (o.execute f))
      (h : Feed (o.execute f) fills messages) : Feed o (f :: fills) (.execEvent exec :: messages)

/-- For each execution: the order is not for nothing, and what was executed before it, at its rounded
average, weighs as much as what the rounded quantity leaves, at the new average. -/
def Fits [Field α] [LinearOrder α] [FloorRing α] (o : Order α) : List (OrderExec α) → Prop
  | [] => True
  | f :: fills =>
    toInt o.originalQty ≠ 0 ∧
    ((toInt o.originalQty - toInt o.remainQty) * toInt o.avgPrice : ℤ) =
      (toInt o.originalQty - (o.execute f).cumQty) * (o.execute f).avgPrice ∧
    Fits (o.execute f) fills

end Client

end Fix42
