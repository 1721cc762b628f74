import Fix42.Book.Worker

/-!
# The reference matcher

What the book is for, without iterators, id maps or events: each side is a list of price levels from
best to worst, a level a non-empty list of orders in arrival order. `Reference.add` matches an
incoming order level by level and rests what is left. `OrderBook.view` is the reference book an
`OrderBook` stands for; Book.Proof.Refine shows that `OrderBook.add` refines `Reference.add`.
-/

namespace Fix42

variable {α : Type*}

namespace Reference

structure Resting (α : Type*) where
  userId : UserId
  orderId : OrderId
  originalQty : α
  remaining : α
  side : Side
  deriving DecidableEq

structure Fill (α : Type*) where
  orderId : OrderId
  quantity : α
  price : α
  deriving DecidableEq

/-- The last trade price, and whether the last change of it was upwards. -/
structure TickRule (α : Type*) where
  last : α
  up : Bool
  deriving DecidableEq

abbrev Level (α : Type*) := α × List (Resting α)

structure Book (α : Type*) where
  bids : List (Level α)
  asks : List (Level α)
  tick : TickRule α
  deriving DecidableEq

structure Incoming (α : Type*) where
  userId : UserId
  orderId : OrderId
  quantity : α
  limit : α
  side : Side

def TickRule.trade [LinearOrder α] (t : TickRule α) (price : α) : TickRule α where
  last := price
  up := if price > t.last then true else if price < t.last then false else t.up

/-- `BuyMinus` trades after an upward change of price, `SellPlus` after a downward one. -/
def TickRule.allows (t : TickRule α) : Side → Bool
  | .buyMinus => t.up
  | .sellPlus => !t.up
  | _ => true

/-- What a visit of levels leaves of them, its fills, the tick rule and the quantity left. -/
structure Result (α : Type*) (β : Type*) where
  levels : β
  fills : List (Fill α)
  tick : TickRule α
  left : α

section
variable [Field α] [LinearOrder α]

/-- The orders of one level in arrival order, until `q` is used up; orders of `user` are passed
over, used-up orders dropped. -/
def matchLevel (user : UserId) (price : α) :
    List (Resting α) → TickRule α → α → Result α (List (Resting α))
  | [], t, q => ⟨[], [], t, q⟩
  | o :: os, t, q =>
    if q = 0 then ⟨o :: os, [], t, q⟩
    else if o.userId = user then
      let r := matchLevel user price os t q
      { r with levels := o :: r.levels }
    else
      let fill := min o.remaining q
      let r := matchLevel user price os (t.trade price) (q - fill)
      { r with
        levels := if o.remaining - fill = 0 then r.levels
          else { o with remaining := o.remaining - fill } :: r.levels
        fills := ⟨o.orderId, fill, price⟩ :: r.fills }

/-- A level in front of others, dropped when it is empty. -/
def consLevel (price : α) (os : List (Resting α)) (ls : List (Level α)) : List (Level α) :=
  if os = [] then ls else (price, os) :: ls

/-- The levels from best to worst, while `q` is not used up, the price is within the limit and the
tick rule allows the side. -/
def matchLevels (within : α → Bool) (user : UserId) (side : Side) :
    List (Level α) → TickRule α → α → Result α (List (Level α))
  | [], t, q => ⟨[], [], t, q⟩
  | (price, os) :: ls, t, q =>
    if q = 0 ∨ within price = false ∨ t.allows side = false then ⟨(price, os) :: ls, [], t, q⟩
    else
      let r := matchLevel user price os t q
      let r' := matchLevels within user side ls r.tick r.left
      { r' with levels := consLevel price r.levels r'.levels, fills := r.fills ++ r'.fills }

/-- The order goes to the tail of its price level unless nothing of it is left. -/
def rest (better : α → α → Prop) [DecidableRel better] (o : Incoming α) (left : α)
    (ls : List (Level α)) : List (Level α) :=
  if left = 0 then ls
  else SortedMap.upsertList better o.limit [] (· ++ [⟨o.userId, o.orderId, o.quantity, left, o.side⟩])
    ls

/-- Matches `o` against the opposite side and rests what is left on its own. -/
def add (b : Book α) (o : Incoming α) : Book α × List (Fill α) × α :=
  if o.side.isBid then
    let r := matchLevels (fun price => price ≤ o.limit) o.userId o.side b.asks b.tick o.quantity
    (⟨rest (· > ·) o r.left b.bids, r.levels, r.tick⟩, r.fills, r.left)
  else
    let r := matchLevels (fun price => price ≥ o.limit) o.userId o.side b.bids b.tick o.quantity
    (⟨r.levels, rest (· < ·) o r.left b.asks, r.tick⟩, r.fills, r.left)

end

end Reference

/-! ## What an order book stands for -/

def Order.view (o : Order α) : Reference.Resting α :=
  ⟨o.userId, o.orderId, o.originalQty, o.remainQty, o.side⟩

def Tick.view (t : Tick α) : Reference.TickRule α :=
  ⟨t.lastprice, t.tick = .plusTick || t.tick = .zeroPlusTick⟩

def listView (list : OrderList α) : List (Reference.Resting α) := list.map fun n => n.order.view

/-- The levels of a book with an order in them. -/
def levelsView : List (α × OrderList α) → List (Reference.Level α)
  | [] => []
  | (price, list) :: levels => Reference.consLevel price (listView list) (levelsView levels)

def OrderBook.view [LinearOrder α] (ob : OrderBook α) : Reference.Book α :=
  ⟨levelsView ob.bidBook.entries, levelsView ob.askBook.entries, ob.tick.view⟩

/-- The fills of resting orders among events: those about orders of other users. -/
def fillsOf (user : UserId) (events : List (Event α)) : List (Reference.Fill α) :=
  (events.filter fun e => e.order.userId ≠ user).map fun e =>
    ⟨e.order.orderId, e.lastQty, e.lastPrice⟩

def NewOrderInput.incoming (i : NewOrderInput α) : Reference.Incoming α :=
  ⟨i.userId, i.clOrdId, i.orderQty, i.price, i.side⟩

end Fix42
