import Mathlib.Algebra.Field.Rat
import Mathlib.Algebra.Order.Field.Basic
import Mathlib.Algebra.Order.Ring.Rat
import Mathlib.Logic.Function.Basic
import Fix42.Core.Types
import Fix42.Lib.SortedMap

/-!
# The order book

`OrderBook` of the server: two price-ordered books of order lists, one id map a side, the tick
record and the queue of fill events. `OrderBook.add` matches an incoming order against the opposite
book (`fillOnBook`) and rests what is left; `OrderBook.cancel` removes one order.

A list node carries the address an iterator to it keeps (`Node.addr`), an id-map entry the iterator
and the price. Reading through a handle is a lookup that fails once the cell is erased. Where the
source would still see the old bytes the run goes on with the value the cell had, and `lookups`
(not in the source) records whether the cell was there; elsewhere a failed lookup is
`Fault.undefined`.
-/

namespace Fix42

variable {α : Type*}

structure OrderInfo (α : Type*) where
  execid : ExecId
  price : α
  order : Order α
  deriving DecidableEq

/-- A cell of a `std::list<Order>`. -/
structure Node (α : Type*) where
  addr : Nat
  order : Order α
  deriving DecidableEq

abbrev OrderList (α : Type*) := List (Node α)

/-- What an iterator at `addr` gives in `list`: `none` once the node is erased. -/
def deref (list : OrderList α) (addr : Nat) : Option (Order α) :=
  (list.find? fun n => n.addr = addr).map Node.order

/-- `OrderIdInfo`; `order` is the address its list iterator points at. -/
structure OrderIdInfo (α : Type*) where
  order : Nat
  price : α
  deriving DecidableEq

abbrev OrderIdMap (α : Type*) := OrderId → Option (OrderIdInfo α)

structure Event (α : Type*) where
  execStatus : ExecutionStatus
  lastPrice : α
  lastQty : α
  order : Order α
  deriving DecidableEq

/-- How a call can fail to return: a C++ exception with its text, `std::out_of_range`, or undefined
behaviour. -/
inductive Fault
  | thrown (text : String)
  | outOfRange
  | undefined
  deriving DecidableEq

/-- Where a cell is read through a handle: the resting order by `fillOrder` and by the
`removeFromIdMap` of the loop, the id-map entry by `cancelOrder`. -/
inductive LookupSite
  | fillOrder | removeFromIdMap | cancelInfo
  deriving DecidableEq

structure Lookup where
  site : LookupSite
  live : Bool
  deriving DecidableEq

/-! ## Ticks -/

inductive TickDirection
  | plusTick | zeroPlusTick | minusTick | zeroMinusTick
  deriving DecidableEq

/-- `m_lastprice`, `m_lastprice_diff` and `m_tick`. -/
structure Tick (α : Type*) where
  lastprice : α
  lastpriceDiff : α
  tick : TickDirection
  deriving DecidableEq

section
variable [LinearOrder α]

/-- `computeTick()`. -/
def Tick.computeTick (t : Tick α) : Tick α :=
  if t.lastprice > t.lastpriceDiff then { t with tick := .plusTick }
  else if t.lastprice < t.lastpriceDiff then { t with tick := .minusTick }
  else if t.tick = .plusTick ∨ t.tick = .zeroPlusTick then { t with tick := .zeroPlusTick }
  else { t with tick := .zeroMinusTick }

/-- `computeTick(Price)`. -/
def Tick.trade (t : Tick α) (new : α) : Tick α :=
  { t with lastpriceDiff := t.lastprice, lastprice := new }.computeTick

@[simp] theorem Tick.computeTick_lastprice (t : Tick α) : t.computeTick.lastprice = t.lastprice := by
  unfold computeTick
  split
  · rfl
  · split
    · rfl
    · split <;> rfl

@[simp] theorem Tick.trade_lastprice (t : Tick α) (price : α) :
    (t.trade price).lastprice = price := computeTick_lastprice _

@[simp] theorem Tick.computeTick_idem (t : Tick α) : t.computeTick.computeTick = t.computeTick := by
  rcases lt_trichotomy t.lastprice t.lastpriceDiff with h | h | h
  · simp [computeTick, h, not_lt.2 h.le]
  · by_cases ht : t.tick = .plusTick ∨ t.tick = .zeroPlusTick <;> simp [computeTick, h, ht]
  · simp [computeTick, h]

/-- A tick record that `computeTick` leaves alone. -/
def Tick.Settled (t : Tick α) : Prop := t.computeTick = t

theorem Tick.settled_computeTick (t : Tick α) : t.computeTick.Settled := t.computeTick_idem

theorem Tick.settled_trade (t : Tick α) (price : α) : (t.trade price).Settled :=
  settled_computeTick _

/-- What `allowTick` returns, read off the tick it has just recomputed. -/
def Tick.allows (t : Tick α) : Side → Bool
  | .buyMinus => t.tick = .plusTick || t.tick = .zeroPlusTick
  | .sellPlus => t.tick = .minusTick || t.tick = .zeroMinusTick
  | _ => true

/-- `allowTick`: the answer and the tick record it leaves. -/
def Tick.allowTick (t : Tick α) (side : Side) : Bool × Tick α :=
  (t.computeTick.allows side, t.computeTick)

end

/-! ## Matching -/

inductive FillStatus
  | filled | partialyFilled | skipped
  deriving DecidableEq

/-- `fillOrder`: the status, the main event and the resting order it leaves, the events pushed. -/
structure FillResult (α : Type*) where
  status : FillStatus
  main : Event α
  order : Order α
  pushed : List (Event α)

/-- What the matching loop reads and writes besides the book. -/
structure FillState (α : Type*) where
  main : Event α
  tick : Tick α
  idmap : OrderIdMap α
  events : List (Event α)
  lookups : List Lookup

def FillState.note (st : FillState α) (site : LookupSite) (live : Bool) : FillState α :=
  { st with lookups := st.lookups ++ [⟨site, live⟩] }

def FillState.push (st : FillState α) (es : List (Event α)) : FillState α :=
  { st with events := st.events ++ es }

/-- `removeFromIdMap`. -/
def removeFromIdMap (idmap : OrderIdMap α) (id : OrderId) : OrderIdMap α :=
  Function.update idmap id none

/-- The ways out of the price loop. -/
inductive Exit
  | filled | tickRefused | priceLimit | exhausted
  deriving DecidableEq

section
variable [Field α] [LinearOrder α]

def fillOrder (main : Event α) (price : α) (order : Order α) : FillResult α :=
  if order.userId = main.order.userId then ⟨.skipped, main, order, []⟩
  else
    let fillQty := min order.remainQty main.order.remainQty
    let avgOf (o : Order α) := (o.cumQty * o.avgPrice + fillQty * price) / (o.cumQty + fillQty)
    let remainQty := order.remainQty - fillQty
    let filled : Bool := remainQty = 0
    { status := if filled then .filled else .partialyFilled
      main := { main with
        lastPrice := price
        lastQty := fillQty
        order := { main.order with
          avgPrice := avgOf main.order
          remainQty := main.order.remainQty - fillQty } }
      order := { order with
        remainQty
        avgPrice := avgOf order
        status := if filled then .filled else .partiallyFilled }
      -- the event keeps the status the resting order had before the fill
      pushed := [{
        execStatus := if filled then .filled else .partiallyFilled
        lastPrice := price
        lastQty := fillQty
        order := { order with remainQty, avgPrice := avgOf order } }] }

/-- After a fill: the trade moves the tick; a main order with nothing left is reported `Filled` and
ends the loop. -/
def settle (price : α) (st : FillState α) : FillState α × Bool :=
  let st := { st with tick := st.tick.trade price }
  if st.main.order.remainQty = 0 then
    (st.push [{ st.main with execStatus := .filled }], true)
  else (st, false)

/-- The loop over one price level, `kept` before the index and `rest` from it on; whether it ended
because the main order is filled. -/
def fillList (price : α) : OrderList α → OrderList α → FillState α →
    OrderList α × FillState α × Bool
  | kept, [], st => (kept, st, false)
  | kept, n :: rest, st =>
    let st := st.note .fillOrder (deref (kept ++ n :: rest) n.addr).isSome
    let r := fillOrder st.main price n.order
    let st := { st with main := r.main }.push r.pushed
    match r.status with
    | .skipped => fillList price (kept ++ [n]) rest st
    | .partialyFilled =>
      match settle price st with
      | (st, true) => (kept ++ { n with order := r.order } :: rest, st, true)
      | (st, false) => fillList price (kept ++ [{ n with order := r.order }]) rest st
    | .filled =>
      -- `order.orderId` is read after `_list.erase(iterator)`
      let st := st.note .removeFromIdMap (deref (kept ++ rest) n.addr).isSome
      let st := { st with idmap := removeFromIdMap st.idmap n.order.orderId }
      match settle price st with
      | (st, true) => (kept ++ rest, st, true)
      | (st, false) => fillList price kept rest st

/-- The loop over the price levels. -/
def fillLevels (cmp : α → α → Bool) (info : OrderInfo α) :
    List (α × OrderList α) → FillState α → List (α × OrderList α) × FillState α × Exit
  | [], st => ([], st, .exhausted)
  | (price, list) :: levels, st =>
    if !cmp price info.price then ((price, list) :: levels, st, .priceLimit)
    else
      let (allowed, tick) := st.tick.allowTick info.order.side
      let st := { st with tick }
      if !allowed then ((price, list) :: levels, st, .tickRefused)
      else
        match fillList price [] list st with
        | (list, st, true) => ((price, list) :: levels, st, .filled)
        | (list, st, false) =>
          let (levels, st, exit) := fillLevels cmp info levels st
          ((price, list) :: levels, st, exit)

theorem fillLevels_keys (cmp : α → α → Bool) (info : OrderInfo α) :
    ∀ (levels : List (α × OrderList α)) (st : FillState α),
      (fillLevels cmp info levels st).1.map Prod.fst = levels.map Prod.fst
  | [], _ => rfl
  | (price, list) :: levels, st => by
    unfold fillLevels
    split
    · rfl
    · dsimp only
      split
      · rfl
      · split
        · rfl
        · simp only [List.map_cons, fillLevels_keys cmp info levels]

/-- What `fillOnBook` leaves and returns. -/
structure BookFill (α : Type*) (lt : α → α → Prop) where
  book : SortedMap α (OrderList α) lt
  st : FillState α
  left : α × α

/-- The main event as it enters the loop. -/
def mainEvent (order : Order α) : Event α := ⟨.newOrder, 0, 0, order⟩

/-- What follows the price loop. The exit on a refused tick returns without an event. -/
def fillEnd (info : OrderInfo α) (st : FillState α) : Exit → FillState α × (α × α)
  | .filled => (st, (0, 0))
  | .tickRefused => (st, (st.main.order.remainQty, st.main.order.avgPrice))
  | .priceLimit | .exhausted =>
    (if st.main.order.remainQty ≠ info.order.originalQty
      then st.push [{ st.main with execStatus := .partiallyFilled }] else st,
      (st.main.order.remainQty, st.main.order.avgPrice))

def fillOnBook {lt : α → α → Prop} (cmp : α → α → Bool) (book : SortedMap α (OrderList α) lt)
    (info : OrderInfo α) (st : FillState α) : BookFill α lt :=
  let r := fillLevels cmp info book.entries st
  let e := fillEnd info r.2.1 r.2.2
  { book := book.revalue r.1 (fillLevels_keys cmp info book.entries st)
    st := e.1
    left := e.2 }

end

/-! ## The book -/

section
variable [LinearOrder α]

abbrev AskBook (α : Type*) [LinearOrder α] := SortedMap α (OrderList α) (· < ·)
abbrev BidBook (α : Type*) [LinearOrder α] := SortedMap α (OrderList α) (· > ·)

structure OrderBook (α : Type*) [LinearOrder α] where
  name : String
  tick : Tick α
  eventOutput : List (Event α)
  bidId : OrderIdMap α
  askId : OrderIdMap α
  askBook : AskBook α
  bidBook : BidBook α
  /-- the address of the next list node -/
  nextNode : Nat
  lookups : List Lookup

/-- `addToBook`: the node goes to the tail of its level. -/
def addToBook {lt : α → α → Prop} [DecidableRel lt] [IsTrans α lt]
    (book : SortedMap α (OrderList α) lt) (idmap : OrderIdMap α) (price : α) (n : Node α) :
    SortedMap α (OrderList α) lt × OrderIdMap α :=
  (book.upsert price [] (· ++ [n]), Function.update idmap n.order.orderId (some ⟨n.addr, price⟩))

/-- `cancelOrder`, given what the id-map entry holds; it reads the order for its log line. -/
def cancelOrder {lt : α → α → Prop} (book : SortedMap α (OrderList α) lt) (info : OrderIdInfo α) :
    Except Fault (SortedMap α (OrderList α) lt) :=
  match book.get? info.price with
  | none => .error .outOfRange
  | some list =>
    match deref list info.order with
    | none => .error .undefined
    | some _ => .ok (book.adjust info.price (List.filter fun n => n.addr ≠ info.order))

namespace OrderBook

def new [Zero α] (name : String) : OrderBook α where
  name
  tick := ⟨0, 0, .zeroPlusTick⟩
  eventOutput := []
  bidId := fun _ => none
  askId := fun _ => none
  askBook := .empty
  bidBook := .empty
  nextNode := 0
  lookups := []

/-- Every resting order with its price. -/
def resting (ob : OrderBook α) : List (α × Node α) :=
  SortedMap.flat ob.askBook.entries ++ SortedMap.flat ob.bidBook.entries

def note (ob : OrderBook α) (site : LookupSite) (live : Bool) : OrderBook α :=
  { ob with lookups := ob.lookups ++ [⟨site, live⟩] }

def allowTick (ob : OrderBook α) (side : Side) : Bool × OrderBook α :=
  let (allowed, tick) := ob.tick.allowTick side
  (allowed, { ob with tick })

/-- `has(id)`. -/
def has (ob : OrderBook α) (id : OrderId) : Bool := (ob.askId id).isSome || (ob.bidId id).isSome

/-- `has(id, side)`. -/
def hasSide (ob : OrderBook α) (id : OrderId) (side : Side) : Bool :=
  if side.isBid then (ob.bidId id).isSome
  else if side.isAsk then (ob.askId id).isSome
  else false

/-- `*(info.Order)`, through the level the entry names. -/
def derefInfo {lt : α → α → Prop} (book : SortedMap α (OrderList α) lt) (info : OrderIdInfo α) :
    Except Fault (Order α) :=
  match (book.get? info.price).bind fun list => deref list info.order with
  | some order => .ok order
  | none => .error .undefined

def getOrder (ob : OrderBook α) (id : OrderId) : Except Fault (Order α) :=
  match ob.bidId id with
  | some info => derefInfo ob.bidBook info
  | none =>
    match ob.askId id with
    | some info => derefInfo ob.askBook info
    | none => .error .outOfRange

/-- `getOrderIdInfo`; it returns nothing (undefined behaviour) for an id the side does not have. -/
def getOrderIdInfo (ob : OrderBook α) (id : OrderId) (side : Side) :
    Except Fault (OrderIdInfo α) :=
  if side.isBid then (ob.bidId id).elim (.error .undefined) .ok
  else if side.isAsk then (ob.askId id).elim (.error .undefined) .ok
  else .error (.thrown "Side not supported, for getOrderIdInfo")

/-- `cancel`: the id-map entry is erased, then read through the reference taken before. -/
def cancel (ob : OrderBook α) (id : OrderId) (side : Side) : Except Fault (OrderBook α) := do
  let info ← ob.getOrderIdInfo id side
  if side.isAsk then
    let askId := removeFromIdMap ob.askId id
    let ob := ob.note .cancelInfo (askId id).isSome
    let askBook ← cancelOrder ob.askBook info
    pure { ob with askId, askBook }
  else if side.isBid then
    let bidId := removeFromIdMap ob.bidId id
    let ob := ob.note .cancelInfo (bidId id).isSome
    let bidBook ← cancelOrder ob.bidBook info
    pure { ob with bidId, bidBook }
  else .error (.thrown "Side not supported, for cancel")

/-- `_book[price].push_back(order)` on the bid book. -/
def pushBid (ob : OrderBook α) (price : α) (order : Order α) : OrderBook α :=
  { ob with
    bidBook := ob.bidBook.upsert price [] (· ++ [⟨ob.nextNode, order⟩])
    nextNode := ob.nextNode + 1 }

/-- The same on the ask book. -/
def pushAsk (ob : OrderBook α) (price : α) (order : Order α) : OrderBook α :=
  { ob with
    askBook := ob.askBook.upsert price [] (· ++ [⟨ob.nextNode, order⟩])
    nextNode := ob.nextNode + 1 }

variable [Field α]

/-- The state of the matching loop when `add` starts it. -/
def fillState (ob : OrderBook α) (idmap : OrderIdMap α) (info : OrderInfo α) : FillState α :=
  { main := mainEvent info.order, tick := ob.tick, idmap, events := ob.eventOutput,
    lookups := ob.lookups }

/-- The order that rests after matching, with `left` and its average price. -/
def restingOrder (info : OrderInfo α) (left : α × α) : Order α :=
  { info.order with
    remainQty := left.1
    avgPrice := left.2
    status := if left.1 ≠ info.order.originalQty then .partiallyFilled else .newOrder }

def add (ob : OrderBook α) (info : OrderInfo α) : Except Fault (OrderBook α) :=
  if info.order.side.isBid then
    let r := fillOnBook (fun a b => a ≤ b) ob.askBook info (ob.fillState ob.askId info)
    let ob := { ob with
      askBook := r.book, askId := r.st.idmap, tick := r.st.tick, eventOutput := r.st.events,
      lookups := r.st.lookups }
    if r.left.1 ≠ 0 then
      let n := ⟨ob.nextNode, restingOrder info r.left⟩
      let (bidBook, bidId) := addToBook ob.bidBook ob.bidId info.price n
      .ok { ob with bidBook, bidId, nextNode := ob.nextNode + 1 }
    else .ok ob
  else if info.order.side.isAsk then
    let r := fillOnBook (fun a b => a ≥ b) ob.bidBook info (ob.fillState ob.bidId info)
    let ob := { ob with
      bidBook := r.book, bidId := r.st.idmap, tick := r.st.tick, eventOutput := r.st.events,
      lookups := r.st.lookups }
    if r.left.1 ≠ 0 then
      let n := ⟨ob.nextNode, restingOrder info r.left⟩
      let (askBook, askId) := addToBook ob.askBook ob.askId info.price n
      .ok { ob with askBook, askId, nextNode := ob.nextNode + 1 }
    else .ok ob
  else .error (.thrown "Side not supported, for add")

/-- The quantity of an order `add` does not match. -/
def unmatched (ob : OrderBook α) (info : OrderInfo α) : α :=
  if info.order.side.isBid then
    (fillOnBook (fun a b => a ≤ b) ob.askBook info (ob.fillState ob.askId info)).left.1
  else (fillOnBook (fun a b => a ≥ b) ob.bidBook info (ob.fillState ob.bidId info)).left.1

end OrderBook

end

end Fix42
