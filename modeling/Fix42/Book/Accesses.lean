import Fix42.Book.Worker

/-!
# A worker's accesses to the order book

What a worker does between `lock` and `unlock`, one access at a time: every acquisition and release
of the mutex of an id map, every operation on an id map, every operation on an order list.
`Access.run` carries one out. `Worker.accesses` lists those of a request in the order the code makes
them, function by function (`fillOnBook`, `addToBook`, `cancelOrder`); nothing but the worker writes
to the book meanwhile, so they follow from the book it finds.
-/

namespace Fix42

variable {α : Type*}

/-- The two `OrderIdMapBundle`s, each with its book. -/
inductive Bundle
  | bid | ask
  deriving DecidableEq

/-- The side of the book an order of this side rests on. -/
def Side.bundle (side : Side) : Bundle := if side.isBid then .bid else .ask

inductive Access (α : Type*)
  | lockShared (b : Bundle)
  | unlockShared (b : Bundle)
  | lock (b : Bundle)
  | unlock (b : Bundle)
  /-- `contains`, `find` or `at` -/
  | find (b : Bundle) (id : OrderId)
  | eraseId (b : Bundle) (id : OrderId)
  | insertId (b : Bundle) (id : OrderId) (info : OrderIdInfo α)
  /-- the map entry read through a reference taken before -/
  | readInfo (b : Bundle) (id : OrderId)
  /-- an order read through the iterator to its node -/
  | readOrder (b : Bundle) (info : OrderIdInfo α)
  /-- the same by the matching loop, which notes whether the node was there -/
  | visit (site : LookupSite) (b : Bundle) (info : OrderIdInfo α)
  /-- the fields `fillOrder` writes, at a position of the list -/
  | write (b : Bundle) (price : α) (idx : Nat) (remainQty avgPrice : α) (status : OrderStatus)
  /-- `_list.erase(iterator)` at a position -/
  | erase (b : Bundle) (price : α) (idx : Nat)
  /-- `_book.at(price).erase(_info.Order)` -/
  | eraseOrder (b : Bundle) (info : OrderIdInfo α)
  | pushBack (b : Bundle) (price : α) (order : Order α)
  | setTick (tick : Tick α)
  | pushEvent (event : Event α)
  deriving DecidableEq

/-! ## The book by side -/

namespace OrderBook

variable [LinearOrder α]

def ids (ob : OrderBook α) : Bundle → OrderIdMap α
  | .bid => ob.bidId
  | .ask => ob.askId

def setIds (ob : OrderBook α) (idmap : OrderIdMap α) : Bundle → OrderBook α
  | .bid => { ob with bidId := idmap }
  | .ask => { ob with askId := idmap }

def entries (ob : OrderBook α) : Bundle → List (α × OrderList α)
  | .bid => ob.bidBook.entries
  | .ask => ob.askBook.entries

def level (ob : OrderBook α) (price : α) : Bundle → Option (OrderList α)
  | .bid => ob.bidBook.get? price
  | .ask => ob.askBook.get? price

def adjust (ob : OrderBook α) (price : α) (f : OrderList α → OrderList α) : Bundle → OrderBook α
  | .bid => { ob with bidBook := ob.bidBook.adjust price f }
  | .ask => { ob with askBook := ob.askBook.adjust price f }

def pushBack (ob : OrderBook α) (price : α) (order : Order α) : Bundle → OrderBook α
  | .bid => ob.pushBid price order
  | .ask => ob.pushAsk price order

end OrderBook

namespace Access

variable [LinearOrder α]

/-- The order of a node after `fillOrder` wrote to it. -/
def writeOrder (remainQty avgPrice : α) (status : OrderStatus) (n : Node α) : Node α :=
  { n with order := { n.order with remainQty, avgPrice, status } }

/-- What the access does. -/
def run (ob : OrderBook α) : Access α → OrderBook α
  | .eraseId b id => ob.setIds (removeFromIdMap (ob.ids b) id) b
  | .insertId b id info => ob.setIds (Function.update (ob.ids b) id (some info)) b
  | .readInfo b id => ob.note .cancelInfo (ob.ids b id).isSome
  | .visit site b info =>
    ob.note site ((ob.level info.price b).bind fun list => deref list info.order).isSome
  | .write b price idx remainQty avgPrice status =>
    ob.adjust price (fun list => list.modify idx (writeOrder remainQty avgPrice status)) b
  | .erase b price idx => ob.adjust price (fun list => list.eraseIdx idx) b
  | .eraseOrder b info => ob.adjust info.price (List.filter fun n => n.addr ≠ info.order) b
  | .pushBack b price order => ob.pushBack price order b
  | .setTick tick => { ob with tick }
  | .pushEvent event => { ob with eventOutput := ob.eventOutput ++ [event] }
  | .lockShared _ | .unlockShared _ | .lock _ | .unlock _ | .find _ _ | .readOrder _ _ => ob

/-- The accesses one after the other. -/
def runAll (as : List (Access α)) (ob : OrderBook α) : OrderBook α := as.foldl run ob

@[simp] theorem runAll_nil (ob : OrderBook α) : runAll [] ob = ob := rfl

@[simp] theorem runAll_cons (a : Access α) (as : List (Access α)) (ob : OrderBook α) :
    runAll (a :: as) ob = runAll as (run ob a) := rfl

@[simp] theorem runAll_append (as bs : List (Access α)) (ob : OrderBook α) :
    runAll (as ++ bs) ob = runAll bs (runAll as ob) := List.foldl_append

/-- The id an access puts on a list or in a map. -/
def added : Access α → Option OrderId
  | .insertId _ id _ => some id
  | .pushBack _ _ order => some order.orderId
  | _ => none

end Access

/-! ## Lookups -/

/-- `has(id)`: the ask side first. -/
def hasAccesses [LinearOrder α] (ob : OrderBook α) (id : OrderId) : List (Access α) :=
  [.lockShared .ask, .find .ask id, .unlockShared .ask] ++
    if (ob.askId id).isSome then []
    else [.lockShared .bid, .find .bid id, .unlockShared .bid]

/-- `has(id, side)` and `getOrderIdInfo` on the side's own map. -/
def findAccesses (b : Bundle) (id : OrderId) : List (Access α) :=
  [.lockShared b, .find b id, .unlockShared b]

/-- `getOrder`: the bid side first. -/
def getOrderAccesses [LinearOrder α] (ob : OrderBook α) (id : OrderId) : List (Access α) :=
  match ob.bidId id with
  | some info => [.lockShared .bid, .find .bid id, .readOrder .bid info, .unlockShared .bid]
  | none => [.lockShared .bid, .find .bid id, .unlockShared .bid, .lockShared .ask, .find .ask id] ++
      (ob.askId id).toList.map (.readOrder .ask) ++ [.unlockShared .ask]

/-- `removeFromIdMap`. -/
def removeAccesses (b : Bundle) (id : OrderId) : List (Access α) :=
  [.lock b, .find b id, .eraseId b id, .unlock b]

/-! ## `add` -/

section
variable [Field α] [LinearOrder α]

/-- After a fill (`settle`). -/
def settleAccesses (price : α) (st : FillState α) : List (Access α) :=
  .setTick (st.tick.trade price) ::
    if st.main.order.remainQty = 0 then [.pushEvent { st.main with execStatus := .filled }] else []

/-- The loop over one price level (`fillList`). -/
def fillListAccesses (b : Bundle) (price : α) :
    OrderList α → OrderList α → FillState α → List (Access α)
  | _, [], _ => []
  | kept, n :: rest, st =>
    let st := st.note .fillOrder (deref (kept ++ n :: rest) n.addr).isSome
    let r := fillOrder st.main price n.order
    let st := { st with main := r.main }.push r.pushed
    .visit .fillOrder b ⟨n.addr, price⟩ ::
      match r.status with
      | .skipped => fillListAccesses b price (kept ++ [n]) rest st
      | .partialyFilled =>
        [.write b price kept.length r.order.remainQty r.order.avgPrice r.order.status] ++
        r.pushed.map .pushEvent ++ settleAccesses price st ++
        match settle price st with
        | (_, true) => []
        | (st, false) => fillListAccesses b price (kept ++ [{ n with order := r.order }]) rest st
      | .filled =>
        let st := st.note .removeFromIdMap (deref (kept ++ rest) n.addr).isSome
        let st := { st with idmap := removeFromIdMap st.idmap n.order.orderId }
        [.write b price kept.length r.order.remainQty r.order.avgPrice r.order.status] ++
        r.pushed.map .pushEvent ++
        [.erase b price kept.length, .visit .removeFromIdMap b ⟨n.addr, price⟩] ++
        removeAccesses b n.order.orderId ++ settleAccesses price st ++
        match settle price st with
        | (_, true) => []
        | (st, false) => fillListAccesses b price kept rest st

/-- The loop over the price levels (`fillLevels`). -/
def fillLevelsAccesses (b : Bundle) (cmp : α → α → Bool) (info : OrderInfo α) :
    List (α × OrderList α) → FillState α → List (Access α)
  | [], _ => []
  | (price, list) :: levels, st =>
    if !cmp price info.price then []
    else
      let (allowed, tick) := st.tick.allowTick info.order.side
      let st := { st with tick }
      .setTick tick ::
        if !allowed then []
        else fillListAccesses b price [] list st ++
          match fillList price [] list st with
          | (_, _, true) => []
          | (_, st, false) => fillLevelsAccesses b cmp info levels st

/-- What follows the price loop (`fillEnd`). -/
def fillEndAccesses (info : OrderInfo α) (st : FillState α) : Exit → List (Access α)
  | .filled | .tickRefused => []
  | .priceLimit | .exhausted =>
    if st.main.order.remainQty ≠ info.order.originalQty
    then [.pushEvent { st.main with execStatus := .partiallyFilled }] else []

def fillOnBookAccesses (b : Bundle) (cmp : α → α → Bool) (levels : List (α × OrderList α))
    (info : OrderInfo α) (st : FillState α) : List (Access α) :=
  let r := fillLevels cmp info levels st
  fillLevelsAccesses b cmp info levels st ++ fillEndAccesses info r.2.1 r.2.2

/-- `addToBook`, `addr` being the address of the new node. -/
def addToBookAccesses (b : Bundle) (price : α) (order : Order α) (addr : Nat) : List (Access α) :=
  [.pushBack b price order, .lock b, .insertId b order.orderId ⟨addr, price⟩, .unlock b]

/-- `add` of an order whose side is traded. -/
def addAccesses (ob : OrderBook α) (info : OrderInfo α) : List (Access α) :=
  if info.order.side.isBid then
    let r := fillOnBook (fun a b => a ≤ b) ob.askBook info (ob.fillState ob.askId info)
    fillOnBookAccesses .ask (fun a b => a ≤ b) ob.askBook.entries info
        (ob.fillState ob.askId info) ++
      if r.left.1 ≠ 0 then
        addToBookAccesses .bid info.price (OrderBook.restingOrder info r.left) ob.nextNode
      else []
  else
    let r := fillOnBook (fun a b => a ≥ b) ob.bidBook info (ob.fillState ob.bidId info)
    fillOnBookAccesses .bid (fun a b => a ≥ b) ob.bidBook.entries info
        (ob.fillState ob.bidId info) ++
      if r.left.1 ≠ 0 then
        addToBookAccesses .ask info.price (OrderBook.restingOrder info r.left) ob.nextNode
      else []

end

/-! ## `cancel` -/

/-- `cancel` of an order whose side is traded; `cancelOrder` reads the order for its log line. -/
def cancelAccesses [LinearOrder α] (ob : OrderBook α) (id : OrderId) (b : Bundle) :
    List (Access α) :=
  findAccesses b id ++ removeAccesses b id ++ .readInfo b id ::
    (ob.ids b id).toList.flatMap fun info => [.readOrder b info, .eraseOrder b info]

/-! ## Requests -/

namespace Worker

variable [Field α] [LinearOrder α]

/-- The accesses to the book of a worker that has this request in hand. -/
def accesses (ob : OrderBook α) : Op α → List (Access α)
  | .newOrder i =>
    .setTick ob.tick.computeTick ::
      match (NewOrder.verdict ob i.info).1 with
      | .tickRefused => []
      | .duplicate => hasAccesses ob i.clOrdId
      | .accepted => hasAccesses ob i.clOrdId ++ addAccesses (ob.allowTick i.side).2 i.info
  | .cancel i =>
    findAccesses i.side.bundle i.origClOrdId ++
      match Cancel.verifyOrderStateWithLock ob i.origClOrdId i.orderQty i.side with
      | .ok (.inl .notFound) => []
      | .ok (.inl .quantity) | .error _ => getOrderAccesses ob i.origClOrdId
      | .ok (.inr _) =>
        getOrderAccesses ob i.origClOrdId ++ cancelAccesses ob i.origClOrdId i.side.bundle

end Worker

end Fix42
