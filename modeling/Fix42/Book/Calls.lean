import Fix42.Book.OrderBook

/-!
# Calls of `fillOrder`

The calls the matching loop makes of `fillOrder`, listed beside the loop (`fillListCalls`,
`fillLevelsCalls`), which itself keeps no record of them.
-/

namespace Fix42

variable {α : Type*} [Field α] [LinearOrder α]

structure FillCall (α : Type*) where
  main : Event α
  price : α
  order : Order α

/-- The cumulated quantities after the fill, by which the two average prices are divided. -/
def FillCall.divisors (c : FillCall α) : List α :=
  if c.order.userId = c.main.order.userId then []
  else
    let fillQty := min c.order.remainQty c.main.order.remainQty
    [c.main.order.cumQty + fillQty, c.order.cumQty + fillQty]

/-- The calls of `fillList`. -/
def fillListCalls (price : α) : OrderList α → Event α → List (FillCall α)
  | [], _ => []
  | n :: rest, main =>
    let r := fillOrder main price n.order
    ⟨main, price, n.order⟩ ::
      if r.status ≠ .skipped ∧ r.main.order.remainQty = 0 then []
      else fillListCalls price rest r.main

/-- The calls of `fillLevels`. -/
def fillLevelsCalls (cmp : α → α → Bool) (info : OrderInfo α) :
    List (α × OrderList α) → FillState α → List (FillCall α)
  | [], _ => []
  | (price, list) :: levels, st =>
    if !cmp price info.price then []
    else
      let (allowed, tick) := st.tick.allowTick info.order.side
      if !allowed then []
      else
        fillListCalls price list st.main ++
          match fillList price [] list { st with tick } with
          | (_, _, true) => []
          | (_, st, false) => fillLevelsCalls cmp info levels st

namespace OrderBook

/-- The calls of `add`. -/
def fillCalls (ob : OrderBook α) (info : OrderInfo α) : List (FillCall α) :=
  if info.order.side.isBid then
    fillLevelsCalls (fun a b => a ≤ b) info ob.askBook.entries (ob.fillState ob.askId info)
  else if info.order.side.isAsk then
    fillLevelsCalls (fun a b => a ≥ b) info ob.bidBook.entries (ob.fillState ob.bidId info)
  else []

end OrderBook

end Fix42
