import Fix42.Book.Proof.Refine
import Fix42.Book.Serve

/-!
# The workers serve as the reference exchange does

`serve_newOrder` and `serve_cancel`: on an indexed book with a settled tick record, what a worker does with
a request and what it answers is what `Reference.serve` does and answers on the book's view.
-/

namespace Fix42

open SortedMap Reference

variable {α : Type*}

/-! ## The view of a side -/

theorem orders_consLevel (price : α) (os : List (Resting α)) (ls : List (Level α)) :
    orders (consLevel price os ls) = os ++ orders ls := by
  unfold consLevel
  split
  · rename_i hos
    simp [hos]
  · rfl

theorem orders_levelsView (es : List (α × OrderList α)) :
    orders (levelsView es) = (flat es).map fun x => x.2.order.view := by
  induction es with
  | nil => rfl
  | cons e es ih =>
    obtain ⟨price, list⟩ := e
    rw [levelsView, orders_consLevel, ih, flat_cons, List.map_append, List.map_map]
    rfl

theorem levelsView_compact (es : List (α × OrderList α)) :
    levelsView es = (compact es).map fun e => (e.1, listView e.2) := by
  induction es with
  | nil => rfl
  | cons e es ih =>
    obtain ⟨price, _ | ⟨n, list⟩⟩ := e
    · exact ih
    · rw [levelsView, ih]
      rfl

/-- The resting orders determine the view of a side. -/
theorem levelsView_of_flat {lt : α → α → Prop} [Std.Irrefl lt] {es es' : List (α × OrderList α)}
    (hs : (es.map Prod.fst).Pairwise lt) (hs' : (es'.map Prod.fst).Pairwise lt)
    (h : flat es = flat es') : levelsView es = levelsView es' := by
  rw [levelsView_compact, levelsView_compact, compact_eq_of_flat hs hs' h]

theorem without_consLevel (id : OrderId) (price : α) (os : List (Resting α)) (ls : List (Level α)) :
    without id (consLevel price os ls) =
      consLevel price (os.filter fun o => o.orderId ≠ id) (without id ls) := by
  unfold consLevel
  split
  · rename_i hos
    simp [hos]
  · rfl

/-- The side without the order of an id. -/
theorem without_levelsView (id : OrderId) (es : List (α × OrderList α)) :
    without id (levelsView es) =
      levelsView (es.map fun e => (e.1, e.2.filter fun n => n.order.orderId ≠ id)) := by
  induction es with
  | nil => rfl
  | cons e es ih =>
    obtain ⟨price, list⟩ := e
    rw [levelsView, without_consLevel, ih, List.map_cons, levelsView, listView, listView,
      List.filter_map]
    rfl

theorem flat_filter (p : Node α → Bool) (es : List (α × OrderList α)) :
    flat (es.map fun e => (e.1, e.2.filter p)) = (flat es).filter fun x => p x.2 := by
  induction es with
  | nil => rfl
  | cons e es ih =>
    obtain ⟨price, list⟩ := e
    rw [List.map_cons, flat_cons, flat_cons, ih, List.filter_append, List.filter_map]
    rfl

/-- An order in the middle of a side whose ids differ. -/
theorem filter_id {l r : List (α × Node α)} {x : α × Node α} {id : OrderId}
    (hid : x.2.order.orderId = id)
    (hnd : ((l ++ x :: r).map fun y => y.2.order.orderId).Nodup) :
    ((l ++ x :: r).filter fun y => y.2.order.orderId ≠ id) = l ++ r := by
  subst hid
  rw [List.map_append, List.map_cons, List.nodup_middle, ← List.map_append, List.nodup_cons] at hnd
  have hkeep : ∀ y ∈ l ++ r, decide (y.2.order.orderId ≠ x.2.order.orderId) = true := by
    intro y hy
    apply decide_eq_true
    intro he
    exact hnd.1 (List.mem_map.2 ⟨y, hy, he⟩)
  rw [List.filter_append, List.filter_cons_of_neg (by simp), ← List.filter_append]
  exact List.filter_eq_self.2 hkeep

theorem find?_id {l r : List (α × Node α)} {x : α × Node α} {id : OrderId}
    (hid : x.2.order.orderId = id)
    (hnd : ((l ++ x :: r).map fun y => y.2.order.orderId).Nodup) :
    (((l ++ x :: r).map fun y => y.2.order.view).find? fun o => o.orderId = id) =
      some x.2.order.view := by
  subst hid
  rw [List.map_append, List.map_cons, List.nodup_append] at hnd
  have hno : (l.map fun y => y.2.order.view).find? (fun o => o.orderId = x.2.order.orderId) = none := by
    rw [List.find?_eq_none]
    intro o ho
    obtain ⟨y, hy, rfl⟩ := List.mem_map.1 ho
    intro he
    exact hnd.2.2 _ (List.mem_map.2 ⟨y, hy, rfl⟩) _ List.mem_cons_self (of_decide_eq_true he)
  rw [List.map_append, List.find?_append, hno, Option.none_or, List.map_cons]
  exact List.find?_cons_of_pos (by simp [Order.view])

/-- Taking one order out of a side is `without`. -/
theorem without_view {lt : α → α → Prop} [Std.Irrefl lt] {es es' : List (α × OrderList α)}
    {l r : List (α × Node α)} {x : α × Node α} {id : OrderId} (hid : x.2.order.orderId = id)
    (hnd : ((flat es).map fun y => y.2.order.orderId).Nodup)
    (hs : (es.map Prod.fst).Pairwise lt) (hs' : (es'.map Prod.fst).Pairwise lt)
    (before : flat es = l ++ x :: r) (after : flat es' = l ++ r) :
    without id (levelsView es) = levelsView es' := by
  have hkept : ((es.map fun e => (e.1, e.2.filter fun n => n.order.orderId ≠ id)).map
      Prod.fst).Pairwise lt := by
    rwa [List.map_map]
  rw [without_levelsView]
  apply levelsView_of_flat hkept hs'
  rw [flat_filter, before, after]
  rw [before] at hnd
  exact filter_id hid hnd

theorem CellsInv.mem_ids {c : List (α × Node α)} {idmap : OrderIdMap α} {next : Nat}
    {onSide : Side → Bool} (h : CellsInv c idmap next onSide) (id : OrderId) :
    (idmap id).isSome = true ↔ id ∈ c.map fun x => x.2.order.orderId := by
  rw [Option.isSome_iff_exists]
  constructor
  · rintro ⟨info, hi⟩
    obtain ⟨x, hx, he⟩ := List.mem_map.1 ((h.index id info).1 hi)
    cases he
    exact List.mem_map.2 ⟨x, hx, rfl⟩
  · intro hm
    obtain ⟨x, hx, rfl⟩ := List.mem_map.1 hm
    exact ⟨_, h.indexed hx⟩

section
variable [LinearOrder α]

theorem OrderBook.view_orders (ob : OrderBook α) :
    ob.view.orders = ob.resting.map fun x => x.2.order.view := by
  rw [Book.orders, OrderBook.view, orders_levelsView, orders_levelsView, OrderBook.resting,
    List.map_append]

theorem RepInv.has_iff {ob : OrderBook α} (h : RepInv ob) (id : OrderId) :
    ob.has id = true ↔ id ∈ ob.view.orders.map Resting.orderId := by
  rw [OrderBook.view_orders, OrderBook.resting, OrderBook.has, Bool.or_eq_true, h.ask.mem_ids,
    h.bid.mem_ids, List.map_map, List.map_append, List.mem_append]
  rfl

/-- The side of the view that a traded side names. -/
theorem OrderBook.view_side (ob : OrderBook α) (side : Side) :
    ob.view.side side =
      levelsView (if side.isBid then ob.bidBook.entries else ob.askBook.entries) := by
  unfold Book.side OrderBook.view
  split <;> rfl

/-! ## Cancels -/

/-- An id its side does not have is found nowhere on it. -/
theorem RepInv.find?_none {ob : OrderBook α} (h : RepInv ob) {id : OrderId} {side : Side}
    (hs : side.supported = true) (hid : ob.hasSide id side = false) :
    (orders (ob.view.side side)).find? (fun o => o.orderId = id) = none := by
  rw [OrderBook.view_side, orders_levelsView, List.find?_eq_none]
  intro o ho he
  obtain ⟨x, hx, rfl⟩ := List.mem_map.1 ho
  have hxid : x.2.order.orderId = id := of_decide_eq_true he
  unfold OrderBook.hasSide at hid
  by_cases hb : side.isBid = true
  · rw [if_pos hb] at hid hx
    have := (h.bid.mem_ids id).2 (List.mem_map.2 ⟨x, hx, hxid⟩)
    rw [hid] at this
    cases this
  · have ha : side.isAsk = true := (Bool.or_eq_true_iff.1 hs).resolve_left hb
    rw [if_neg hb] at hid hx
    rw [if_pos ha] at hid
    have := (h.ask.mem_ids id).2 (List.mem_map.2 ⟨x, hx, hxid⟩)
    rw [hid] at this
    cases this

/-- The order a cancel takes out is the one found on the side, and the view is left without it. -/
theorem RepInv.removes_view {ob ob' : OrderBook α} {o : Order α} {side : Side} (h : RepInv ob)
    (hr : Removes ob ob' o) (hside : o.side.isBid = side.isBid) :
    (orders (ob.view.side side)).find? (fun x => x.orderId = o.orderId) = some o.view ∧
      ob.view.setSide side (without o.orderId (ob.view.side side)) = ob'.view := by
  rw [OrderBook.view_side, orders_levelsView]
  cases hr with
  | ask l r price n order before after ids rest =>
    subst order
    obtain ⟨hbook, -, htick, -, -⟩ := rest
    have hask := h.ask.sides (price, n) (before ▸ by simp)
    have hb : ¬ side.isBid = true := by
      rw [← hside, Side.isBid_of_isAsk hask]
      simp
    rw [if_neg hb, Book.setSide, if_neg hb]
    constructor
    · rw [before]
      exact find?_id rfl (before ▸ h.ask.ids)
    · rw [without_view (x := (price, n)) rfl h.ask.ids ob.askBook.sorted ob'.askBook.sorted before
        after]
      simp only [OrderBook.view, hbook, htick]
  | bid l r price n order before after ids rest =>
    subst order
    obtain ⟨hbook, -, htick, -, -⟩ := rest
    have hb : side.isBid = true := by
      rw [← hside]
      exact h.bid.sides (price, n) (before ▸ by simp)
    rw [if_pos hb, Book.setSide, if_pos hb]
    constructor
    · rw [before]
      exact find?_id rfl (before ▸ h.bid.ids)
    · rw [without_view (x := (price, n)) rfl h.bid.ids ob.bidBook.sorted ob'.bidBook.sorted before
        after]
      simp only [OrderBook.view, hbook, htick]

variable [Field α]

/-- A cancel that is refused leaves the reference book as it is, with the same answer. -/
theorem serve_refused {ob : OrderBook α} (h : RepInv ob) {id : OrderId} {qty : α} {side : Side}
    (hs : side.supported = true) {r : Cancel.Refusal}
    (hv : Cancel.verifyOrderStateWithLock ob id qty side = .ok (.inl r)) :
    serve ob.view (.withdraw id qty side) = (ob.view, Cancel.outcome (.inl r)) := by
  unfold Cancel.verifyOrderStateWithLock at hv
  cases hid : ob.hasSide id side with
  | false =>
    simp only [hid, Bool.not_false, if_true, Except.ok.injEq, Sum.inl.injEq] at hv
    subst hv
    simp only [serve, h.find?_none hs hid]
    rfl
  | true =>
    obtain ⟨ob', o, -, hget, rfl, hside, hrem, -⟩ := h.cancel hid
    simp only [hid, hget, Bool.not_true, Bool.false_eq_true, if_false, Except.map,
      Except.ok.injEq] at hv
    split at hv
    · rename_i hq
      cases hv
      simp only [serve, (h.removes_view hrem hside).1]
      exact if_pos hq
    · cases hv

/-- A cancel that is done takes the order out of the reference book. -/
theorem serve_cancelled {ob ob' : OrderBook α} (h : RepInv ob) {id : OrderId} {qty : α} {side : Side}
    {o : Order α} (hv : Cancel.verifyOrderStateWithLock ob id qty side = .ok (.inr o))
    (hok : ob.cancel id side = .ok ob') :
    serve ob.view (.withdraw id qty side) = (ob'.view, Cancel.outcome (.inr o)) := by
  obtain ⟨ob'', hok', -, hqty, rfl, hside, hrem⟩ := h.cancel_verified hv
  rw [hok] at hok'
  cases hok'
  obtain ⟨hfind, hview⟩ := h.removes_view hrem hside
  simp only [serve, hfind, hview]
  exact if_neg (not_not.2 hqty)

/-! ## New orders -/

omit [Field α] in
/-- A check does not change a settled tick record. -/
theorem OrderBook.allowTick_settled {ob : OrderBook α} (hset : ob.tick.Settled) (side : Side) :
    (ob.allowTick side).2 = ob := by
  have htick : (ob.tick.allowTick side).2 = ob.tick := hset
  simp only [OrderBook.allowTick, htick]

/-- Adding an order of positive quantity while the tick record is settled. -/
theorem add_view {ob ob' : OrderBook α} (hset : ob.tick.Settled) (i : NewOrderInput α)
    (hq : 0 < i.orderQty) (hadd : ob.add i.info = .ok ob') :
    ob'.tick.Settled ∧ ∃ new, ob'.eventOutput = ob.eventOutput ++ new ∧
      Reference.add ob.view i.incoming = (ob'.view, fillsOf i.userId new, ob.unmatched i.info) := by
  rcases Bool.or_eq_true_iff.1 i.supported with hb | ha
  · have hb' : i.info.order.side.isBid = true := hb
    obtain ⟨hask, -, htick', hev, -, hbid⟩ := add_bid hb' hadd
    obtain ⟨hlevels, htick, hleft, new, hnew, hfills⟩ := fillOnBook_view (fun a b => a ≤ b)
      ob.askBook i.info (ob.fillState ob.askId i.info)
      (fun a b hlt hle => decide_eq_true (hlt.le.trans (of_decide_eq_true hle))) hset hq.ne' rfl
    refine ⟨htick' ▸ fillOnBook_settled _ _ _ (fun h0 => h0) hset, new, hev.trans hnew, ?_⟩
    have hrest := rest_view (· > ·) (fun a b h1 h2 => eq_of_not_lt_of_not_gt a b h2 h1)
      ob.bidBook ob.bidId i ob.nextNode (fillOnBook (fun a b => a ≤ b) ob.askBook i.info
        (ob.fillState ob.askId i.info)).left
    rw [← congrArg Prod.fst hbid, hleft] at hrest
    rw [Reference.add, if_pos (show i.incoming.side.isBid = true from hb), OrderBook.unmatched,
      if_pos hb', OrderBook.view, OrderBook.view, hask, htick', hlevels, htick, ← hrest, hleft]
    exact congrArg (Prod.mk _) (congrArg (Prod.mk · _) hfills.symm)
  · have ha' : i.info.order.side.isAsk = true := ha
    have hb : ¬ i.info.order.side.isBid = true := by simp [Side.isBid_of_isAsk ha']
    obtain ⟨hbid, -, htick', hev, -, hask⟩ := add_ask ha' hadd
    obtain ⟨hlevels, htick, hleft, new, hnew, hfills⟩ := fillOnBook_view (fun a b => a ≥ b)
      ob.bidBook i.info (ob.fillState ob.bidId i.info)
      (fun a b hgt hge => decide_eq_true (le_trans (of_decide_eq_true hge) (le_of_lt hgt))) hset
      hq.ne' rfl
    refine ⟨htick' ▸ fillOnBook_settled _ _ _ (fun h0 => h0) hset, new, hev.trans hnew, ?_⟩
    have hrest := rest_view (· < ·) eq_of_not_lt_of_not_gt ob.askBook ob.askId i ob.nextNode
      (fillOnBook (fun a b => a ≥ b) ob.bidBook i.info (ob.fillState ob.bidId i.info)).left
    rw [← congrArg Prod.fst hask, hleft] at hrest
    rw [Reference.add, if_neg (show ¬ i.incoming.side.isBid = true from hb), OrderBook.unmatched,
      if_neg hb, OrderBook.view, OrderBook.view, hbid, htick', hlevels, htick, ← hrest, hleft]
    exact congrArg (Prod.mk _) (congrArg (Prod.mk · _) hfills.symm)

/-- An order that the tick rule or its id rules out changes nothing. -/
theorem serve_ruled_out {ob : OrderBook α} (h : RepInv ob) (hset : ob.tick.Settled)
    {info : OrderInfo α} {fills : List (Fill α)} (hv : (NewOrder.verdict ob info).1 ≠ .accepted) :
    serve ob.view (.enter info.incoming) =
      (ob.view, (NewOrder.verdict ob info).1.outcome fills) := by
  have hallow : ob.view.tick.allows info.incoming.side = (ob.allowTick info.order.side).1 := by
    rw [OrderBook.view, Tick.view_allows, OrderBook.allowTick, Tick.allowTick, hset]
    rfl
  have hhas : (ob.allowTick info.order.side).2.has info.order.orderId = ob.has info.order.orderId :=
    rfl
  simp only [NewOrder.verdict, hhas] at hv ⊢
  rw [serve, hallow]
  cases ha : (ob.allowTick info.order.side).1 with
  | false => simp [Verdict.outcome]
  | true =>
    cases hid : ob.has info.order.orderId with
    | false => simp [ha, hid] at hv
    | true =>
      have hmem : info.incoming.orderId ∈ ob.view.orders.map Resting.orderId := (h.has_iff _).1 hid
      simp [hmem, Verdict.outcome]

/-- An order that neither rules out is matched and rests. -/
theorem serve_accepted {ob ob' : OrderBook α} (h : RepInv ob) (hset : ob.tick.Settled)
    (i : NewOrderInput α) (hq : 0 < i.orderQty) (hallow : ob.tick.allows i.side = true)
    (hid : ob.has i.clOrdId = false) (hadd : ob.add i.info = .ok ob') :
    ∃ new, ob'.eventOutput = ob.eventOutput ++ new ∧
      serve ob.view (.enter i.incoming) = (ob'.view, .accepted (fillsOf i.userId new)) := by
  obtain ⟨-, new, hnew, hview⟩ := add_view hset i hq hadd
  refine ⟨new, hnew, ?_⟩
  have hallow' : ¬ ob.view.tick.allows i.incoming.side = false := by
    rw [OrderBook.view, Tick.view_allows, show i.incoming.side = i.side from rfl, hallow]
    exact Bool.noConfusion
  have hid' : ¬ i.incoming.orderId ∈ ob.view.orders.map Resting.orderId := by
    intro hm
    have := (h.has_iff i.clOrdId).2 hm
    rw [hid] at this
    cases this
  rw [serve, if_neg hallow', if_neg hid', hview]

end

end Fix42
