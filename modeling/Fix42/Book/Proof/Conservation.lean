import Mathlib.Tactic.Abel
import Mathlib.Tactic.LinearCombination
import Mathlib.Tactic.Ring
import Fix42.Book.Conservation
import Fix42.Book.Proof.Quantity
import Fix42.Book.Proof.Reports

/-!
# Quantities are conserved

`Accounted`: what a stretch of the matching loop takes from the orders, its fills hold. A call of
`fillOrder` is accounted for (`Accounted.fill`), stretches compose (`Accounted.trans`), and so the
loop (`CallSteps.accounted`) and `add` are. `Account.conserved` is the balance over whole runs.
-/

namespace Fix42

open SortedMap

variable {α : Type*} [Field α]

omit [Field α] in
@[simp] theorem filled_append (fs gs : List (OrderFill α)) :
    filled (fs ++ gs) = filled fs ++ filled gs := List.map_append

omit [Field α] in
@[simp] theorem remaining_append (c c' : List (α × Node α)) :
    remaining (c ++ c') = remaining c ++ remaining c' := List.map_append

@[simp] theorem sideQty_append (p : Side → Bool) (fs gs : List (OrderFill α)) :
    sideQty p (fs ++ gs) = sideQty p fs + sideQty p gs := by
  simp [sideQty]

/-- The orders of the loop: the incoming one and the cells. -/
def holdings (c : List (α × Node α)) (main : Event α) : List (ExecId × α) :=
  (main.order.submission, main.order.remainQty) :: remaining c

/-- A stretch of the matching loop from the cells `c` and the main event `main`. -/
structure Accounted (c c' : List (α × Node α)) (main main' : Event α)
    (fills : List (OrderFill α)) : Prop where
  submission : main'.order.submission = main.order.submission
  side : main'.order.side = main.order.side
  balance : ∀ k, tally (holdings c' main') k + tally (filled fills) k = tally (holdings c main) k
  orders : ∀ x ∈ c', ∃ y ∈ c,
    y.2.order.submission = x.2.order.submission ∧ y.2.order.side = x.2.order.side
  labels : ∀ f ∈ fills, (f.submission = main.order.submission ∧ f.side = main.order.side) ∨
    ∃ x ∈ c, x.2.order.submission = f.submission ∧ x.2.order.side = f.side
  untouched : ∀ x : α × Node α, x.2.order.submission ∉ fills.map OrderFill.submission →
    (x ∈ c' ↔ x ∈ c)
  sides : ∀ p q : Side → Bool, p main.order.side = true → q main.order.side = false →
    (∀ x ∈ c, p x.2.order.side = false ∧ q x.2.order.side = true) → sideQty p fills = sideQty q fills

namespace Accounted

variable {c c' c'' : List (α × Node α)} {main main' main'' : Event α} {fs gs : List (OrderFill α)}

theorem refl (c : List (α × Node α)) (main : Event α) : Accounted c c main main [] where
  submission := rfl
  side := rfl
  balance k := by simp [filled]
  orders x hx := ⟨x, hx, rfl, rfl⟩
  labels f hf := by cases hf
  untouched _ _ := Iff.rfl
  sides _ _ _ _ _ := rfl

theorem trans (h : Accounted c c' main main' fs) (h' : Accounted c' c'' main' main'' gs) :
    Accounted c c'' main main'' (fs ++ gs) where
  submission := h'.submission.trans h.submission
  side := h'.side.trans h.side
  balance k := by
    rw [filled_append, tally_append, ← h.balance k, ← h'.balance k]
    abel
  orders x hx := by
    obtain ⟨y, hy, h1, h2⟩ := h'.orders x hx
    obtain ⟨z, hz, h3, h4⟩ := h.orders y hy
    exact ⟨z, hz, h3.trans h1, h4.trans h2⟩
  labels f hf := by
    rcases List.mem_append.1 hf with hf | hf
    · exact h.labels f hf
    · rcases h'.labels f hf with ⟨h1, h2⟩ | ⟨y, hy, h1, h2⟩
      · exact .inl ⟨h1.trans h.submission, h2.trans h.side⟩
      · obtain ⟨z, hz, h3, h4⟩ := h.orders y hy
        exact .inr ⟨z, hz, h3.trans h1, h4.trans h2⟩
  untouched x hx := by
    rw [List.map_append, List.mem_append, not_or] at hx
    exact (h'.untouched x hx.2).trans (h.untouched x hx.1)
  sides p q hp hq hc := by
    rw [sideQty_append, sideQty_append, h.sides p q hp hq hc]
    congr 1
    refine h'.sides p q (h.side ▸ hp) (h.side ▸ hq) fun x hx => ?_
    obtain ⟨y, hy, -, h2⟩ := h.orders x hx
    exact h2 ▸ hc y hy

/-- The cells around a stretch stay as they are. -/
theorem frame (h : Accounted c c' main main' fs) (pre post : List (α × Node α)) :
    Accounted (pre ++ c ++ post) (pre ++ c' ++ post) main main' fs where
  submission := h.submission
  side := h.side
  balance k := by
    have hk := h.balance k
    simp only [holdings, tally_cons, remaining_append, tally_append] at hk ⊢
    linear_combination hk
  orders x hx := by
    rcases List.mem_append.1 hx with hx | hx
    · rcases List.mem_append.1 hx with hx | hx
      · exact ⟨x, by simp [hx], rfl, rfl⟩
      · obtain ⟨y, hy, he⟩ := h.orders x hx
        exact ⟨y, by simp [hy], he⟩
    · exact ⟨x, by simp [hx], rfl, rfl⟩
  labels f hf := (h.labels f hf).imp_right fun ⟨x, hx, he⟩ => ⟨x, by simp [hx], he⟩
  untouched x hx := by simp only [List.mem_append, h.untouched x hx]
  sides p q hp hq hc := h.sides p q hp hq fun x hx => hc x (by simp [hx])

/-- The level of the loop: the fill of one order, at the head of what is left. -/
theorem fill [LinearOrder α] (price : α) {n : Node α} {st : FillState α}
    (other : n.order.userId ≠ st.main.order.userId) :
    Accounted [(price, n)] (cells price (st.kept price n)) st.main (st.fill price n).main
      (FillCall.fills ⟨st.main, price, n.order⟩) := by
  have hs := fillOrder_status price other
  have hfills : FillCall.fills ⟨st.main, price, n.order⟩ =
      [⟨st.main.order.submission, st.main.order.side, min n.order.remainQty st.main.order.remainQty⟩,
        ⟨n.order.submission, n.order.side, min n.order.remainQty st.main.order.remainQty⟩] := by
    have hne : (fillOrder st.main price n.order).status ≠ .skipped := by
      rw [hs]
      split <;> simp
    rw [FillCall.fills, if_neg hne]
    simp [fillOrder, other]
  have hmain : (st.fill price n).main.order = { st.main.order with
      avgPrice := (fillOrder st.main price n.order).main.order.avgPrice
      remainQty := st.main.order.remainQty - min n.order.remainQty st.main.order.remainQty } := by
    simp [FillState.fill, fillOrder, other]
  have hkept : ∀ x ∈ cells price (st.kept price n),
      x.2.order.submission = n.order.submission ∧ x.2.order.side = n.order.side := by
    intro x hx
    simp only [FillState.kept] at hx
    split at hx
    · cases hx
    · simp only [cells, List.map_cons, List.map_nil, List.mem_singleton] at hx
      subst hx
      simp [fillOrder, other]
  refine ⟨by rw [hmain], by rw [hmain], fun k => ?_, fun x hx => ?_, ?_, fun x hx => ?_, ?_⟩
  · -- what is left of the resting order, as a cell or as nothing
    have hrest : tally (remaining (cells price (st.kept price n))) k =
        if n.order.submission = k then
          n.order.remainQty - min n.order.remainQty st.main.order.remainQty else 0 := by
      unfold FillState.kept
      by_cases hz : n.order.remainQty - min n.order.remainQty st.main.order.remainQty = 0
      · simp [hs, hz, remaining, cells]
      · simp [hz, remaining, cells, fillOrder, other]
    rw [hfills, holdings, tally_cons, hrest, hmain]
    simp only [filled, holdings, remaining, List.map_cons, List.map_nil, tally_cons, tally_nil]
    split <;> split <;> ring
  · exact ⟨(price, n), List.mem_singleton_self _, (hkept x hx).1.symm, (hkept x hx).2.symm⟩
  · rw [hfills]
    simp
  · rw [hfills] at hx
    simp only [List.map_cons, List.map_nil, List.mem_cons, List.not_mem_nil, or_false, not_or] at hx
    refine iff_of_false (fun hm => hx.2 (hkept x hm).1) fun hm => hx.2 ?_
    rw [List.mem_singleton.1 hm]
  · intro p q hp hq hc
    obtain ⟨hpn, hqn⟩ := hc (price, n) (List.mem_singleton_self _)
    rw [hfills]
    simp [sideQty, hp, hq, hpn, hqn]

end Accounted

/-! ## The loops -/

variable [LinearOrder α]

/-- One step of the loop: only a fill takes anything. -/
theorem CallStep.accounted {c c' : List (α × Node α)} {st st' : FillState α} {ds : List (FillCall α)}
    (h : CallStep (c, st) ds (c', st')) :
    Accounted c c' st.main st'.main (ds.flatMap FillCall.fills) := by
  cases h with
  | fill l r price other active =>
    have hfill := (Accounted.fill price other).frame l r
    simp only [List.append_assoc, List.singleton_append] at hfill
    rwa [List.flatMap_singleton]
  | skip price same =>
    rw [List.flatMap_singleton, FillCall.fills, fillOrder_skipped same]
    exact .refl _ _
  | tick | note => exact .refl _ _

theorem CallSteps.accounted {c c' : List (α × Node α)} {st st' : FillState α}
    {cs : List (FillCall α)} (h : CallSteps (c, st) cs (c', st')) :
    Accounted c c' st.main st'.main (cs.flatMap FillCall.fills) := by
  refine h.invariant (I := fun c1 st1 cs => Accounted c c1 st.main st1.main
    (cs.flatMap FillCall.fills)) (.refl _ _) fun c1 st1 cs ds c2 st2 hI hs => ?_
  rw [List.flatMap_append]
  exact hI.trans hs.accounted

theorem fillOnBook_accounted {lt : α → α → Prop} (cmp : α → α → Bool)
    (book : SortedMap α (OrderList α) lt) (info : OrderInfo α) (st : FillState α)
    (hact : st.Active) : ∃ main', Accounted (flat book.entries)
        (flat (fillOnBook cmp book info st).book.entries) st.main main'
        ((fillLevelsCalls cmp info book.entries st).flatMap FillCall.fills) ∧
      (fillOnBook cmp book info st).left.1 = main'.order.remainQty := by
  obtain ⟨st', reports, hcalls, -, hout, -⟩ := fillOnBook_calls cmp book info st hact
  exact ⟨st'.main, hcalls.accounted, hout.left_eq⟩

/-- `add` on either side: the fills among the resting orders, what is left of the incoming one at
rest, and as much bought as sold. -/
theorem add_accounted {ob ob' : OrderBook α} {info : OrderInfo α}
    (hs : info.order.side.supported = true) (hq : info.order.remainQty = info.order.originalQty)
    (hrep : RepInv ob) (h : ob.add info = .ok ob') :
    ∃ c main' left, Accounted ob.resting c (mainEvent info.order) main'
        ((ob.fillCalls info).flatMap FillCall.fills) ∧
      left.1 = main'.order.remainQty ∧
      ob'.resting.Perm (if left.1 ≠ 0 then
        (info.price, ⟨ob.nextNode, OrderBook.restingOrder info left⟩) :: c else c) ∧
      sideQty Side.isBid ((ob.fillCalls info).flatMap FillCall.fills) =
        sideQty Side.isAsk ((ob.fillCalls info).flatMap FillCall.fills) := by
  rcases Bool.or_eq_true_iff.1 hs with hb | ha
  · obtain ⟨main', hacc, hleft⟩ := fillOnBook_accounted (fun a b => a ≤ b) ob.askBook info
      (ob.fillState ob.askId info) fun h0 => hq ▸ h0
    obtain ⟨hask, -, -, -, -, hbid⟩ := add_bid hb h
    have hna : info.order.side.isAsk = false := Side.isAsk_of_isBid hb
    rw [OrderBook.fillCalls, if_pos hb]
    refine ⟨_, main', _, hacc.frame [] (flat ob.bidBook.entries), hleft, ?_, ?_⟩
    · rw [OrderBook.resting, hask]
      refine ((addToBook_resting (fun a b h1 h2 => le_antisymm (not_lt.1 h1) (not_lt.1 h2))
        hbid).append_left _).trans ?_
      split
      · exact List.perm_middle
      · exact .refl _
    · exact hacc.sides _ _ hb hna fun x hx =>
        ⟨Side.isBid_of_isAsk (hrep.ask.sides x hx), hrep.ask.sides x hx⟩
  · obtain ⟨main', hacc, hleft⟩ := fillOnBook_accounted (fun a b => a ≥ b) ob.bidBook info
      (ob.fillState ob.bidId info) fun h0 => hq ▸ h0
    obtain ⟨hbid, -, -, -, -, hask⟩ := add_ask ha h
    have hnb : info.order.side.isBid = false := Side.isBid_of_isAsk ha
    have hframe := hacc.frame (flat ob.askBook.entries) []
    rw [List.append_nil, List.append_nil] at hframe
    rw [OrderBook.fillCalls, if_neg (by simp [hnb]), if_pos ha]
    refine ⟨_, main', _, hframe, hleft, ?_, ?_⟩
    · rw [OrderBook.resting, hbid]
      refine ((addToBook_resting (fun a b h1 h2 => le_antisymm (not_lt.1 h2) (not_lt.1 h1))
        hask).append_right _).trans ?_
      split <;> simp
    · exact (hacc.sides _ _ ha hnb fun x hx =>
        ⟨Side.isAsk_of_isBid (hrep.bid.sides x hx), hrep.bid.sides x hx⟩).symm

/-! ## Runs -/

namespace Account

/-- The quantities the accepted orders came with. -/
def incoming (a : Account α) : List (ExecId × α) :=
  a.acked.map fun o => (o.submission, o.originalQty)

structure Inv (a : Account α) : Prop where
  nodup : (a.acked.map Order.submission).Nodup
  resting : ∀ x ∈ a.ob.resting, ∃ o ∈ a.acked,
    o.submission = x.2.order.submission ∧ o.side = x.2.order.side
  labels : ∀ f ∈ a.fills, ∃ o ∈ a.acked, o.submission = f.submission ∧ o.side = f.side
  sides : sideQty Side.isBid a.fills = sideQty Side.isAsk a.fills
  balance : ∀ k, tally (remaining a.ob.resting) k + tally (filled a.fills) k + tally a.removed k =
    tally a.incoming k

theorem inv_new (name : String) : (new name : Account α).Inv where
  nodup := .nil
  resting x hx := by cases hx
  labels f hf := by cases hf
  sides := rfl
  balance k := by simp [new, Ledger.new, incoming, filled, remaining, OrderBook.new,
    OrderBook.resting, SortedMap.empty]

theorem Inv.conserved {a : Account α} (h : a.Inv) : a.Conserved where
  sides := h.sides
  labels := h.labels
  orders o ho := by
    have hkeys : (a.incoming.map Prod.fst).Nodup := by
      rw [incoming, List.map_map]
      exact h.nodup
    rw [h.balance, tally_eq_of_mem hkeys (List.mem_map.2 ⟨o, ho, rfl⟩)]

theorem fills_newOrder {ob : OrderBook α} {i : NewOrderInput α} :
    Worker.fills ob (.newOrder i) = if (NewOrder.verdict ob i.info).1 = .accepted then
      ((ob.allowTick i.side).2.fillCalls i.info).flatMap FillCall.fills else [] := by
  rw [Worker.fills, Worker.fillCalls_newOrder]
  split <;> rfl

/-- An accepted order. -/
theorem Inv.add {a : Account α} (h : a.Inv) (ob : OrderBook α) (hob : ob.resting = a.ob.resting)
    (hrep : RepInv ob) {ob' : OrderBook α} {i : NewOrderInput α}
    (hfresh : i.executionId ∉ a.acked.map Order.submission) (hadd : ob.add i.info = .ok ob') :
    let fills := (ob.fillCalls i.info).flatMap FillCall.fills
    Inv ⟨{ a.toLedger with ob := ob', acked := a.acked ++ [i.info.order] }, a.fills ++ fills,
      a.removed⟩ ∧
    ∀ x : α × Node α, x.2.order.submission ≠ i.executionId →
      x.2.order.submission ∉ fills.map OrderFill.submission →
      (x ∈ ob'.resting ↔ x ∈ a.ob.resting) := by
  intro fills
  obtain ⟨c, main', left, hacc, hleft, hperm, hsides⟩ := add_accounted i.supported rfl hrep hadd
  rw [hob] at hacc
  have hmain : main'.order.submission = i.executionId := hacc.submission
  -- an order of the book or of the fills was accepted before, or is the new one
  have hold : ∀ {p : Order α → Prop}, (∃ o ∈ a.acked, p o) → ∃ o ∈ a.acked ++ [i.info.order], p o :=
    fun ⟨o, ho, hp⟩ => ⟨o, List.mem_append_left _ ho, hp⟩
  have hnew : ∀ {p : Order α → Prop}, p i.info.order → ∃ o ∈ a.acked ++ [i.info.order], p o :=
    fun hp => ⟨_, List.mem_append_right _ (List.mem_singleton_self _), hp⟩
  have hcells : ∀ x ∈ c, ∃ o ∈ a.acked,
      o.submission = x.2.order.submission ∧ o.side = x.2.order.side := fun x hx => by
    obtain ⟨y, hy, h1, h2⟩ := hacc.orders x hx
    obtain ⟨o, ho, h3, h4⟩ := h.resting y hy
    exact ⟨o, ho, h3.trans h1, h4.trans h2⟩
  refine ⟨⟨?_, fun x hx => ?_, fun f hf => ?_, ?_, fun k => ?_⟩, fun x hx hxf => ?_⟩
  · rw [List.map_append]
    exact List.nodup_append.2 ⟨h.nodup, List.nodup_singleton _, fun s hs t ht he =>
      hfresh (by rwa [he, List.mem_singleton.1 ht] at hs)⟩
  · have hx' := hperm.mem_iff.1 hx
    split at hx'
    · rcases List.mem_cons.1 hx' with rfl | hx'
      · exact hnew ⟨rfl, rfl⟩
      · exact hold (hcells x hx')
    · exact hold (hcells x hx')
  · rcases List.mem_append.1 hf with hf | hf
    · exact hold (h.labels f hf)
    · rcases hacc.labels f hf with ⟨h1, h2⟩ | ⟨x, hx, h1, h2⟩
      · exact hnew ⟨h1.symm, h2.symm⟩
      · obtain ⟨o, ho, h3, h4⟩ := h.resting x hx
        exact hold ⟨o, ho, h3.trans h1, h4.trans h2⟩
  · rw [sideQty_append, sideQty_append, h.sides, hsides]
  · have hloop := hacc.balance k
    have hbal := h.balance k
    have hrest : tally (remaining ob'.resting) k = tally (holdings c main') k := by
      have hmap := tally_perm (hperm.map fun x => (x.2.order.submission, x.2.order.remainQty)) k
      rw [remaining, hmap, holdings, tally_cons, hmain, ← hleft]
      split
      · rfl
      · rename_i hz
        rw [not_not.1 hz, ite_self, zero_add]
        rfl
    have hin : tally (incoming ⟨{ a.toLedger with ob := ob', acked := a.acked ++ [i.info.order] },
        a.fills ++ fills, a.removed⟩) k =
        tally a.incoming k + if i.executionId = k then i.orderQty else 0 := by
      simp [incoming, NewOrderInput.info, newOrderInfo]
    have hstart : tally (holdings a.ob.resting (mainEvent i.info.order)) k =
        (if i.executionId = k then i.orderQty else 0) + tally (remaining a.ob.resting) k := rfl
    rw [hin, ← hbal, filled_append, tally_append, hrest]
    rw [hstart] at hloop
    linear_combination hloop
  · rw [← hacc.untouched x hxf, hperm.mem_iff]
    split
    · rw [List.mem_cons]
      refine or_iff_right fun he => hx ?_
      rw [he]
      rfl
    · rfl

/-- A cancelled order. -/
theorem Inv.cancel {a : Account α} (h : a.Inv) {ob' : OrderBook α} {o : Order α}
    (hrem : Removes a.ob ob' o) (cancelled : List ExecId) :
    Inv ⟨{ a.toLedger with ob := ob', cancelled }, a.fills,
      a.removed ++ [(o.submission, o.remainQty)]⟩ ∧
    ∀ x : α × Node α, x.2.order.orderId ≠ o.orderId → (x ∈ ob'.resting ↔ x ∈ a.ob.resting) := by
  obtain ⟨l, r, y, hbefore, hafter, rfl, -⟩ := hrem.resting
  refine ⟨⟨h.nodup, fun x hx => h.resting x (hrem.subset hx), h.labels, h.sides, fun k => ?_⟩,
    fun x hx => ?_⟩
  · have hbal := h.balance k
    have hin : tally (incoming ⟨{ a.toLedger with ob := ob', cancelled }, a.fills,
      a.removed ++ [(y.2.order.submission, y.2.order.remainQty)]⟩) k = tally a.incoming k := rfl
    rw [hin, ← hbal, hbefore, hafter, remaining_append, remaining_append, tally_append, tally_append,
      tally_append]
    simp only [remaining, List.map_cons, tally_cons, tally_nil]
    ring
  · rw [hbefore, hafter]
    have hne : x ≠ y := fun he => hx (he ▸ rfl)
    simp [hne]

theorem Inv.step {a a' : Account α} {op : Worker.Op α} (h : a.Inv) (hrep : RepInv a.ob)
    (hs : a.step op = some a') : a'.Inv ∧ Untouched a a' op := by
  obtain ⟨l, hl, rfl⟩ := Option.map_eq_some_iff.1 hs
  cases op with
  | newOrder i =>
    obtain ⟨hfresh, ⟨hv, rfl⟩ | ⟨hv, hallow, ob', hadd, rfl⟩⟩ := Ledger.step_newOrder hl
    · have hf : Worker.fills a.ob (.newOrder i) = [] := fills_newOrder.trans (if_neg hv)
      simp only [hf, Worker.removed, List.append_nil]
      exact ⟨⟨h.nodup, h.resting, h.labels, h.sides, h.balance⟩, fun x _ _ => Iff.rfl⟩
    · have hf : Worker.fills a.ob (.newOrder i) = _ := fills_newOrder.trans (if_pos hv)
      obtain ⟨hinv, hun⟩ := h.add (a.ob.allowTick i.side).2 rfl (hrep.allowTick i.side) hfresh hadd
      simp only [hf, Worker.removed, List.append_nil]
      exact ⟨hinv, fun x hx hxf => hun x hx (hf ▸ hxf)⟩
  | cancel i =>
    have hf : Worker.fills a.ob (.cancel i) = [] := rfl
    rcases Ledger.step_cancel hl with ⟨⟨r, hv⟩, rfl⟩ | ⟨o, ob', hv, hok, rfl⟩
    · simp only [hf, Worker.removed, hv, List.append_nil]
      exact ⟨⟨h.nodup, h.resting, h.labels, h.sides, h.balance⟩, fun x _ _ => Iff.rfl⟩
    · obtain ⟨ob'', hok', -, -, hid, -, hrem⟩ := hrep.cancel_verified hv
      rw [hok] at hok'
      cases hok'
      obtain ⟨hinv, hun⟩ := h.cancel hrem (a.cancelled ++ [o.submission])
      simp only [hf, Worker.removed, hv, List.append_nil]
      exact ⟨hinv, fun x hx _ => hun x (hid ▸ hx)⟩

/-- The ledger of an account goes through the states of the ledger's runs. -/
theorem reachable_ob {name : String} {a : Account α} (h : Trans.Reach step (new name) a) :
    Worker.Reachable name a.ob := by
  induction h with
  | start => exact .start
  | next _ _ hs ih =>
    obtain ⟨l, hl, rfl⟩ := Option.map_eq_some_iff.1 hs
    exact ih.next trivial (Ledger.step_ob hl)

theorem inv_of_reach {name : String} {a : Account α} (h : Trans.Reach step (new name) a) : a.Inv :=
  h.invariant_with (J := fun a => RepInv a.ob) (inv_new name)
    (fun _ hs => repInv_of_reachable (reachable_ob hs)) fun _ _ _ hI hrep _ hs => (hI.step hrep hs).1

end Account

/-- A request with an execution id of its own is worked off. -/
theorem RepInv.ledger_step {l : Ledger α} (h : RepInv l.ob) {op : Worker.Op α}
    (hfresh : ∀ i, op = .newOrder i → i.executionId ∉ l.acked.map Order.submission) :
    ∃ l', l.step op = some l' := by
  obtain ⟨ob', hs, -⟩ := h.step op
  cases op with
  | newOrder i =>
    simp only [Worker.step] at hs
    simp only [Ledger.step, if_neg (hfresh i rfl)]
    cases hw : NewOrder.work l.ob i.info with
    | error f => simp [hw, Except.toOption] at hs
    | ok r =>
      obtain ⟨v, ob''⟩ := r
      cases v <;> exact ⟨_, rfl⟩
  | cancel i =>
    simp only [Worker.step] at hs
    simp only [Ledger.step]
    cases hw : Cancel.work l.ob i.origClOrdId i.orderQty i.side with
    | error f => simp [hw, Except.toOption] at hs
    | ok r =>
      obtain ⟨v, ob''⟩ := r
      cases v <;> exact ⟨_, rfl⟩

/-- **Conservation.** After every run of new orders and cancels as much is bought as is sold, and
what each accepted order came with is at rest, filled or removed by its cancel. A further request is
worked off, and leaves every order that it is not about and that does not trade as it is. -/
theorem quantity_conserved {name : String} {a : Account α}
    (h : Trans.Reach Account.step (Account.new name) a) :
    a.Conserved ∧
    ∀ op, (∀ i, op = .newOrder i → i.executionId ∉ a.acked.map Order.submission) →
      ∃ a', a.step op = some a' ∧ a.Untouched a' op := by
  have hinv := Account.inv_of_reach h
  have hrep := repInv_of_reachable (Account.reachable_ob h)
  refine ⟨hinv.conserved, fun op hfresh => ?_⟩
  obtain ⟨l, hl⟩ := hrep.ledger_step hfresh
  have hs : a.step op = some _ := congrArg (Option.map _) hl
  exact ⟨_, hs, (hinv.step hrep hs).2⟩

/-- A sell of ten, a buy of four that takes a part of it, a buy of two that rests, and the cancel of
the sell. -/
def partlyFilled : List (Worker.Op ℚ) :=
  [restingSell, .newOrder ⟨"B", "e2", "b1", 5, 4, .buy, Side.supported_buy⟩,
    .newOrder ⟨"C", "e3", "b2", 4, 2, .buy, Side.supported_buy⟩,
    .cancel ⟨"e4", "c1", "s1", 6, .sell, Side.supported_sell⟩]

theorem quantity_conserved_run : ∃ a : Account ℚ,
    Trans.exec Account.step (fun _ _ => True) (Account.new "AAPL") partlyFilled = some a ∧
    remaining a.ob.resting = [("e3", 2)] ∧ filled a.fills = [("e2", 4), ("e1", 4)] ∧
    a.removed = [("e1", 6)] ∧ a.Conserved := by
  have h : (Trans.exec Account.step (fun _ _ => True) (Account.new "AAPL") partlyFilled).map
      (fun a => (remaining a.ob.resting, filled a.fills, a.removed)) =
        some ([("e3", 2)], [("e2", 4), ("e1", 4)], [("e1", 6)]) := by decide +kernel
  obtain ⟨a, ha, hout⟩ := Option.map_eq_some_iff.1 h
  simp only [Prod.mk.injEq] at hout
  obtain ⟨hrest, hfilled, hremoved⟩ := hout
  exact ⟨a, ha, hrest, hfilled, hremoved, (quantity_conserved (Trans.Run.of_exec .start ha)).1⟩

end Fix42
