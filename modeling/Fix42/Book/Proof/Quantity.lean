import Fix42.Book.Proof.Reports
import Fix42.Book.Quantity

/-!
# Sane quantities

`add_sane`: an order for a positive quantity keeps the book sane and divides by positive quantities
only. `add_zero`: an order for nothing that meets no order changes nothing that counts. Any other
order leaves a book that is not sane, or divides by zero (`add_negative`, `add_zero_divides`);
`quantities_sane` puts the four together over the workers' runs.
-/

namespace Fix42

open SortedMap

variable {α : Type*}

theorem firstMatch_mem {cmp : α → α → Bool} {levels : List (α × OrderList α)} {user : UserId}
    {limit : α} {x : α × Node α} (h : firstMatch cmp levels user limit = some x) :
    x ∈ flat levels := by
  have hx := List.mem_of_find?_eq_some h
  simp only [flat, List.mem_flatMap] at hx ⊢
  obtain ⟨level, hl, hx⟩ := hx
  exact ⟨level, (List.takeWhile_sublist _).subset hl, hx⟩

variable [Field α] [LinearOrder α]

/-- The quantities of an order that rests. -/
def Order.SaneQty (o : Order α) : Prop := 0 < o.remainQty ∧ o.remainQty ≤ o.originalQty

/-! ## Positive orders -/

/-- The state of the matching loop for an order of quantity `qty`, a positive one. -/
structure LoopSane (qty : α) (c : List (α × Node α)) (st : FillState α) : Prop where
  resting : ∀ x ∈ c, x.2.order.SaneQty
  pos : 0 < qty
  original : st.main.order.originalQty = qty
  nonneg : 0 ≤ st.main.order.remainQty
  le : st.main.order.remainQty ≤ qty
  last : st.main.order.remainQty = qty ∨ 0 < st.main.lastQty
  fills : ∀ e ∈ st.events, 0 < e.lastQty

theorem LoopSane.subset {qty : α} {c c' : List (α × Node α)} {st : FillState α}
    (h : LoopSane qty c st) (hc : c' ⊆ c) : LoopSane qty c' st :=
  { h with resting := fun x hx => h.resting x (hc hx) }

/-- An active loop has something left of the incoming order. -/
theorem LoopSane.remain_pos {qty : α} {c : List (α × Node α)} {st : FillState α}
    (h : LoopSane qty c st) (hact : st.Active) : 0 < st.main.order.remainQty :=
  lt_of_le_of_ne h.nonneg fun h0 => h.pos.ne' (h.original ▸ hact h0.symm)

/-- An order as it is submitted. -/
structure OrderInfo.Fresh (info : OrderInfo α) : Prop where
  side : info.order.side.supported = true
  remain : info.order.remainQty = info.order.originalQty

/-- The calls of an accepted order are those of `add`, after `allowTick`. -/
theorem Worker.fillCalls_newOrder (ob : OrderBook α) (i : NewOrderInput α) :
    Worker.fillCalls ob (.newOrder i) = if (NewOrder.verdict ob i.info).1 = .accepted then
      (ob.allowTick i.side).2.fillCalls i.info else [] := by
  have hob : (NewOrder.verdict ob i.info).2 = (ob.allowTick i.side).2 := rfl
  simp only [Worker.fillCalls]
  split <;> rename_i heq
  · rw [if_pos (congrArg Prod.fst heq), ← hob, heq]
  · rw [if_neg fun hacc => heq _ (Prod.ext hacc rfl)]

omit [LinearOrder α] in
theorem Worker.fresh (i : NewOrderInput α) : i.info.Fresh := ⟨i.supported, rfl⟩

theorem OrderInfo.Fresh.loopSane {ob : OrderBook α} {info : OrderInfo α} (hi : info.Fresh)
    (h : ob.Sane) (hq : 0 < info.order.originalQty) (idmap : OrderIdMap α) :
    LoopSane info.order.originalQty ob.resting (ob.fillState idmap info) :=
  ⟨h.resting, hq, rfl, by simp [OrderBook.fillState, mainEvent, hi.remain, hq.le],
    by simp [OrderBook.fillState, mainEvent, hi.remain],
    .inl (by simp [OrderBook.fillState, mainEvent, hi.remain]), h.fills⟩

/-- The last report about an order for something is about a fill. -/
theorem Outcome.fills {info : OrderInfo α} {c : List (α × Node α)} {st : FillState α}
    {reports : List (Event α)} {left : α × α} {exit : Exit}
    (h : Outcome info st reports left exit) (hloop : LoopSane info.order.originalQty c st) :
    ∀ e ∈ reports, 0 < e.lastQty := fun e he => by
  cases exit with
  | filled =>
    obtain ⟨hz, hr⟩ := h.filled rfl
    rw [hr, List.mem_singleton] at he
    subst he
    exact hloop.last.resolve_left (by rw [hz]; exact hloop.pos.ne)
  | tickRefused =>
    rw [h.silent rfl] at he
    cases he
  | priceLimit | exhausted =>
    rw [h.partly (by simp)] at he
    split at he
    · rename_i hne
      rw [List.mem_singleton.1 he]
      exact hloop.last.resolve_left hne
    · cases he

section
variable [IsStrictOrderedRing α]

theorem FillStep.sane {qty : α} {c c' : List (α × Node α)} {st st' : FillState α}
    (hs : FillStep (c, st) (c', st')) (h : LoopSane qty c st) : LoopSane qty c' st' := by
  cases hs with
  | tick | note => exact { h with }
  | @fill l r price n st other active =>
    have hmain := h.remain_pos active
    obtain ⟨hn, hle⟩ := h.resting (price, n) (by simp)
    have hq : 0 < min n.order.remainQty st.main.order.remainQty := lt_min hn hmain
    have hrest : ∀ x ∈ cells price (st.kept price n), x.2.order.SaneQty := fun x hx => by
      simp only [FillState.kept] at hx
      split at hx
      · cases hx
      · rename_i hnot
        rw [cells, List.map_singleton, List.mem_singleton] at hx
        subst hx
        rw [fillOrder_status price other] at hnot
        simp only [fillOrder, other, if_false, Order.SaneQty]
        have hne : n.order.remainQty - min n.order.remainQty st.main.order.remainQty ≠ 0 := by
          intro h0
          simp [h0] at hnot
        have hmin := min_le_left n.order.remainQty st.main.order.remainQty
        exact ⟨lt_of_le_of_ne (sub_nonneg.2 hmin) hne.symm, (sub_le_self _ hq.le).trans hle⟩
    refine ⟨fun x hx => ?_, h.pos, ?_, ?_, ?_, .inr ?_, fun e he => ?_⟩
    · simp only [List.mem_append] at hx
      rcases hx with hx | hx | hx
      · exact h.resting x (by simp [hx])
      · exact hrest x hx
      · exact h.resting x (by simp [hx])
    · simpa [FillState.fill] using h.original
    · simp [FillState.fill, fillOrder, other]
    · simp only [FillState.fill, fillOrder, other, if_false]
      exact (sub_le_self _ hq.le).trans h.le
    · simpa [FillState.fill, fillOrder, other] using hq
    · rcases List.mem_append.1 he with he | he
      · exact h.fills e he
      · simp only [fillOrder, other, if_false, List.mem_singleton] at he
        rw [he]
        exact hq

/-! ## What positive orders divide by -/

/-- The incoming order has something left, and no more than it came with. -/
abbrev Event.Open (main : Event α) : Prop := main.order.SaneQty

omit [IsStrictOrderedRing α] in
theorem divisors_skip {c : FillCall α} (h : c.order.userId = c.main.order.userId) :
    c.divisors = [] := if_pos h

theorem FillCall.divisors_pos {c : FillCall α} (hmain : c.main.Open) (horder : c.order.SaneQty) :
    ∀ d ∈ c.divisors, 0 < d := by
  have hq : 0 < min c.order.remainQty c.main.order.remainQty := lt_min horder.1 hmain.1
  intro d hd
  unfold FillCall.divisors at hd
  split at hd
  · cases hd
  · simp only [List.mem_cons, List.not_mem_nil, or_false] at hd
    rcases hd with rfl | rfl
    · exact add_pos_of_nonneg_of_pos (sub_nonneg.2 hmain.2) hq
    · exact add_pos_of_nonneg_of_pos (sub_nonneg.2 horder.2) hq

/-- An order for something. -/
theorem add_sane {ob ob' : OrderBook α} {info : OrderInfo α} (h : ob.Sane) (hi : info.Fresh)
    (hq : 0 < info.order.originalQty) (hadd : ob.add info = .ok ob') : ob'.Sane := by
  obtain ⟨idmap, c, st, reports, left, hsteps, hev, hout, -, hperm⟩ := add_spec hi.side hi.remain hadd
  have hloop := hsteps.invariant (hi.loopSane h hq idmap) fun _ _ _ _ hI hs => hs.sane hI
  refine ⟨fun x hx => ?_, fun e he => ?_⟩
  · have hx' := hperm.mem_iff.1 hx
    split at hx'
    · rename_i hleft
      rcases List.mem_cons.1 hx' with rfl | hx'
      · rw [hout.left_eq] at hleft
        simp only [OrderBook.restingOrder, hout.left_eq]
        exact ⟨lt_of_le_of_ne hloop.nonneg (Ne.symm hleft), hloop.le⟩
      · exact hloop.resting x hx'
    · exact hloop.resting x hx'
  · rw [hev] at he
    rcases List.mem_append.1 he with he | he
    · exact hloop.fills e he
    · exact hout.fills hloop e he

/-- It divides by positive quantities only. -/
theorem fillCalls_pos {ob ob' : OrderBook α} {info : OrderInfo α} (h : ob.Sane) (hi : info.Fresh)
    (hq : 0 < info.order.originalQty) (hadd : ob.add info = .ok ob') :
    ∀ c ∈ ob.fillCalls info, ∀ d ∈ c.divisors, 0 < d := by
  obtain ⟨idmap, c, st, reports, left, hcalls, -⟩ := add_calls hi.side hi.remain hadd
  have hloop := hcalls.invariant
    (I := fun c st cs => LoopSane info.order.originalQty c st ∧ ∀ c ∈ cs, ∀ d ∈ c.divisors, 0 < d)
    ⟨hi.loopSane h hq idmap, fun c hc => by cases hc⟩ fun c st cs ds c' st' hI hs => ?_
  · exact hloop.2
  · refine ⟨hs.step.sane hI.1, fun call hcall => ?_⟩
    rcases List.mem_append.1 hcall with hcall | hcall
    · exact hI.2 call hcall
    cases hs with
    | @fill l r price n st other active =>
      rw [List.mem_singleton.1 hcall]
      exact FillCall.divisors_pos ⟨hI.1.remain_pos active, hI.1.original ▸ hI.1.le⟩
        (hI.1.resting (price, n) (by simp))
    | skip price same =>
      rw [List.mem_singleton.1 hcall, divisors_skip same]
      intro d hd
      cases hd
    | tick | note => cases hcall

end

/-! ## Orders for nothing -/

/-- The calls for orders of the incoming order's user. -/
theorem fillListCalls_skips (price : α) {skip : OrderList α} (rest : OrderList α) {main : Event α}
    (h : ∀ n ∈ skip, n.order.userId = main.order.userId) :
    fillListCalls price (skip ++ rest) main =
      skip.map (fun n => ⟨main, price, n.order⟩) ++ fillListCalls price rest main := by
  induction skip with
  | nil => rfl
  | cons n skip ih =>
    rw [List.cons_append, fillListCalls, fillOrder_skipped (h n List.mem_cons_self)]
    simp [ih fun m hm => h m (List.mem_cons_of_mem _ hm)]

/-- A loop that meets no order of another user within its limit. -/
theorem fillLevels_none (cmp : α → α → Bool) (info : OrderInfo α)
    (levels : List (α × OrderList α)) (st : FillState α)
    (h : firstMatch cmp levels st.main.order.userId info.price = none) :
    (∃ tick lookups exit, fillLevels cmp info levels st = (levels, { st with tick, lookups }, exit) ∧
      exit ≠ .filled) ∧
    ∀ c ∈ fillLevelsCalls cmp info levels st, c.divisors = [] := by
  induction levels generalizing st with
  | nil => exact ⟨⟨_, _, _, rfl, by simp⟩, fun c hc => by cases hc⟩
  | cons level levels ih =>
    obtain ⟨price, list⟩ := level
    unfold fillLevels fillLevelsCalls
    unfold firstMatch at h
    rw [List.takeWhile_cons] at h
    split
    · exact ⟨⟨_, _, _, rfl, by simp⟩, fun c hc => by cases hc⟩
    · rename_i hcmp
      simp only [Bool.not_eq_true, Bool.not_eq_false'] at hcmp
      dsimp only
      split
      · exact ⟨⟨_, _, _, rfl, by simp⟩, fun c hc => by cases hc⟩
      · simp only [hcmp, if_true, flat_cons, List.find?_append, Option.or_eq_none_iff] at h
        have hlist : ∀ n ∈ list, n.order.userId = st.main.order.userId := fun n hn => by
          have := List.find?_eq_none.1 h.1 (price, n) (by simp [hn])
          simpa using this
        obtain ⟨ls, -, heq⟩ := fillList_skips price list [] []
          { st with tick := (st.tick.allowTick info.order.side).2 } hlist
        rw [List.append_nil] at heq
        simp only [heq, fillList, List.nil_append]
        obtain ⟨⟨tick, lookups, exit, hlevels, hexit⟩, hcalls⟩ := ih
          { st with tick := (st.tick.allowTick info.order.side).2, lookups := st.lookups ++ ls } h.2
        refine ⟨⟨tick, lookups, exit, by rw [hlevels], hexit⟩, fun c hc => ?_⟩
        rcases List.mem_append.1 hc with hc | hc
        · have hskip := fillListCalls_skips price [] hlist
          rw [List.append_nil] at hskip
          rw [hskip] at hc
          simp only [fillListCalls, List.append_nil, List.mem_map] at hc
          obtain ⟨n, hn, rfl⟩ := hc
          exact divisors_skip (hlist n hn)
        · exact hcalls c hc

theorem fillOnBook_none {lt : α → α → Prop} (cmp : α → α → Bool)
    (book : SortedMap α (OrderList α) lt) (info : OrderInfo α) (st : FillState α)
    (h : firstMatch cmp book.entries st.main.order.userId info.price = none)
    (hq : st.main.order.remainQty = info.order.originalQty) :
    (fillOnBook cmp book info st).book.entries = book.entries ∧
      (fillOnBook cmp book info st).st.events = st.events ∧
      (fillOnBook cmp book info st).left.1 = info.order.originalQty := by
  obtain ⟨⟨tick, lookups, exit, hlevels, hexit⟩, -⟩ := fillLevels_none cmp info book.entries st h
  simp only [fillOnBook, SortedMap.revalue, hlevels]
  cases exit with
  | filled => exact absurd rfl hexit
  | tickRefused | priceLimit | exhausted => simp [fillEnd, hq]

/-- An order for nothing that meets no order leaves nothing behind and divides by nothing. -/
theorem add_zero {ob ob' : OrderBook α} {i : NewOrderInput α} (h : ob.Sane) (hq : i.orderQty = 0)
    (hm : ob.firstMatch i = none) (hadd : ob.add i.info = .ok ob') :
    ob'.Sane ∧ ∀ c ∈ ob.fillCalls i.info, c.divisors = [] := by
  have hzero : i.info.order.originalQty = 0 := hq
  unfold OrderBook.firstMatch at hm
  unfold OrderBook.fillCalls
  rcases Bool.or_eq_true_iff.1 i.supported with hb | ha
  · rw [if_pos hb] at hm
    have hbid : i.info.order.side.isBid = true := hb
    obtain ⟨hbook, hev, hleft⟩ := fillOnBook_none (fun a b => a ≤ b) ob.askBook i.info
      (ob.fillState ob.askId i.info) hm rfl
    obtain ⟨hask, -, -, hev', -, hrest⟩ := add_bid hb hadd
    rw [hleft, hzero, if_neg (not_not.2 rfl)] at hrest
    rw [if_pos hbid]
    refine ⟨⟨fun x hx => h.resting x ?_, fun e he => h.fills e ?_⟩, (fillLevels_none _ _ _ _ hm).2⟩
    · rw [OrderBook.resting, hask, hbook, (Prod.mk.inj hrest).1] at hx
      exact hx
    · rw [hev', hev] at he
      exact he
  · have hnb : i.side.isBid = false := Side.isBid_of_isAsk ha
    rw [hnb, if_neg (by simp)] at hm
    have hbid : i.info.order.side.isBid = false := hnb
    have hask : i.info.order.side.isAsk = true := ha
    obtain ⟨hbook, hev, hleft⟩ := fillOnBook_none (fun a b => a ≥ b) ob.bidBook i.info
      (ob.fillState ob.bidId i.info) hm rfl
    obtain ⟨hbids, -, -, hev', -, hrest⟩ := add_ask ha hadd
    rw [hleft, hzero, if_neg (not_not.2 rfl)] at hrest
    rw [hbid, if_neg (by simp), if_pos hask]
    refine ⟨⟨fun x hx => h.resting x ?_, fun e he => h.fills e ?_⟩, (fillLevels_none _ _ _ _ hm).2⟩
    · rw [OrderBook.resting, hbids, hbook, (Prod.mk.inj hrest).1] at hx
      exact hx
    · rw [hev', hev] at he
      exact he

/-- The first call that fills is for the first match, with the order as it came. -/
theorem fillLevelsCalls_first (cmp : α → α → Bool) (info : OrderInfo α)
    (levels : List (α × OrderList α)) (st : FillState α)
    (hallow : (st.tick.allowTick info.order.side).1 = true) {x : α × Node α}
    (h : firstMatch cmp levels st.main.order.userId info.price = some x) :
    ∃ c ∈ fillLevelsCalls cmp info levels st, c.main = st.main ∧ c.order = x.2.order ∧
      x.2.order.userId ≠ st.main.order.userId := by
  induction levels generalizing st with
  | nil => simp [firstMatch] at h
  | cons level levels ih =>
    obtain ⟨price, list⟩ := level
    unfold fillLevelsCalls
    unfold firstMatch at h
    rw [List.takeWhile_cons] at h
    cases hcmp : cmp price info.price with
    | false => simp [hcmp] at h
    | true =>
      simp only [hcmp, if_true, flat_cons, List.find?_append, List.find?_map,
        Function.comp_def] at h
      simp only [Bool.not_true, Bool.false_eq_true, if_false, hallow]
      cases hfind : list.find? fun n => n.order.userId ≠ st.main.order.userId with
      | some n =>
        rw [hfind, Option.map_some, Option.some_or, Option.some.injEq] at h
        obtain ⟨hn, skip, rest, rfl, hskip⟩ := List.find?_eq_some_iff_append.1 hfind
        rw [fillListCalls_skips price (n :: rest) (by simpa using hskip), fillListCalls]
        refine ⟨⟨st.main, price, n.order⟩, by simp, rfl, by rw [← h], ?_⟩
        rw [← h]
        simpa using hn
      | none =>
        rw [hfind, Option.map_none, Option.none_or] at h
        obtain ⟨ls, -, heq⟩ := fillList_skips price list [] []
          { st with tick := (st.tick.allowTick info.order.side).2 }
          (by simpa using List.find?_eq_none.1 hfind)
        rw [List.append_nil] at heq
        obtain ⟨c, hc, hmain⟩ := ih
          { st with tick := (st.tick.allowTick info.order.side).2, lookups := st.lookups ++ ls }
          (by rw [← hallow]; simp [Tick.allowTick]) h
        refine ⟨c, List.mem_append_right _ ?_, hmain⟩
        simpa only [heq, fillList] using hc

/-- An order for nothing that meets an order divides by zero. -/
theorem add_zero_divides {ob : OrderBook α} {i : NewOrderInput α} (h : ob.Sane) (hq : i.orderQty = 0)
    (hallow : (ob.tick.allowTick i.side).1 = true) {x : α × Node α}
    (hm : ob.firstMatch i = some x) : ∃ c ∈ ob.fillCalls i.info, (0 : α) ∈ c.divisors := by
  have hcall : ∃ c ∈ ob.fillCalls i.info, c.main = mainEvent i.info.order ∧ c.order = x.2.order ∧
      x.2.order.userId ≠ i.userId ∧ x ∈ ob.resting := by
    unfold OrderBook.firstMatch at hm
    unfold OrderBook.fillCalls
    rcases Bool.or_eq_true_iff.1 i.supported with hb | ha
    · rw [if_pos hb] at hm
      rw [if_pos (show i.info.order.side.isBid = true from hb)]
      obtain ⟨c, hc, hmain, horder, hu⟩ := fillLevelsCalls_first (fun a b => a ≤ b) i.info
        ob.askBook.entries (ob.fillState ob.askId i.info) hallow hm
      exact ⟨c, hc, hmain, horder, hu, List.mem_append_left _ (firstMatch_mem hm)⟩
    · have hnb : i.side.isBid = false := Side.isBid_of_isAsk ha
      rw [hnb, if_neg (by simp)] at hm
      rw [show i.info.order.side.isBid = false from hnb, if_neg (by simp),
        if_pos (show i.info.order.side.isAsk = true from ha)]
      obtain ⟨c, hc, hmain, horder, hu⟩ := fillLevelsCalls_first (fun a b => a ≥ b) i.info
        ob.bidBook.entries (ob.fillState ob.bidId i.info) hallow hm
      exact ⟨c, hc, hmain, horder, hu, List.mem_append_right _ (firstMatch_mem hm)⟩
  obtain ⟨c, hc, hmain, horder, hu, hx⟩ := hcall
  have hpos := (h.resting x hx).1
  refine ⟨c, hc, ?_⟩
  have hother : x.2.order.userId ≠ (mainEvent i.info.order).order.userId := hu
  have hremain : (mainEvent i.info.order).order.remainQty = 0 := hq
  have hcum : (mainEvent i.info.order).order.cumQty = 0 := by
    simp [mainEvent, NewOrderInput.info, newOrderInfo, Order.cumQty]
  rw [FillCall.divisors, hmain, horder, if_neg hother]
  simp [hremain, hcum, min_eq_right hpos.le]

/-! ## Negative orders -/

/-- An order for less than nothing rests, or fills an order with a negative quantity. -/
theorem add_negative {ob ob' : OrderBook α} {info : OrderInfo α} (h : ob.Sane) (hi : info.Fresh)
    (hq : info.order.originalQty < 0) (hadd : ob.add info = .ok ob') : ¬ob'.Sane := by
  obtain ⟨idmap, c, st, reports, left, hsteps, hev, hout, -, hperm⟩ := add_spec hi.side hi.remain hadd
  have hloop : (∀ x ∈ c, x.2.order.SaneQty) ∧ st.main.order.remainQty = info.order.originalQty ∨
      ∃ e ∈ st.events, e.lastQty < 0 := by
    refine hsteps.invariant (I := fun c st =>
      (∀ x ∈ c, x.2.order.SaneQty) ∧ st.main.order.remainQty = info.order.originalQty ∨
        ∃ e ∈ st.events, e.lastQty < 0) (.inl ⟨h.resting, hi.remain⟩) fun c st c' st' hI hs => ?_
    cases hs with
    | tick | note => exact hI
    | @fill l r price n st other active =>
      right
      rcases hI with ⟨hc, hremain⟩ | ⟨e, he, hneg⟩
      · have hn := (hc (price, n) (by simp)).1
        have hmin : min n.order.remainQty st.main.order.remainQty = info.order.originalQty := by
          rw [hremain]
          exact min_eq_right (hq.trans hn).le
        refine ⟨_, List.mem_append_right _ (by simp [fillOrder, other]; rfl), ?_⟩
        simpa [hmin] using hq
      · exact ⟨e, List.mem_append_left _ he, hneg⟩
  intro hsane
  rcases hloop with ⟨-, hremain⟩ | ⟨e, he, hneg⟩
  · have hleft : left.1 = info.order.originalQty := hout.left_eq.trans hremain
    rw [hleft, if_pos hq.ne] at hperm
    have := (hsane.resting _ (hperm.mem_iff.2 List.mem_cons_self)).1
    simp only [OrderBook.restingOrder, hleft] at this
    exact lt_asymm hq this
  · exact lt_asymm hneg (hsane.fills e (by simp [hev, he]))

/-! ## Requests -/

/-- What a request the worker accepts does, by its quantity. -/
theorem sane_accepted [IsStrictOrderedRing α] {ob ob' : OrderBook α} {i : NewOrderInput α}
    (h : ob.Sane) (hallow : (ob.tick.allowTick i.side).1 = true)
    (hadd : ob.add i.info = .ok ob') :
    (ob'.Sane ∧ ∀ c ∈ ob.fillCalls i.info, ∀ d ∈ c.divisors, d ≠ 0) ↔
      0 < i.orderQty ∨ i.orderQty = 0 ∧ ob.firstMatch i = none := by
  have hfresh := Worker.fresh i
  rcases lt_trichotomy i.orderQty 0 with hq | hq | hq
  · refine iff_of_false (fun hs => add_negative h hfresh hq hadd hs.1) ?_
    rintro (hpos | ⟨hz, -⟩)
    · exact lt_asymm hq hpos
    · exact hq.ne hz
  · cases hm : ob.firstMatch i with
    | none =>
      obtain ⟨hsane, hcalls⟩ := add_zero h hq hm hadd
      refine iff_of_true ⟨hsane, fun c hc d hd => ?_⟩ (.inr ⟨hq, rfl⟩)
      rw [hcalls c hc] at hd
      cases hd
    | some x =>
      obtain ⟨c, hc, hd⟩ := add_zero_divides h hq hallow hm
      exact iff_of_false (fun hs => hs.2 c hc 0 hd rfl) (by simp [hq])
  · exact iff_of_true ⟨add_sane h hfresh hq hadd, fun c hc d hd =>
      (fillCalls_pos h hfresh hq hadd c hc d hd).ne'⟩ (.inl hq)

theorem OrderBook.Sane.removes {ob ob' : OrderBook α} {o : Order α} (h : ob.Sane)
    (hr : Removes ob ob' o) : ob'.Sane := by
  obtain ⟨-, -, -, -, -, -, hev⟩ := hr.resting
  exact ⟨fun y hy => h.resting y (hr.subset hy), hev ▸ h.fills⟩

/-- One request keeps the quantities sane exactly when it is positive. -/
theorem sane_step [IsStrictOrderedRing α] {ob ob' : OrderBook α} (hrep : RepInv ob) (h : ob.Sane)
    {op : Worker.Op α} (hs : Worker.step ob op = some ob') :
    (ob'.Sane ∧ Worker.NoZeroDivision ob op) ↔ Worker.Positive ob op := by
  unfold Worker.NoZeroDivision Worker.fillCalls
  cases op with
  | newOrder i =>
    rcases Worker.step_newOrder hs with ⟨hv, rfl⟩ | ⟨hv, hallow, -, hadd⟩
    · refine iff_of_true ⟨⟨h.resting, h.fills⟩, fun c hc => ?_⟩ fun hacc => absurd hacc hv
      dsimp only at hc
      split at hc
      · rename_i hacc
        exact absurd (congrArg Prod.fst hacc) hv
      · cases hc
    · have hpair : NewOrder.verdict ob i.info = (.accepted, (ob.allowTick i.side).2) :=
        Prod.ext hv rfl
      have hallow' : ((ob.allowTick i.side).2.tick.allowTick i.side).1 = true := by
        simpa [OrderBook.allowTick, Tick.allowTick] using hallow
      simp only [hpair, Worker.Positive, forall_const]
      have hsane : (ob.allowTick i.side).2.Sane := ⟨h.resting, h.fills⟩
      exact sane_accepted hsane hallow' hadd
  | cancel i =>
    refine iff_of_true ⟨?_, fun c hc => by cases hc⟩ trivial
    rcases Worker.step_cancel hs with ⟨-, rfl⟩ | ⟨o, hv, hok⟩
    · exact h
    · obtain ⟨ob1, hok1, -, -, -, -, hrem⟩ := hrep.cancel_verified hv
      rw [hok] at hok1
      cases hok1
      exact h.removes hrem

/-- **Sane quantities.** In a run whose accepted orders are all for something, or for nothing and meet
no order, every resting order has something left and no more than it came with, and every fill is
positive. A further request keeps this, and divides no average price by zero, iff it is of that
kind. -/
theorem quantities_sane [IsStrictOrderedRing α] {name : String} {ob : OrderBook α}
    (h : Trans.Run Worker.step Worker.Positive (OrderBook.new name) ob) :
    ob.Sane ∧ ∀ op ob', Worker.step ob op = some ob' →
      ((ob'.Sane ∧ Worker.NoZeroDivision ob op) ↔ Worker.Positive ob op) := by
  have hsane : ob.Sane := h.invariant_with (J := RepInv)
    ⟨fun x hx => (by cases hx), fun e he => by cases he⟩
    (fun _ hs => repInv_of_reachable hs.reach)
    fun s op s' hI hrep hC hs => ((sane_step hrep hI hs).2 hC).1
  exact ⟨hsane, fun op ob' hs => sane_step (repInv_of_reachable h.reach) hsane hs⟩

/-- Next to a sell of ten at five: a buy for nothing divides by zero, twice, and a sell for less than
nothing rests. -/
theorem quantities_not_sane : ∃ ob ob1 ob2 : OrderBook ℚ, Worker.Reachable "AAPL" ob ∧
    (∃ op, Worker.step ob op = some ob1 ∧ ¬Worker.NoZeroDivision ob op ∧
      ∃ e ∈ ob1.eventOutput, e.lastQty = 0) ∧
    ∃ op, Worker.step ob op = some ob2 ∧ ∃ x ∈ ob2.resting, x.2.order.remainQty = -1 := by
  let zero : Worker.Op ℚ := .newOrder ⟨"B", "e2", "b1", 5, 0, .buy, rfl⟩
  let negative : Worker.Op ℚ := .newOrder ⟨"B", "e2", "s2", 6, -1, .sell, rfl⟩
  obtain ⟨ob, h⟩ : ∃ ob, Worker.step (OrderBook.new "AAPL") restingSell = some ob :=
    Option.isSome_iff_exists.1 (by decide +kernel)
  have hzero : ((Worker.step (OrderBook.new "AAPL") restingSell).bind fun ob =>
      (Worker.step ob zero).map fun ob1 => ((Worker.fillCalls ob zero).flatMap FillCall.divisors,
        ob1.eventOutput.map Event.lastQty)) = some ([0, 0], [0, 0]) := by
    decide +kernel
  have hneg : ((Worker.step (OrderBook.new "AAPL") restingSell).bind fun ob =>
      (Worker.step ob negative).map fun ob2 => ob2.resting.map fun x => x.2.order.remainQty) =
      some [10, -1] := by
    decide +kernel
  simp only [h, Option.bind_some, Option.map_eq_some_iff, Prod.mk.injEq] at hzero hneg
  obtain ⟨ob1, h1, hdiv, hev⟩ := hzero
  obtain ⟨ob2, h2, hrest⟩ := hneg
  refine ⟨ob, ob1, ob2, .next .start trivial h, ⟨zero, h1, fun hno => ?_, ?_⟩, negative, h2, ?_⟩
  · obtain ⟨c, hc, hd⟩ := List.mem_flatMap.1 (show (0 : ℚ) ∈ _ by rw [hdiv]; simp)
    exact hno c hc 0 hd rfl
  · obtain ⟨e, he, hz⟩ := List.mem_map.1 (show (0 : ℚ) ∈ _ by rw [hev]; simp)
    exact ⟨e, he, hz⟩
  · obtain ⟨x, hx, hr⟩ := List.mem_map.1 (show (-1 : ℚ) ∈ _ by rw [hrest]; simp)
    exact ⟨x, hx, hr⟩

/-- A buy of four takes its part of the resting sell. -/
theorem quantities_sane_run : ∃ ob : OrderBook ℚ,
    Trans.exec Worker.step Worker.Positive (OrderBook.new "AAPL")
      [restingSell, .newOrder ⟨"B", "e2", "b1", 5, 4, .buy, rfl⟩] = some ob ∧
    ob.eventOutput.length = 2 ∧ ob.Sane := by
  have h : (Trans.exec Worker.step Worker.Positive (OrderBook.new "AAPL" : OrderBook ℚ)
      [restingSell, .newOrder ⟨"B", "e2", "b1", 5, 4, .buy, rfl⟩]).map
        (fun ob => ob.eventOutput.length) = some 2 := by decide +kernel
  obtain ⟨ob, hob, hlen⟩ := Option.map_eq_some_iff.1 h
  exact ⟨ob, hob, hlen, (quantities_sane (Trans.Run.of_exec .start hob)).1⟩

end Fix42
