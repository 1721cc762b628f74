import Fix42.Book.Proof.Rep
import Fix42.Book.Reference

/-!
# The book refines the reference matcher

`fillList_view` and `fillLevels_view`: the two loops of `fillOnBook` are `Reference.matchLevel` and
`Reference.matchLevels` under `OrderBook.view`, which forgets addresses, average prices and emptied
levels. Emptied levels cost nothing because the tick record is settled (`settled_of_reachable`)
and levels are sorted. `add_refines` is the result for `OrderBook.add`.
-/

namespace Fix42

open SortedMap Reference

variable {α : Type*}

/-! ## Ticks -/

theorem Tick.view_trade [LinearOrder α] (t : Tick α) (price : α) :
    (t.trade price).view = t.view.trade price := by
  rcases lt_trichotomy price t.lastprice with h | h | h
  · simp [view, trade, computeTick, TickRule.trade, h, not_lt.2 h.le]
  · subst h
    by_cases ht : t.tick = .plusTick ∨ t.tick = .zeroPlusTick
    · rcases ht with ht | ht <;> simp [view, trade, computeTick, TickRule.trade, ht]
    · obtain ⟨h1, h2⟩ := not_or.1 ht
      simp [view, trade, computeTick, TickRule.trade, h1, h2]
  · simp [view, trade, computeTick, TickRule.trade, h]

theorem Tick.view_allows (t : Tick α) (side : Side) : t.view.allows side = t.allows side := by
  unfold view allows TickRule.allows
  cases side <;> cases t.tick <;> rfl

/-! ## Views -/

theorem listView_append (l l' : OrderList α) : listView (l ++ l') = listView l ++ listView l' :=
  List.map_append

theorem fillsOf_append (user : UserId) (es es' : List (Event α)) :
    fillsOf user (es ++ es') = fillsOf user es ++ fillsOf user es' := by
  simp [fillsOf]

/-- A report about the user's own order is no fill of a resting order. -/
theorem fillsOf_own {user : UserId} {main : Event α} (status : ExecutionStatus)
    (h : main.order.userId = user) : fillsOf user [{ main with execStatus := status }] = [] := by
  simp [fillsOf, h]

theorem levelsView_keys {levels : List (α × OrderList α)} {l : Level α} :
    l ∈ levelsView levels → l.1 ∈ levels.map Prod.fst := by
  induction levels with
  | nil => simp [levelsView]
  | cons level levels ih =>
    unfold levelsView consLevel
    split
    · exact fun h => List.mem_cons_of_mem _ (ih h)
    · intro h
      rcases List.mem_cons.1 h with rfl | h
      · exact List.mem_cons_self
      · exact List.mem_cons_of_mem _ (ih h)

/-! ## One fill -/

variable [Field α] [LinearOrder α]

/-- What one fill of another user's order does, as the reference sees it. -/
theorem fill_view {st : FillState α} (price : α) {n : Node α}
    (hu : n.order.userId ≠ st.main.order.userId) :
    let fill := min n.order.remainQty st.main.order.remainQty
    (st.fill price n).main.order.remainQty = st.main.order.remainQty - fill ∧
    (st.fill price n).tick.view = st.tick.view.trade price ∧
    (∃ new, (st.fill price n).events = st.events ++ new ∧
      fillsOf st.main.order.userId new = [⟨n.order.orderId, fill, price⟩]) ∧
    listView (st.kept price n) = if n.order.remainQty - fill = 0 then [] else
      [{ n.order.view with remaining := n.order.remainQty - fill }] := by
  refine ⟨by simp [FillState.fill, fillOrder, hu], Tick.view_trade _ _, ?_, ?_⟩
  · exact ⟨_, rfl, by simp [fillOrder, hu, fillsOf]⟩
  · simp only [FillState.kept, fillOrder_status price hu]
    split
    · simp [listView]
    · simp [listView, fillOrder, hu, Order.view]

theorem matchLevel_done (user : UserId) (price : α) (os : List (Resting α)) (t : TickRule α) :
    matchLevel user price os t 0 = ⟨os, [], t, 0⟩ := by
  cases os <;> simp [matchLevel]

/-! ## One level -/

/-- The loop over a level and the reference agree: what is left of the level, the fills, the tick
and the quantity left; the loop ends early iff nothing is left. -/
structure LevelView (st : FillState α) (kept : OrderList α) (r : OrderList α × FillState α × Bool)
    (m : Result α (List (Resting α))) : Prop where
  levels : listView r.1 = listView kept ++ m.levels
  fills : ∃ new, r.2.1.events = st.events ++ new ∧ fillsOf st.main.order.userId new = m.fills
  tick : r.2.1.tick.view = m.tick
  settled : st.tick.Settled → r.2.1.tick.Settled
  left : r.2.1.main.order.remainQty = m.left
  done : r.2.2 = true ↔ m.left = 0
  user : r.2.1.main.order.userId = st.main.order.userId

theorem fillList_view (price : α) : ∀ (rest kept : OrderList α) (st : FillState α),
    st.main.order.remainQty ≠ 0 →
    LevelView st kept (fillList price kept rest st)
      (matchLevel st.main.order.userId price (listView rest) st.tick.view st.main.order.remainQty)
  | [], kept, st, hq =>
    ⟨by simp [fillList, listView, matchLevel], ⟨[], by simp [fillList], rfl⟩, rfl, id, rfl,
      by simp [fillList, listView, matchLevel, hq], rfl⟩
  | n :: rest, kept, st, hq => by
    have hcons : listView (n :: rest) = n.order.view :: listView rest := rfl
    by_cases hu : n.order.userId = st.main.order.userId
    · have ih := fillList_view price rest (kept ++ [n])
        (st.note .fillOrder (deref (kept ++ n :: rest) n.addr).isSome) hq
      have hview : n.order.view.userId = st.main.order.userId := hu
      rw [fillList_skip hu, hcons, matchLevel, if_neg hq, if_pos hview]
      refine ⟨?_, ih.fills, ih.tick, ih.settled, ih.left, ih.done, ih.user⟩
      rw [ih.levels, listView_append, List.append_assoc]
      rfl
    · obtain ⟨hleft, htick, ⟨new, hnew, hfill⟩, hkept⟩ := fill_view price hu
      have hview : ¬ n.order.view.userId = st.main.order.userId := hu
      have huser : (st.fill price n).main.order.userId = st.main.order.userId :=
        fillOrder_userId _ _ _
      have hremaining : n.order.view.remaining = n.order.remainQty := rfl
      rw [fillList_fill hu, hcons, matchLevel, if_neg hq, if_neg hview]
      simp only [hleft, hremaining]
      split
      · rename_i hz
        rw [hz, matchLevel_done]
        refine ⟨?_, ⟨new ++ [{ (st.fill price n).main with execStatus := .filled }], ?_, ?_⟩, htick,
          fun _ => Tick.settled_trade _ _, hleft.trans hz, by simp, huser⟩
        · rw [listView_append, listView_append, hkept]
          split <;> rfl
        · exact (congrArg (· ++ _) hnew).trans (List.append_assoc _ _ _)
        · rw [fillsOf_append, hfill, fillsOf_own .filled huser]
          rfl
      · rename_i hz
        have ih := fillList_view price rest (kept ++ st.kept price n)
          { st.fill price n with lookups := st.lookups ++ st.seen price kept n rest }
          (by simpa only [hleft] using hz)
        simp only [hleft, htick, huser] at ih
        obtain ⟨new', hnew', hfill'⟩ := ih.fills
        refine ⟨?_, ⟨new ++ new', ?_, ?_⟩, ih.tick, fun _ => ih.settled (Tick.settled_trade _ _),
          ih.left, ih.done, ih.user.trans huser⟩
        · rw [ih.levels, listView_append, hkept, List.append_assoc]
          split <;> rfl
        · rw [hnew']
          exact (congrArg (· ++ _) hnew).trans (List.append_assoc _ _ _)
        · rw [fillsOf_append, hfill]
          simp only [huser] at hfill'
          rw [hfill']
          rfl

/-! ## All levels -/

theorem matchLevels_done (within : α → Bool) (user : UserId) (side : Side) (ls : List (Level α))
    (t : TickRule α) : matchLevels within user side ls t 0 = ⟨ls, [], t, 0⟩ := by
  cases ls <;> simp [matchLevels]

/-- No level is visited when the first price is beyond the limit or the tick rule refuses. -/
theorem matchLevels_stop {within : α → Bool} {user : UserId} {side : Side} {ls : List (Level α)}
    {t : TickRule α} {q : α} (h : (∀ l ∈ ls, within l.1 = false) ∨ t.allows side = false) :
    matchLevels within user side ls t q = ⟨ls, [], t, q⟩ := by
  cases ls with
  | nil => rfl
  | cons l ls =>
    obtain ⟨price, os⟩ := l
    rw [matchLevels, if_pos]
    exact .inr (h.imp_left fun hw => hw (price, os) (by simp))

/-- Visiting a level, empty or not. -/
theorem matchLevels_consLevel {within : α → Bool} {user : UserId} {side : Side} {price : α}
    {os : List (Resting α)} {ls : List (Level α)} {t : TickRule α} {q : α} (hq : q ≠ 0)
    (hw : within price = true) (ht : t.allows side = true) :
    matchLevels within user side (consLevel price os ls) t q =
      let r := matchLevel user price os t q
      let r' := matchLevels within user side ls r.tick r.left
      { r' with levels := consLevel price r.levels r'.levels, fills := r.fills ++ r'.fills } := by
  unfold consLevel
  split
  · rename_i hos
    subst hos
    simp [matchLevel]
  · simp [matchLevels, hq, hw, ht]
    rfl

/-- The loop over the levels and the reference agree. -/
structure LevelsView (st : FillState α) (r : List (α × OrderList α) × FillState α × Exit)
    (m : Result α (List (Level α))) : Prop where
  levels : levelsView r.1 = m.levels
  fills : ∃ new, r.2.1.events = st.events ++ new ∧ fillsOf st.main.order.userId new = m.fills
  tick : r.2.1.tick.view = m.tick
  settled : r.2.1.tick.Settled
  left : r.2.1.main.order.remainQty = m.left
  filled : r.2.2 = .filled → m.left = 0
  user : r.2.1.main.order.userId = st.main.order.userId

theorem fillLevels_view {lt : α → α → Prop} (cmp : α → α → Bool) (info : OrderInfo α)
    (hmono : ∀ a b, lt a b → cmp b info.price = true → cmp a info.price = true)
    (levels : List (α × OrderList α)) (st : FillState α) :
      (levels.map Prod.fst).Pairwise lt → st.tick.Settled → st.main.order.remainQty ≠ 0 →
      LevelsView st (fillLevels cmp info levels st)
        (matchLevels (fun price => cmp price info.price) st.main.order.userId info.order.side
          (levelsView levels) st.tick.view st.main.order.remainQty) := by
  induction levels generalizing st with
  | nil =>
    intro _ hset _
    exact ⟨rfl, ⟨[], by simp [fillLevels], rfl⟩, rfl, hset, rfl, (fun h => by cases h), rfl⟩
  | cons level levels ih =>
    obtain ⟨price, list⟩ := level
    intro hsorted hset hq
    have hstop : (∀ l ∈ levelsView ((price, list) :: levels), cmp l.1 info.price = false) ∨
        st.tick.view.allows info.order.side = false →
        LevelsView st ((price, list) :: levels, st, Exit.priceLimit)
          (matchLevels (fun price => cmp price info.price) st.main.order.userId info.order.side
            (levelsView ((price, list) :: levels)) st.tick.view st.main.order.remainQty) :=
      fun h => by
        rw [matchLevels_stop h]
        exact ⟨rfl, ⟨[], (List.append_nil _).symm, rfl⟩, rfl, hset, rfl, (fun h => by cases h), rfl⟩
    rw [List.map_cons, List.pairwise_cons] at hsorted
    have htick : st.tick.allowTick info.order.side = (st.tick.allows info.order.side, st.tick) := by
      rw [Tick.allowTick, show st.tick.computeTick = st.tick from hset]
    unfold fillLevels
    split
    · rename_i hcmp
      have hcmp' : cmp price info.price = false := by simpa using hcmp
      refine hstop (.inl fun l hl => ?_)
      rcases List.mem_cons.1 (levelsView_keys hl) with he | hm
      · exact he ▸ hcmp'
      · exact Bool.eq_false_iff.2 fun ht => by simp [hmono _ _ (hsorted.1 _ hm) ht] at hcmp'
    · rename_i hcmp
      simp only [htick]
      split
      · rename_i hallow
        have hallow' : st.tick.view.allows info.order.side = false := by
          simpa [Tick.view_allows] using hallow
        obtain ⟨h1, h2, h3, h4, h5, -, h6⟩ := hstop (.inr hallow')
        exact ⟨h1, h2, h3, h4, h5, (fun h => by cases h), h6⟩
      · rename_i hallow
        have hlevel := fillList_view price list [] st hq
        rw [levelsView, matchLevels_consLevel hq (by simpa using hcmp)
          (by simpa [Tick.view_allows] using hallow)]
        dsimp only
        generalize matchLevel st.main.order.userId price (listView list) st.tick.view
          st.main.order.remainQty = m at hlevel ⊢
        split
        · rename_i list' st' heq
          rw [heq] at hlevel
          have hz : m.left = 0 := hlevel.done.1 rfl
          obtain ⟨new, hnew, hfills⟩ := hlevel.fills
          rw [hz, matchLevels_done]
          refine ⟨?_, ⟨new, hnew, ?_⟩, hlevel.tick, hlevel.settled hset, hlevel.left.trans hz,
            fun _ => rfl, hlevel.user⟩
          · rw [levelsView, hlevel.levels]
            rfl
          · rw [hfills, List.append_nil]
        · rename_i list' st' heq
          rw [heq] at hlevel
          have hz : m.left ≠ 0 := fun h => by simpa using hlevel.done.2 h
          obtain ⟨new, hnew, hfills⟩ := hlevel.fills
          have hleft : st'.main.order.remainQty = m.left := hlevel.left
          have huser : st'.main.order.userId = st.main.order.userId := hlevel.user
          have ih := ih st' hsorted.2 (hlevel.settled hset) (hleft ▸ hz)
          rw [hleft, huser, show st'.tick.view = m.tick from hlevel.tick] at ih
          obtain ⟨new', hnew', hfills'⟩ := ih.fills
          refine ⟨?_, ⟨new ++ new', ?_, ?_⟩, ih.tick, ih.settled, ih.left, ih.filled,
            ih.user.trans huser⟩
          · rw [levelsView, hlevel.levels, ih.levels]
            rfl
          · rw [hnew', show st'.events = st.events ++ new from hnew, List.append_assoc]
          · rw [huser] at hfills'
            rw [fillsOf_append, hfills, hfills']

/-! ## Resting -/

omit [Field α] [LinearOrder α] in
theorem upsertList_view {lt : α → α → Prop} [DecidableRel lt] [IsTrans α lt]
    (htri : ∀ a b : α, ¬ lt a b → ¬ lt b a → a = b) (price : α) (n : Node α) :
    ∀ {levels : List (α × OrderList α)}, (levels.map Prod.fst).Pairwise lt →
      levelsView (upsertList lt price [] (· ++ [n]) levels) =
        upsertList lt price [] (· ++ [n.order.view]) (levelsView levels)
  | [], _ => rfl
  | (price', list) :: levels, h => by
    rw [List.map_cons, List.pairwise_cons] at h
    have hkeys : ∀ {p : α}, (∀ x ∈ levels.map Prod.fst, lt p x) →
        ∀ x ∈ (levelsView levels).map Prod.fst, lt p x := fun hp x hx => by
      obtain ⟨l, hl, rfl⟩ := List.mem_map.1 hx
      exact hp _ (levelsView_keys hl)
    rw [upsertList]
    split
    · rename_i hlt
      rw [upsertList_head]
      · rfl
      · intro x hx
        obtain ⟨l, hl, rfl⟩ := List.mem_map.1 hx
        rcases List.mem_cons.1 (levelsView_keys hl) with he | hm
        · exact he ▸ hlt
        · exact IsTrans.trans _ _ _ hlt (h.1 _ hm)
    · rename_i hnlt
      split
      · rename_i hlt
        rw [levelsView, levelsView, upsertList_view htri price n h.2]
        by_cases hnil : listView list = []
        · simp only [consLevel, hnil, if_true]
        · simp only [consLevel, hnil, if_false]
          rw [upsertList, if_neg hnlt, if_pos hlt]
      · rename_i hngt
        have he := htri _ _ hnlt hngt
        subst he
        have hne : listView list ++ [n.order.view] ≠ [] := by simp
        rw [levelsView, levelsView, listView_append, consLevel,
          show listView [n] = [n.order.view] from rfl, if_neg hne]
        by_cases hnil : listView list = []
        · simp only [consLevel, hnil, if_true]
          exact (upsertList_head (f := (· ++ [n.order.view])) (hkeys h.1)).symm
        · simp only [consLevel, hnil, if_false]
          rw [upsertList, if_neg hnlt, if_neg hngt]

/-! ## `add` -/

theorem fillOnBook_view {lt : α → α → Prop} (cmp : α → α → Bool)
    (book : SortedMap α (OrderList α) lt) (info : OrderInfo α) (st : FillState α)
    (hmono : ∀ a b, lt a b → cmp b info.price = true → cmp a info.price = true)
    (hset : st.tick.Settled) (hq : st.main.order.remainQty ≠ 0)
    (hinfo : st.main.order.userId = info.order.userId) :
    let r := fillOnBook cmp book info st
    let m := matchLevels (fun price => cmp price info.price) info.order.userId info.order.side
      (levelsView book.entries) st.tick.view st.main.order.remainQty
    levelsView r.book.entries = m.levels ∧ r.st.tick.view = m.tick ∧ r.left.1 = m.left ∧
      ∃ new, r.st.events = st.events ++ new ∧ fillsOf info.order.userId new = m.fills := by
  have h := fillLevels_view cmp info hmono book.entries st book.sorted hset hq
  rw [hinfo] at h
  dsimp only
  generalize matchLevels (fun price => cmp price info.price) info.order.userId info.order.side
    (levelsView book.entries) st.tick.view st.main.order.remainQty = m at h ⊢
  obtain ⟨new, hnew, hfills⟩ := h.fills
  rw [hinfo] at hfills
  refine ⟨h.levels, ?_⟩
  simp only [fillOnBook]
  cases hexit : (fillLevels cmp info book.entries st).2.2 with
  | filled => exact ⟨h.tick, (h.filled hexit).symm, new, hnew, hfills⟩
  | tickRefused => exact ⟨h.tick, h.left, new, hnew, hfills⟩
  | priceLimit | exhausted =>
    simp only [fillEnd]
    split
    · refine ⟨h.tick, h.left, new ++ [{ (fillLevels cmp info book.entries st).2.1.main with
        execStatus := .partiallyFilled }], ?_, ?_⟩
      · exact (congrArg (· ++ _) hnew).trans (List.append_assoc _ _ _)
      · rw [fillsOf_append, hfills, fillsOf_own .partiallyFilled (h.user.trans hinfo),
          List.append_nil]
    · exact ⟨h.tick, h.left, new, hnew, hfills⟩

/-- Resting what is left, on either side. -/
theorem rest_view (lt : α → α → Prop) [DecidableRel lt] [IsTrans α lt]
    (htri : ∀ a b : α, ¬ lt a b → ¬ lt b a → a = b) (book : SortedMap α (OrderList α) lt)
    (idmap : OrderIdMap α) (i : NewOrderInput α) (next : Nat) (left : α × α) :
    Reference.rest lt i.incoming left.1 (levelsView book.entries) =
      levelsView (if left.1 ≠ 0 then
        addToBook book idmap i.info.price ⟨next, OrderBook.restingOrder i.info left⟩
      else (book, idmap)).1.entries := by
  unfold Reference.rest
  split
  · rename_i hz
    simp [hz]
  · rename_i hz
    exact (upsertList_view htri i.price ⟨next, OrderBook.restingOrder i.info left⟩ book.sorted).symm

theorem OrderBook.add_defined (ob : OrderBook α) (info : OrderInfo α)
    (h : info.order.side.supported = true) : ∃ ob', ob.add info = .ok ob' := by
  simp only [Side.supported, Bool.or_eq_true] at h
  simp only [OrderBook.add]
  split
  · split <;> exact ⟨_, rfl⟩
  · split
    · split <;> exact ⟨_, rfl⟩
    · simp_all

/-- **Price-time matching.** In every state the workers reach, adding an order of positive quantity
produces the fills, leaves the two book sides and the tick, and leaves the quantity unmatched that
the reference matcher says. -/
theorem add_refines {name : String} {ob : OrderBook α} (h : Worker.Reachable name ob)
    (i : NewOrderInput α) (hq : 0 < i.orderQty) :
    ∃ ob' new, ob.add i.info = .ok ob' ∧ ob'.eventOutput = ob.eventOutput ++ new ∧
      Reference.add ob.view i.incoming =
        (ob'.view, fillsOf i.userId new, ob.unmatched i.info) := by
  have hset := settled_of_reachable h
  obtain ⟨ob', hadd⟩ := ob.add_defined i.info i.supported
  rcases Bool.or_eq_true_iff.1 i.supported with hb | ha
  · obtain ⟨hlevels, htick, hleft, new, hnew, hfills⟩ := fillOnBook_view (fun a b => a ≤ b)
      ob.askBook i.info (ob.fillState ob.askId i.info)
      (fun a b hlt hle => decide_eq_true (hlt.le.trans (of_decide_eq_true hle))) hset hq.ne' rfl
    obtain ⟨hask, -, htick', hev, -, hbid⟩ := add_bid hb hadd
    refine ⟨ob', new, hadd, hev.trans hnew, ?_⟩
    have hview := rest_view (· > ·) (fun a b h1 h2 => eq_of_not_lt_of_not_gt a b h2 h1)
      ob.bidBook ob.bidId i ob.nextNode (fillOnBook (fun a b => a ≤ b) ob.askBook i.info
        (ob.fillState ob.askId i.info)).left
    rw [← congrArg Prod.fst hbid, hleft] at hview
    rw [Reference.add, if_pos (show i.incoming.side.isBid = true from hb), OrderBook.unmatched,
      if_pos (show i.info.order.side.isBid = true from hb), OrderBook.view, OrderBook.view, hask,
      htick', hlevels, htick, ← hview, hleft]
    rw [show i.info.order.userId = i.userId from rfl] at hfills
    rw [hfills]
    rfl
  · have hb : i.side.isBid = false := Side.isBid_of_isAsk ha
    obtain ⟨hlevels, htick, hleft, new, hnew, hfills⟩ := fillOnBook_view (fun a b => a ≥ b)
      ob.bidBook i.info (ob.fillState ob.bidId i.info)
      (fun a b hgt hge => decide_eq_true (le_trans (of_decide_eq_true hge) (le_of_lt hgt))) hset
      hq.ne' rfl
    obtain ⟨hbid, -, htick', hev, -, hask⟩ := add_ask ha hadd
    refine ⟨ob', new, hadd, hev.trans hnew, ?_⟩
    have hview := rest_view (· < ·) eq_of_not_lt_of_not_gt ob.askBook ob.askId i ob.nextNode
      (fillOnBook (fun a b => a ≥ b) ob.bidBook i.info (ob.fillState ob.bidId i.info)).left
    rw [← congrArg Prod.fst hask, hleft] at hview
    rw [Reference.add, if_neg (by simp [NewOrderInput.incoming, hb]), OrderBook.unmatched,
      if_neg (by simp [NewOrderInput.info, newOrderInfo, hb]), OrderBook.view, OrderBook.view, hbid,
      htick', hlevels, htick, ← hview, hleft]
    rw [show i.info.order.userId = i.userId from rfl] at hfills
    rw [hfills]
    rfl

/-- Two sells of 10, at 5 and at 6, met by a buy of 12 at 6. -/
theorem add_refines_run :
    let ops : List (Worker.Op ℚ) :=
      [.newOrder ⟨"A", "e1", "s1", 5, 10, .sell, rfl⟩, .newOrder ⟨"A", "e2", "s2", 6, 10, .sell, rfl⟩]
    let i : NewOrderInput ℚ := ⟨"B", "e3", "b1", 6, 12, .buy, rfl⟩
    ∃ ob ob' new, Trans.exec Worker.step (fun _ _ => True) (OrderBook.new "AAPL") ops = some ob ∧
      ob.add i.info = .ok ob' ∧ ob'.eventOutput = ob.eventOutput ++ new ∧
      fillsOf i.userId new = [⟨"s1", 10, 5⟩, ⟨"s2", 2, 6⟩] ∧
      ob'.view = ⟨[], [(6, [⟨"A", "s2", 10, 8, .sell⟩])], ⟨6, true⟩⟩ := by
  intro ops i
  obtain ⟨ob, h⟩ : ∃ ob, Trans.exec Worker.step (fun _ _ => True) (OrderBook.new "AAPL") ops =
    some ob := Option.isSome_iff_exists.1 (by decide +kernel)
  have href : (Trans.exec Worker.step (fun _ _ => True) (OrderBook.new "AAPL") ops).map
      (fun ob => Reference.add ob.view i.incoming) =
      some (⟨[], [(6, [⟨"A", "s2", 10, 8, .sell⟩])], ⟨6, true⟩⟩, [⟨"s1", 10, 5⟩, ⟨"s2", 2, 6⟩], 0) := by
    decide +kernel
  obtain ⟨ob', new, hadd, hev, hrefines⟩ := add_refines (Trans.Run.of_exec .start h) i
    (by decide +kernel)
  rw [h, Option.map_some, hrefines, Option.some.injEq, Prod.mk.injEq, Prod.mk.injEq] at href
  exact ⟨ob, ob', new, h, hadd, hev, href.2.1, href.1⟩

end Fix42
