import Fix42.Book.Ledger
import Fix42.Book.Proof.Fill

/-!
# The exit on a refused tick

`add_tickRefused`: the price loop leaves a partly filled order through the refused tick exactly when
`OrderBook.tickStops` says so. Only the first level that trades can turn the tick against the side:
further levels are at prices the side moves towards (`fillLevels_not_refused`).
-/

namespace Fix42

variable {α : Type*} [Field α] [LinearOrder α]

/-! ## One level -/

/-- Whether the tick rule allows `side` after trades at `price` (`lt` is the order of the levels the
side trades with). -/
def allowsAfter (lt : α → α → Prop) [DecidableRel lt] (side : Side) (t : Tick α) (price : α) : Bool :=
  if lt price t.lastprice then false else if lt t.lastprice price then true else t.allows side

/-- What a loop over one level does to the quantity and the tick when it does not end early. -/
structure Traded (lt : α → α → Prop) [DecidableRel lt] (side : Side) (price : α) (qs : List α)
    (st st' : FillState α) : Prop where
  remain : st'.main.order.remainQty = st.main.order.remainQty - qs.sum
  user : st'.main.order.userId = st.main.order.userId
  settled : st.tick.Settled → st'.tick.Settled
  same : qs = [] → st'.tick = st.tick
  moved : qs ≠ [] → st'.tick.lastprice = price ∧
    st'.tick.allows side = allowsAfter lt side st.tick price

omit [Field α] [LinearOrder α] in
theorem tradable_same {user : UserId} {n : Node α} {rest : OrderList α}
    (h : n.order.userId = user) : tradable user (n :: rest) = tradable user rest := by
  simp [tradable, h]

omit [Field α] [LinearOrder α] in
theorem tradable_other {user : UserId} {n : Node α} {rest : OrderList α}
    (h : n.order.userId ≠ user) :
    tradable user (n :: rest) = n.order.remainQty :: tradable user rest := by
  simp [tradable, h]

/-- A resting quantity `r` leaves something of `q` iff it is smaller. -/
theorem sub_min_eq_zero {q r : α} : q - min r q = 0 ↔ ¬ r < q := by
  rw [sub_eq_zero, eq_comm, min_eq_right_iff, not_lt]

section
variable {lt : α → α → Prop} [DecidableRel lt] [Std.Irrefl lt] {side : Side}
  (htrade : ∀ (t : Tick α) (price : α), (t.trade price).allows side = allowsAfter lt side t price)
include htrade

theorem fillList_traded (price : α) (rest kept : OrderList α) (st : FillState α) :
    (fillList price kept rest st).2.2 =
      !outlasts (tradable st.main.order.userId rest) st.main.order.remainQty ∧
    ((fillList price kept rest st).2.2 = false →
      Traded lt side price (tradable st.main.order.userId rest) st
        (fillList price kept rest st).2.1) := by
  induction rest generalizing kept st with
  | nil =>
    refine ⟨rfl, fun _ => ⟨?_, rfl, id, fun _ => rfl, fun h => absurd rfl h⟩⟩
    simp [fillList, tradable]
  | cons n rest ih =>
    by_cases hu : n.order.userId = st.main.order.userId
    · rw [fillList_skip hu, tradable_same hu]
      obtain ⟨hdone, htraded⟩ := ih (kept ++ [n])
        (st.note .fillOrder (deref (kept ++ n :: rest) n.addr).isSome)
      exact ⟨hdone, fun h => ⟨(htraded h).remain, (htraded h).user, (htraded h).settled,
        (htraded h).same, (htraded h).moved⟩⟩
    · have hremain : (st.fill price n).main.order.remainQty =
          st.main.order.remainQty - min n.order.remainQty st.main.order.remainQty := by
        simp [FillState.fill, fillOrder, hu]
      have huser : (st.fill price n).main.order.userId = st.main.order.userId :=
        fillOrder_userId _ _ _
      rw [fillList_fill hu, tradable_other hu]
      simp only [hremain, sub_min_eq_zero]
      split
      · rename_i hnlt
        exact ⟨by simp [outlasts, hnlt], fun h => by cases h⟩
      · rename_i hlt
        have hlt' : n.order.remainQty < st.main.order.remainQty := not_not.1 hlt
        rw [min_eq_left hlt'.le] at hremain
        obtain ⟨hdone, htraded⟩ := ih (kept ++ st.kept price n)
          { st.fill price n with lookups := st.lookups ++ st.seen price kept n rest }
        simp only [hremain, huser] at hdone htraded
        refine ⟨by rw [hdone]; simp [outlasts, hlt'], fun h => ?_⟩
        obtain ⟨h1, h2, h3, h4, h5⟩ := htraded h
        refine ⟨?_, h2.trans huser, fun _ => h3 (Tick.settled_trade _ _), (fun h => by cases h),
          fun _ => ?_⟩
        · rw [h1, List.sum_cons, hremain, sub_sub]
        · by_cases hrest : tradable st.main.order.userId rest = []
          · rw [h4 hrest]
            exact ⟨Tick.trade_lastprice _ _, htrade _ _⟩
          · obtain ⟨hlast, hallows⟩ := h5 hrest
            refine ⟨hlast, hallows.trans ?_⟩
            -- a second trade at one price leaves the direction of the tick
            have hself : ¬ lt price price := Std.Irrefl.irrefl price
            have hlast' : (st.fill price n).tick.lastprice = price := Tick.trade_lastprice _ _
            rw [allowsAfter]
            simp only [hlast', hself, if_false]
            exact htrade _ _

/-! ## The levels after a trade -/

/-- From a tick that allows the side, levels at prices the side moves towards are never refused. -/
theorem fillLevels_not_refused [Std.Asymm lt] (cmp : α → α → Bool) (info : OrderInfo α)
    (hside : info.order.side = side) : ∀ (levels : List (α × OrderList α)) (st : FillState α),
      (levels.map Prod.fst).Pairwise lt → st.tick.Settled → st.tick.allows side = true →
      (∀ price ∈ levels.map Prod.fst, ¬ lt price st.tick.lastprice) →
      (fillLevels cmp info levels st).2.2 ≠ .tickRefused
  | [], _, _, _, _, _ => by simp [fillLevels]
  | (price, list) :: levels, st, hsorted, hset, hallow, hprices => by
    rw [List.map_cons, List.pairwise_cons] at hsorted
    have htick : st.tick.allowTick info.order.side = (true, st.tick) := by
      rw [Tick.allowTick, show st.tick.computeTick = st.tick from hset, hside, hallow]
    unfold fillLevels
    split
    · simp
    · simp only [htick, Bool.not_true, Bool.false_eq_true, if_false]
      obtain ⟨-, htraded⟩ := fillList_traded htrade price list [] st
      split
      · simp
      · rename_i list' st' heq
        rw [heq] at htraded
        obtain ⟨-, -, hset', hsame, hmoved⟩ := htraded rfl
        dsimp only at hset' hsame hmoved ⊢
        by_cases hqs : tradable st.main.order.userId list = []
        · rw [← hsame hqs] at hset hallow hprices
          exact fillLevels_not_refused cmp info hside levels st' hsorted.2 hset hallow
            fun p hp => hprices p (List.mem_cons_of_mem _ hp)
        · obtain ⟨hlast, hallows⟩ := hmoved hqs
          refine fillLevels_not_refused cmp info hside levels st' hsorted.2 (hset' hset) ?_
            fun p hp => hlast ▸ Std.Asymm.asymm _ _ (hsorted.1 p hp)
          rw [hallows, allowsAfter, if_neg (hprices price List.mem_cons_self)]
          split
          · rfl
          · exact hallow

/-- **The exit.** The loop is left partly filled on a refused tick iff the first level that trades
turns the tick against the side. -/
theorem fillLevels_cutShort [Std.Asymm lt] (cmp : α → α → Bool) (info : OrderInfo α)
    (hside : info.order.side = side) : ∀ (levels : List (α × OrderList α)) (st : FillState α),
      (levels.map Prod.fst).Pairwise lt → st.tick.Settled → st.tick.allows side = true →
      ((fillLevels cmp info levels st).2.2 = .tickRefused ∧
        (fillLevels cmp info levels st).2.1.main.order.remainQty ≠ st.main.order.remainQty ↔
      cutShort cmp (fun a b => lt a b) levels st.main.order.userId info.price st.tick.lastprice
        st.main.order.remainQty = true)
  | [], st, _, _, _ => by simp [fillLevels, cutShort]
  | (price, list) :: levels, st, hsorted, hset, hallow => by
    rw [List.map_cons, List.pairwise_cons] at hsorted
    have htick : st.tick.allowTick info.order.side = (true, st.tick) := by
      rw [Tick.allowTick, show st.tick.computeTick = st.tick from hset, hside, hallow]
    unfold fillLevels cutShort
    rw [List.takeWhile_cons]
    cases hcmp : cmp price info.price with
    | false => simp
    | true =>
      simp only [Bool.not_true, Bool.false_eq_true, if_false, if_true, htick, List.dropWhile_cons]
      obtain ⟨hdone, htraded⟩ := fillList_traded htrade price list [] st
      by_cases hqs : tradable st.main.order.userId list = []
      · rw [hqs] at hdone htraded
        split
        · rename_i heq
          rw [heq] at hdone
          simp [outlasts] at hdone
        · rename_i list' st' heq
          rw [heq] at htraded
          obtain ⟨hremain, huser, hset', hsame, -⟩ := htraded rfl
          dsimp only at hremain huser hset' hsame ⊢
          have ih := fillLevels_cutShort cmp info hside levels st' hsorted.2 (hset' hset)
            (hsame rfl ▸ hallow)
          rw [hremain, huser, hsame rfl, List.sum_nil, sub_zero, cutShort] at ih
          simpa only [hqs, decide_true, if_true] using ih
      · simp only [hqs, decide_false, Bool.false_eq_true, if_false]
        split
        · rename_i heq
          rw [heq] at hdone
          have hout : outlasts (tradable st.main.order.userId list) st.main.order.remainQty =
            false := by simpa using hdone.symm
          split
          · simp_all
          · simp
        · rename_i list' st' heq
          rw [heq] at hdone htraded
          have hout : outlasts (tradable st.main.order.userId list) st.main.order.remainQty =
            true := by simpa using hdone.symm
          obtain ⟨hremain, huser, hset', -, hmoved⟩ := htraded rfl
          obtain ⟨hlast, hallows⟩ := hmoved hqs
          dsimp only at hremain huser hset' hlast hallows ⊢
          by_cases hw : lt price st.tick.lastprice
          · cases levels with
            | nil => simp [fillLevels]
            | cons level levels =>
              obtain ⟨price', list''⟩ := level
              have htick' : st'.tick.allowTick info.order.side = (false, st'.tick) := by
                rw [Tick.allowTick, show st'.tick.computeTick = st'.tick from hset' hset, hside,
                  hallows, allowsAfter, if_pos hw]
              unfold fillLevels
              rw [List.takeWhile_cons]
              cases hcmp' : cmp price' info.price with
              | false => simp
              | true =>
                simp only [htick', Bool.not_true, Bool.not_false, Bool.false_eq_true, if_false,
                  if_true, hremain, hw, hout, decide_true, Bool.true_and, true_and,
                  decide_eq_true_eq]
                exact ⟨fun h h0 => h (by rw [h0, sub_zero]), fun h h0 => h (by simpa using h0)⟩
          · have hnot := fillLevels_not_refused htrade cmp info hside levels st' hsorted.2
              (hset' hset) (by rw [hallows, allowsAfter, if_neg hw]; split <;> simp [hallow])
              fun p hp => hlast ▸ Std.Asymm.asymm _ _ (hsorted.1 p hp)
            refine iff_of_false (fun h => hnot h.1) ?_
            split
            · rename_i heq'
              cases (List.cons.inj heq').1
              simp [hw]
            · simp
end

/-! ## `add` -/

omit [Field α] in
theorem allows_trade_buyMinus (t : Tick α) (price : α) :
    (t.trade price).allows .buyMinus = allowsAfter (· < ·) .buyMinus t price := by
  rcases lt_trichotomy price t.lastprice with h | h | h
  · simp [Tick.trade, Tick.computeTick, Tick.allows, allowsAfter, h, not_lt.2 h.le]
  · by_cases ht : t.tick = .plusTick ∨ t.tick = .zeroPlusTick
    · simp [Tick.trade, Tick.computeTick, Tick.allows, allowsAfter, h, ht]
    · simp [Tick.trade, Tick.computeTick, Tick.allows, allowsAfter, h, not_or.1 ht]
  · simp [Tick.trade, Tick.computeTick, Tick.allows, allowsAfter, h, not_lt.2 h.le]

omit [Field α] in
theorem allows_trade_sellPlus (t : Tick α) (price : α) :
    (t.trade price).allows .sellPlus = allowsAfter (· > ·) .sellPlus t price := by
  rcases lt_trichotomy price t.lastprice with h | h | h
  · simp [Tick.trade, Tick.computeTick, Tick.allows, allowsAfter, h, not_lt.2 h.le]
  · cases ht : t.tick <;>
      simp [Tick.trade, Tick.computeTick, Tick.allows, allowsAfter, h, ht]
  · simp [Tick.trade, Tick.computeTick, Tick.allows, allowsAfter, h]

/-- A side without a tick rule is never refused. -/
theorem fillLevels_untested (cmp : α → α → Bool) (info : OrderInfo α)
    (hside : ∀ t : Tick α, t.allows info.order.side = true) :
    ∀ (levels : List (α × OrderList α)) (st : FillState α),
      (fillLevels cmp info levels st).2.2 ≠ .tickRefused
  | [], _ => by simp [fillLevels]
  | (price, list) :: levels, st => by
    unfold fillLevels
    split
    · simp
    · simp only [Tick.allowTick, hside, Bool.not_true, Bool.false_eq_true, if_false]
      split
      · simp
      · exact fillLevels_untested cmp info hside levels _

theorem fillOnBook_left {lt : α → α → Prop} {cmp : α → α → Bool}
    {book : SortedMap α (OrderList α) lt} {info : OrderInfo α} {st : FillState α}
    (h : fillExit cmp book info st = .tickRefused) :
    (fillOnBook cmp book info st).left.1 =
      (fillLevels cmp info book.entries st).2.1.main.order.remainQty := by
  unfold fillExit at h
  simp only [fillOnBook, h]
  rfl

/-- **The exit of `add`.** An order of a side with a tick rule leaves the loop partly filled and
unreported iff the tick rule cuts it short. -/
theorem add_tickRefused {ob : OrderBook α} (i : NewOrderInput α) (hset : ob.tick.Settled)
    (hallow : ob.tick.allows i.side = true) :
    ob.exit i.info = .tickRefused ∧ ob.unmatched i.info ≠ i.orderQty ↔ ob.tickStops i = true := by
  have hinfo : i.info.order.side = i.side := rfl
  have hsupp := i.supported
  cases hs : i.side with
  | buyMinus =>
    have hiff := fillLevels_cutShort allows_trade_buyMinus (fun a b => a ≤ b) i.info hs
      ob.askBook.entries (ob.fillState ob.askId i.info) ob.askBook.sorted hset (hs ▸ hallow)
    simp only [OrderBook.exit, OrderBook.unmatched, OrderBook.tickStops, hinfo, hs, Side.isBid,
      if_true]
    exact Iff.trans (and_congr_right fun he => by rw [fillOnBook_left he]; rfl) hiff
  | sellPlus =>
    have hiff := fillLevels_cutShort allows_trade_sellPlus (fun a b => a ≥ b) i.info hs
      ob.bidBook.entries (ob.fillState ob.bidId i.info) ob.bidBook.sorted hset (hs ▸ hallow)
    simp only [OrderBook.exit, OrderBook.unmatched, OrderBook.tickStops, hinfo, hs, Side.isBid,
      Bool.false_eq_true, if_false]
    exact Iff.trans (and_congr_right fun he => by rw [fillOnBook_left he]; rfl) hiff
  | buy =>
    have hne := fillLevels_untested (fun a b => a ≤ b) i.info (by simp [hinfo, hs, Tick.allows])
      ob.askBook.entries (ob.fillState ob.askId i.info)
    simp only [OrderBook.exit, OrderBook.tickStops, hinfo, hs, Side.isBid, if_true]
    exact iff_of_false (fun h => hne h.1) (by simp)
  | sell =>
    have hne := fillLevels_untested (fun a b => a ≥ b) i.info (by simp [hinfo, hs, Tick.allows])
      ob.bidBook.entries (ob.fillState ob.bidId i.info)
    simp only [OrderBook.exit, OrderBook.tickStops, hinfo, hs, Side.isBid, Bool.false_eq_true,
      if_false]
    exact iff_of_false (fun h => hne h.1) (by simp)
  | _ => simp [hs, Side.supported, Side.isBid, Side.isAsk] at hsupp

end Fix42
