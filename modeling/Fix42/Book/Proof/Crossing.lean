import Fix42.Book.Crossing
import Fix42.Book.Proof.Exit
import Fix42.Book.Proof.Rep

/-!
# No unexplained crossing

`fillLevels_swept`: a plain order that is not filled has traded with every order of another user
within its limit, so it comes to rest across from its own user's orders only. Everything else that
happens takes quotes away (`fillSteps_quotes`, `cancel_quotes`). `explained` carries this along every
run.
-/

namespace Fix42

open SortedMap

variable {α : Type*} [Field α] [LinearOrder α]

/-! ## Quotes that stay -/

@[simp] theorem fillOrder_order_userId (main : Event α) (price : α) (o : Order α) :
    (fillOrder main price o).order.userId = o.userId := by
  unfold fillOrder; split <;> rfl

/-- Matching takes quotes away and changes none. -/
theorem fillSteps_quotes {c c' : List (α × Node α)} {st st' : FillState α}
    (h : FillSteps (c, st) (c', st')) : (c'.map quote).Sublist (c.map quote) := by
  refine h.invariant (I := fun c' _ => (c'.map quote).Sublist (c.map quote)) (.refl _)
    fun c1 st1 c2 st2 hI hs => ?_
  cases hs with
  | tick | note => exact hI
  | @fill l r price n st other active =>
    refine List.Sublist.trans ?_ hI
    simp only [FillState.kept, List.map_append, List.map_cons]
    refine List.Sublist.append_left ?_ _
    split
    · exact List.sublist_cons_self _ _
    · simp [quote]

/-! ## Quotes that are swept -/

theorem fillList_swept (price : α) (rest kept : OrderList α) (st : FillState α)
    (h : (fillList price kept rest st).2.2 = false) :
    (fillList price kept rest st).2.1.main.order.userId = st.main.order.userId ∧
    ∀ n ∈ (fillList price kept rest st).1, n ∈ kept ∨ n.order.userId = st.main.order.userId := by
  induction rest generalizing kept st with
  | nil => exact ⟨rfl, fun n hn => .inl hn⟩
  | cons n rest ih =>
    by_cases hu : n.order.userId = st.main.order.userId
    · rw [fillList_skip hu] at h ⊢
      obtain ⟨huser, hlist⟩ := ih _ _ h
      refine ⟨huser, fun m hm => ?_⟩
      rcases hlist m hm with hm | hm
      · rcases List.mem_append.1 hm with hm | hm
        · exact .inl hm
        · rw [List.mem_singleton.1 hm]
          exact .inr hu
      · exact .inr hm
    · rw [fillList_fill hu] at h ⊢
      dsimp only at h ⊢
      split at h
      · cases h
      · rename_i hgo
        rw [if_neg hgo]
        obtain ⟨huser, hlist⟩ := ih _ _ h
        have hmain : (st.fill price n).main.order.userId = st.main.order.userId :=
          fillOrder_userId _ _ _
        -- an order that is not used up would have filled the incoming one
        have hgone : st.kept price n = [] := by
          refine if_pos ?_
          rw [fillOrder_status price hu, if_pos]
          by_contra hne
          refine hgo ?_
          have hmin : min n.order.remainQty st.main.order.remainQty = st.main.order.remainQty :=
            (min_choice _ _).resolve_left fun h0 => hne (by rw [h0, sub_self])
          simp [FillState.fill, fillOrder, hu, hmin]
        rw [hgone, List.append_nil] at hlist ⊢
        rw [hgone, List.append_nil] at huser
        exact ⟨huser.trans hmain, fun m hm => (hlist m hm).imp_right fun h => h.trans hmain⟩

/-- A plain order that is not filled leaves no order of another user within its limit. -/
theorem fillLevels_swept {lt : α → α → Prop} (cmp : α → α → Bool) (info : OrderInfo α)
    (hplain : ∀ t : Tick α, t.allows info.order.side = true)
    (hcmp : ∀ p p' limit, lt p p' → cmp p' limit = true → cmp p limit = true)
    (levels : List (α × OrderList α)) (st : FillState α)
    (hsorted : (levels.map Prod.fst).Pairwise lt)
    (h : (fillLevels cmp info levels st).2.2 ≠ .filled) :
    ∀ x ∈ flat (fillLevels cmp info levels st).1, cmp x.1 info.price = true →
      x.2.order.userId = st.main.order.userId := by
  induction levels generalizing st with
  | nil => intro x hx; cases hx
  | cons level levels ih =>
    obtain ⟨price, list⟩ := level
    rw [List.map_cons, List.pairwise_cons] at hsorted
    unfold fillLevels at h ⊢
    cases hin : cmp price info.price with
    | false =>
      -- the levels from here on are beyond the limit
      simp only [Bool.not_false, if_true]
      intro x hx hx'
      exfalso
      rcases List.mem_append.1 hx with hx | hx
      · obtain ⟨n, -, rfl⟩ := List.mem_map.1 hx
        simp [hin] at hx'
      · obtain ⟨p, n⟩ := x
        obtain ⟨l, hl, -⟩ := mem_flat.1 hx
        have := hcmp _ _ _ (hsorted.1 p (List.mem_map.2 ⟨_, hl, rfl⟩)) hx'
        simp [hin] at this
    | true =>
      simp only [hin, Tick.allowTick, hplain, Bool.not_true, Bool.false_eq_true, if_false] at h ⊢
      have hlist := fillList_swept price list [] { st with tick := st.tick.computeTick }
      split at h
      · exact absurd rfl h
      · rename_i list' st' heq
        rw [heq] at hlist
        obtain ⟨huser, hsame⟩ := hlist rfl
        dsimp only at huser hsame h ⊢
        intro x hx hx'
        rcases List.mem_append.1 hx with hx | hx
        · obtain ⟨n, hn, rfl⟩ := List.mem_map.1 hx
          exact (hsame n hn).resolve_left (by simp)
        · exact (ih st' hsorted.2 h x hx hx').trans huser

/-! ## Operations -/

/-- The quote under which the rest of an incoming order comes to rest. -/
def NewOrderInput.quote (i : NewOrderInput α) (arrival : Nat) : Quote α :=
  ⟨i.price, arrival, i.userId, i.side⟩

/-- What matching leaves of the opposite side, and what may come to rest across from it. -/
theorem fillOnBook_quotes {lt : α → α → Prop} (cmp : α → α → Bool)
    (hcmp : ∀ p p' limit, lt p p' → cmp p' limit = true → cmp p limit = true)
    (book : SortedMap α (OrderList α) lt) (i : NewOrderInput α) (st : FillState α)
    (hmain : st.main = mainEvent i.info.order) :
    ((flat (fillOnBook cmp book i.info st).book.entries).map quote).Sublist
        ((flat book.entries).map quote) ∧
      ((fillOnBook cmp book i.info st).left.1 ≠ 0 → (∀ t : Tick α, t.allows i.side = true) →
        ∀ q ∈ (flat (fillOnBook cmp book i.info st).book.entries).map quote,
          cmp q.price i.price = true → q.userId = i.userId) := by
  have hact : st.Active := fun h0 => by rw [hmain] at h0 ⊢; exact h0
  obtain ⟨st', reports, hsteps, -, hout⟩ := fillOnBook_spec cmp book i.info st hact
  refine ⟨fillSteps_quotes hsteps, fun hleft hplain q hq hq' => ?_⟩
  obtain ⟨x, hx, rfl⟩ := List.mem_map.1 hq
  have hexit : (fillLevels cmp i.info book.entries st).2.2 ≠ .filled := fun he => by
    have hz := (hout.filled he).1
    rw [hout.left_eq, hz] at hleft
    exact hleft rfl
  have := fillLevels_swept cmp i.info hplain hcmp book.entries st book.sorted hexit x hx hq'
  rw [hmain] at this
  exact this

omit [Field α] [LinearOrder α] in
theorem addToBook_quotes {lt : α → α → Prop} [DecidableRel lt] [IsTrans α lt]
    (htri : ∀ a b : α, ¬ lt a b → ¬ lt b a → a = b) (book : SortedMap α (OrderList α) lt)
    (idmap : OrderIdMap α) (price : α) (n : Node α) :
    ((flat (addToBook book idmap price n).1.entries).map quote).Perm
      (quote (price, n) :: (flat book.entries).map quote) :=
  (flat_upsert htri).map quote

/-- The invariant of the runs: quotes are numbered in order of arrival, and crossed pairs are
explained. -/
structure Explained (ob : OrderBook α) : Prop where
  arrivals : ∀ q ∈ ob.bids ++ ob.asks, q.arrival < ob.nextNode
  crossed : ∀ b ∈ ob.bids, ∀ a ∈ ob.asks, Explains b a

omit [Field α] in
theorem Explained.subset {ob ob' : OrderBook α} (h : Explained ob) (hb : ob'.bids ⊆ ob.bids)
    (ha : ob'.asks ⊆ ob.asks) (hn : ob.nextNode ≤ ob'.nextNode) : Explained ob' := by
  refine ⟨fun q hq => lt_of_lt_of_le (h.arrivals q ?_) hn, fun b hb' a ha' =>
    h.crossed b (hb hb') a (ha ha')⟩
  rcases List.mem_append.1 hq with hq | hq
  · exact List.mem_append_left _ (hb hq)
  · exact List.mem_append_right _ (ha hq)

/-- What `add` does to the quotes of a buy's two sides. -/
theorem add_bid_quotes {ob ob' : OrderBook α} {i : NewOrderInput α} (hb : i.side.isBid = true)
    (h : ob.add i.info = .ok ob') :
    ob'.asks.Sublist ob.asks ∧
      (ob'.bids = ob.bids ∧ ob'.nextNode = ob.nextNode ∨
      ob'.bids.Perm (i.quote ob.nextNode :: ob.bids) ∧ ob'.nextNode = ob.nextNode + 1 ∧
        ((∀ t : Tick α, t.allows i.side = true) →
          ∀ a ∈ ob'.asks, a.price ≤ i.price → a.userId = i.userId)) := by
  have hb' : i.info.order.side.isBid = true := hb
  obtain ⟨hsub, hswept⟩ := fillOnBook_quotes (fun a b => a ≤ b)
    (fun p p' limit hlt hle => decide_eq_true (hlt.le.trans (of_decide_eq_true hle))) ob.askBook i
    (ob.fillState ob.askId i.info) rfl
  simp only [OrderBook.add, hb', if_true] at h
  split at h
  · rename_i hleft
    cases h
    refine ⟨hsub, .inr ⟨addToBook_quotes ?_ _ ob.bidId _ _, rfl, fun hplain a ha hle => ?_⟩⟩
    · exact fun a b h1 h2 => le_antisymm (not_lt.1 h1) (not_lt.1 h2)
    · exact hswept hleft hplain a ha (decide_eq_true hle)
  · cases h
    exact ⟨hsub, .inl ⟨rfl, rfl⟩⟩

/-- What it does to those of a sell's. -/
theorem add_ask_quotes {ob ob' : OrderBook α} {i : NewOrderInput α} (ha : i.side.isAsk = true)
    (h : ob.add i.info = .ok ob') :
    ob'.bids.Sublist ob.bids ∧
      (ob'.asks = ob.asks ∧ ob'.nextNode = ob.nextNode ∨
      ob'.asks.Perm (i.quote ob.nextNode :: ob.asks) ∧ ob'.nextNode = ob.nextNode + 1 ∧
        ((∀ t : Tick α, t.allows i.side = true) →
          ∀ b ∈ ob'.bids, i.price ≤ b.price → b.userId = i.userId)) := by
  have ha' : i.info.order.side.isAsk = true := ha
  have hb' : i.info.order.side.isBid = false := Side.isBid_of_isAsk ha
  obtain ⟨hsub, hswept⟩ := fillOnBook_quotes (fun a b => a ≥ b)
    (fun p p' limit hgt hge => decide_eq_true ((of_decide_eq_true hge).trans hgt.le)) ob.bidBook i
    (ob.fillState ob.bidId i.info) rfl
  simp only [OrderBook.add, ha', hb', Bool.false_eq_true, if_false, if_true] at h
  split at h
  · rename_i hleft
    cases h
    refine ⟨hsub, .inr ⟨addToBook_quotes ?_ _ ob.askId _ _, rfl, fun hplain b hb hle => ?_⟩⟩
    · exact fun a b h1 h2 => le_antisymm (not_lt.1 h2) (not_lt.1 h1)
    · exact hswept hleft hplain b hb (decide_eq_true hle)
  · cases h
    exact ⟨hsub, .inl ⟨rfl, rfl⟩⟩

omit [Field α] [LinearOrder α] in
/-- A side that trades without a tick rule. -/
theorem plain_or_minus {side : Side} (hb : side.isBid = true) :
    (∀ t : Tick α, t.allows side = true) ∨ side = .buyMinus := by
  cases side <;> simp_all [Side.isBid, Tick.allows]

omit [Field α] [LinearOrder α] in
theorem plain_or_plus {side : Side} (ha : side.isAsk = true) :
    (∀ t : Tick α, t.allows side = true) ∨ side = .sellPlus := by
  cases side <;> simp_all [Side.isAsk, Tick.allows]

theorem Explained.add {ob ob' : OrderBook α} (h : Explained ob) {i : NewOrderInput α}
    (hadd : ob.add i.info = .ok ob') : Explained ob' := by
  have hnew : ∀ q ∈ ob.bids ++ ob.asks, q.arrival < ob.nextNode + 1 := fun q hq =>
    Nat.lt_succ_of_lt (h.arrivals q hq)
  rcases Bool.or_eq_true_iff.1 i.supported with hb | ha
  · obtain ⟨hasks, ⟨hbids, hn⟩ | ⟨hbids, hn, hswept⟩⟩ := add_bid_quotes hb hadd
    · exact h.subset (by rw [hbids]; exact List.Subset.refl _) hasks.subset hn.ge
    · refine ⟨fun q hq => ?_, fun b hb' a ha' => ?_⟩
      · rw [hn]
        rcases List.mem_append.1 hq with hq | hq
        · rcases List.mem_cons.1 (hbids.mem_iff.1 hq) with rfl | hq
          · exact Nat.lt_succ_self _
          · exact hnew q (List.mem_append_left _ hq)
        · exact hnew q (List.mem_append_right _ (hasks.subset hq))
      · rcases List.mem_cons.1 (hbids.mem_iff.1 hb') with rfl | hb'
        · -- the incoming bid: a plain one has nothing of others across from it
          intro hprice huser
          rcases plain_or_minus (α := α) hb with hplain | hminus
          · exact absurd (hswept hplain a ha' hprice) huser
          · exact .inl ⟨h.arrivals a (List.mem_append_right _ (hasks.subset ha')), hminus⟩
        · exact h.crossed b hb' a (hasks.subset ha')
  · obtain ⟨hbids, ⟨hasks, hn⟩ | ⟨hasks, hn, hswept⟩⟩ := add_ask_quotes ha hadd
    · exact h.subset hbids.subset (by rw [hasks]; exact List.Subset.refl _) hn.ge
    · refine ⟨fun q hq => ?_, fun b hb' a ha' => ?_⟩
      · rw [hn]
        rcases List.mem_append.1 hq with hq | hq
        · exact hnew q (List.mem_append_left _ (hbids.subset hq))
        · rcases List.mem_cons.1 (hasks.mem_iff.1 hq) with rfl | hq
          · exact Nat.lt_succ_self _
          · exact hnew q (List.mem_append_right _ hq)
      · rcases List.mem_cons.1 (hasks.mem_iff.1 ha') with rfl | ha'
        · intro hprice huser
          rcases plain_or_plus (α := α) ha with hplain | hplus
          · exact absurd (hswept hplain b hb' hprice).symm huser
          · exact .inr ⟨h.arrivals b (List.mem_append_left _ (hbids.subset hb')), hplus⟩
        · exact h.crossed b (hbids.subset hb') a ha'

omit [Field α] in
theorem cancelOrder_quotes {lt : α → α → Prop} {book book' : SortedMap α (OrderList α) lt}
    {info : OrderIdInfo α} (h : cancelOrder book info = .ok book') :
    (flat book'.entries).map quote ⊆ (flat book.entries).map quote := by
  rw [cancelOrder_ok h, SortedMap.adjust, SortedMap.revalue, flat_adjust]
  exact List.map_subset _ List.filter_sublist.subset

omit [Field α] in
/-- A cancel takes quotes away. -/
theorem cancel_quotes {ob ob' : OrderBook α} {id : OrderId} {side : Side}
    (h : ob.cancel id side = .ok ob') :
    ob'.bids ⊆ ob.bids ∧ ob'.asks ⊆ ob.asks ∧ ob'.nextNode = ob.nextNode := by
  obtain ⟨info, -, ⟨-, askBook, hok, rfl⟩ | ⟨-, bidBook, hok, rfl⟩⟩ := cancel_cases h
  · exact ⟨List.Subset.refl _, cancelOrder_quotes hok, rfl⟩
  · exact ⟨cancelOrder_quotes hok, List.Subset.refl _, rfl⟩

/-! ## Runs -/

theorem Explained.step {ob ob' : OrderBook α} (h : Explained ob) {op : OrderBook.Op α}
    (hs : ob.step op = some ob') : Explained ob' := by
  cases op with
  | add i =>
    cases hok : ob.add i.info with
    | error f => simp [OrderBook.step, hok, Except.toOption] at hs
    | ok ob1 =>
      simp only [OrderBook.step, hok, Except.toOption, Option.some.injEq] at hs
      exact h.add (hs ▸ hok)
  | cancel id side =>
    cases hok : ob.cancel id side with
    | error f => simp [OrderBook.step, hok, Except.toOption] at hs
    | ok ob1 =>
      simp only [OrderBook.step, hok, Except.toOption, Option.some.injEq] at hs
      obtain ⟨hb, ha, hn⟩ := cancel_quotes (hs ▸ hok)
      exact h.subset hb ha hn.ge
  | allowTick side =>
    cases hs
    exact ⟨h.arrivals, h.crossed⟩

end Fix42
