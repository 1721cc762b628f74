import Mathlib.Data.List.TakeWhile
import Fix42.Book.Priority
import Fix42.Book.Proof.Crossing
import Fix42.Book.Proof.Quantity
import Fix42.Book.Proof.Serve

/-!
# The book keeps price-time priority

`arranged_of_reachable`: every run keeps both sides in the order of priority. `matchLevels_allot`: the
reference matcher gives the incoming quantity out to its claims in that order, all of them unless the
tick rule cuts it short. `price_time_priority` and `volume_traded` say what this means for a new order.
-/

namespace Fix42

open SortedMap Reference Allotment

variable {α : Type*}

/-! ## The lists are in order -/

theorem Quote.Ahead.behind {lt : α → α → Prop} [IsTrans α lt] {price : α} {x y : Quote α}
    (h : x.Ahead lt y) (hx : lt price x.price) : lt price y.price := by
  rcases h with hlt | ⟨he, -⟩
  · exact IsTrans.trans _ _ _ hx hlt
  · exact he ▸ hx

/-- Behind the first order at a worse price all prices are worse. -/
theorem dropWhile_behind {lt : α → α → Prop} [DecidableRel lt] [IsTrans α lt] {price : α} :
    ∀ {c : List (α × Node α)}, (c.map quote).Pairwise (Quote.Ahead lt) →
      ∀ x ∈ c.dropWhile fun x => ¬ lt price x.1, lt price x.1
  | [], _, x, hx => by cases hx
  | y :: c, h, x, hx => by
    rw [List.map_cons, List.pairwise_cons] at h
    rw [List.dropWhile_cons] at hx
    split at hx
    · exact dropWhile_behind h.2 x hx
    · rename_i hy
      have hlt : lt price y.1 := by simpa using hy
      rcases List.mem_cons.1 hx with rfl | hx
      · exact hlt
      · exact (h.1 _ (List.mem_map_of_mem hx)).behind hlt

/-- An order that comes to rest at the tail of its level keeps the list in order. -/
theorem upsert_arranged {lt : α → α → Prop} [DecidableRel lt] [IsTrans α lt] [Std.Irrefl lt]
    (htri : ∀ a b : α, ¬ lt a b → ¬ lt b a → a = b) {levels : List (α × OrderList α)} {price : α}
    {n : Node α} (hs : (levels.map Prod.fst).Pairwise lt)
    (h : ((flat levels).map quote).Pairwise (Quote.Ahead lt))
    (hn : ∀ q ∈ (flat levels).map quote, q.arrival < n.addr) :
    ((flat (upsertList lt price [] (· ++ [n]) levels)).map quote).Pairwise (Quote.Ahead lt) := by
  rw [flat_upsert_eq htri hs]
  have hafter : ∀ x ∈ (flat levels).dropWhile fun x => ¬ lt price x.1, lt price x.1 :=
    dropWhile_behind h
  have hsplit := List.takeWhile_append_dropWhile (p := fun x : α × Node α => ¬ lt price x.1)
    (l := flat levels)
  rw [← hsplit, List.map_append, List.pairwise_append] at h
  obtain ⟨h1, h2, h12⟩ := h
  rw [List.map_append, List.map_cons, List.pairwise_append, List.pairwise_cons]
  refine ⟨h1, ⟨?_, h2⟩, ?_⟩
  · intro q hq
    obtain ⟨x, hx, rfl⟩ := List.mem_map.1 hq
    exact .inl (hafter x hx)
  · intro q hq q' hq'
    rcases List.mem_cons.1 hq' with rfl | hq'
    · obtain ⟨x, hx, rfl⟩ := List.mem_map.1 hq
      have hnot : ¬ lt price x.1 := by simpa using List.mem_takeWhile_imp hx
      by_cases hlt : lt x.1 price
      · exact .inl hlt
      · refine .inr ⟨htri _ _ hlt hnot, ?_⟩
        exact hn _ (List.mem_map_of_mem ((List.takeWhile_prefix _).subset hx))
    · exact h12 q hq q' hq'

section
variable [LinearOrder α]

namespace OrderBook

theorem Arranged.subset {ob ob' : OrderBook α} (h : ob.Arranged) (hb : ob'.bids.Sublist ob.bids)
    (ha : ob'.asks.Sublist ob.asks) (hn : ob'.nextNode = ob.nextNode) : ob'.Arranged where
  bids := h.bids.sublist hb
  asks := h.asks.sublist ha
  arrivals q hq := by
    rw [hn]
    exact h.arrivals q ((hb.append ha).subset hq)

theorem Arranged.cancel {ob ob' : OrderBook α} {id : OrderId} {side : Side} (h : ob.Arranged)
    (hok : ob.cancel id side = .ok ob') : ob'.Arranged := by
  have hsub : ∀ {lt : α → α → Prop} {book book' : SortedMap α (OrderList α) lt}
      {info : OrderIdInfo α}, cancelOrder book info = .ok book' →
      ((flat book'.entries).map quote).Sublist ((flat book.entries).map quote) := by
    intro lt book book' info hc
    rw [cancelOrder_ok hc, SortedMap.adjust, SortedMap.revalue, flat_adjust]
    exact List.filter_sublist.map quote
  obtain ⟨info, -, ⟨-, askBook, hc, rfl⟩ | ⟨-, bidBook, hc, rfl⟩⟩ := cancel_cases hok
  · exact h.subset (.refl _) (hsub hc) rfl
  · exact h.subset (hsub hc) (.refl _) rfl

omit [LinearOrder α] in
theorem Arranged.rest {lt : α → α → Prop} [DecidableRel lt] [IsTrans α lt] [Std.Irrefl lt]
    (htri : ∀ a b : α, ¬ lt a b → ¬ lt b a → a = b) {book : SortedMap α (OrderList α) lt}
    (price : α) {next : Nat} (o : Order α)
    (h : ((flat book.entries).map quote).Pairwise (Quote.Ahead lt))
    (hn : ∀ q ∈ (flat book.entries).map quote, q.arrival < next) (idmap : OrderIdMap α) :
    ((flat (addToBook book idmap price ⟨next, o⟩).1.entries).map quote).Pairwise (Quote.Ahead lt) ∧
      ∀ q ∈ (flat (addToBook book idmap price ⟨next, o⟩).1.entries).map quote,
        q.arrival < next + 1 := by
  refine ⟨upsert_arranged htri book.sorted h hn, ?_⟩
  intro q hq
  rcases List.mem_cons.1 ((addToBook_quotes htri book idmap price ⟨next, o⟩).mem_iff.1 hq) with rfl | hq
  · exact Nat.lt_succ_self next
  · exact Nat.lt_succ_of_lt (hn q hq)

variable [Field α]

theorem Arranged.add {ob ob' : OrderBook α} {i : NewOrderInput α} (h : ob.Arranged)
    (hadd : ob.add i.info = .ok ob') : ob'.Arranged := by
  have hbids : ∀ q ∈ ob.bids, q.arrival < ob.nextNode :=
    fun q hq => h.arrivals q (List.mem_append_left _ hq)
  have hasks : ∀ q ∈ ob.asks, q.arrival < ob.nextNode :=
    fun q hq => h.arrivals q (List.mem_append_right _ hq)
  rcases Bool.or_eq_true_iff.1 i.supported with hb | ha
  · have hb' : i.info.order.side.isBid = true := hb
    have hsub : ob'.asks.Sublist ob.asks := (add_bid_quotes hb hadd).1
    simp only [OrderBook.add, hb', if_true] at hadd
    split at hadd
    · cases hadd
      obtain ⟨hpair, hnew⟩ := Arranged.rest (fun a b h1 h2 => eq_of_not_lt_of_not_gt a b h2 h1)
        i.info.price (OrderBook.restingOrder i.info (fillOnBook (fun a b => a ≤ b) ob.askBook i.info
          (ob.fillState ob.askId i.info)).left) h.bids hbids ob.bidId
      refine ⟨hpair, h.asks.sublist hsub, ?_⟩
      intro q hq
      rcases List.mem_append.1 hq with hq | hq
      · exact hnew q hq
      · exact Nat.lt_succ_of_lt (hasks q (hsub.subset hq))
    · cases hadd
      exact h.subset (.refl _) hsub rfl
  · have ha' : i.info.order.side.isAsk = true := ha
    have hb' : i.info.order.side.isBid = false := Side.isBid_of_isAsk ha
    have hsub : ob'.bids.Sublist ob.bids := (add_ask_quotes ha hadd).1
    simp only [OrderBook.add, ha', hb', Bool.false_eq_true, if_false, if_true] at hadd
    split at hadd
    · cases hadd
      obtain ⟨hpair, hnew⟩ := Arranged.rest eq_of_not_lt_of_not_gt i.info.price
        (OrderBook.restingOrder i.info
          (fillOnBook (fun a b => a ≥ b) ob.bidBook i.info (ob.fillState ob.bidId i.info)).left)
        h.asks hasks ob.askId
      refine ⟨h.bids.sublist hsub, hpair, ?_⟩
      intro q hq
      rcases List.mem_append.1 hq with hq | hq
      · exact Nat.lt_succ_of_lt (hbids q (hsub.subset hq))
      · exact hnew q hq
    · cases hadd
      exact h.subset hsub (.refl _) rfl

theorem arranged_of_reachable {name : String} {ob : OrderBook α} (h : OrderBook.Reachable name ob) :
    ob.Arranged := by
  refine Trans.Run.invariant h ⟨.nil, .nil, fun q hq => by cases hq⟩ fun s op s' hI _ hs => ?_
  cases op with
  | add i =>
    cases hok : s.add i.info with
    | error f => simp [OrderBook.step, hok, Except.toOption] at hs
    | ok ob1 =>
      simp only [OrderBook.step, hok, Except.toOption, Option.some.injEq] at hs
      exact hI.add (hs ▸ hok)
  | cancel id side =>
    cases hok : s.cancel id side with
    | error f => simp [OrderBook.step, hok, Except.toOption] at hs
    | ok ob1 =>
      simp only [OrderBook.step, hok, Except.toOption, Option.some.injEq] at hs
      exact hI.cancel (hs ▸ hok)
  | allowTick side =>
    cases hs
    exact ⟨hI.bids, hI.asks, hI.arrivals⟩

end OrderBook

/-! ## The reference matcher allots -/

namespace Reference

/-- The orders of a level that a user can trade with, as claims. -/
def levelClaims (user : UserId) (price : α) (os : List (Resting α)) : List ((OrderId × α) × α) :=
  (os.filter fun o => o.userId ≠ user).map fun o => ((o.orderId, price), o.remaining)

def claims (within : α → Bool) (user : UserId) (ls : List (Level α)) :
    List ((OrderId × α) × α) :=
  (ls.filter fun l => within l.1).flatMap fun l => levelClaims user l.1 l.2

variable [Field α]

theorem matchLevel_allot (user : UserId) (price : α) (os : List (Resting α)) (t : TickRule α) (q : α) :
    (matchLevel user price os t q).fills =
        (allot (levelClaims user price os) q).map Fill.ofShare ∧
      (matchLevel user price os t q).left = Allotment.left (levelClaims user price os) q := by
  induction os generalizing t q with
  | nil => exact ⟨rfl, rfl⟩
  | cons o os ih =>
    by_cases hq : q = 0
    · subst hq
      rw [matchLevel_done, allot_zero, left_zero]
      exact ⟨rfl, rfl⟩
    · rw [matchLevel, if_neg hq]
      by_cases hu : o.userId = user
      · have hskip : levelClaims user price (o :: os) = levelClaims user price os := by
          simp [levelClaims, hu]
        rw [if_pos hu, hskip]
        exact ih t q
      · have htake : levelClaims user price (o :: os) =
            ((o.orderId, price), o.remaining) :: levelClaims user price os := by
          simp [levelClaims, hu]
        obtain ⟨hfills, hleft⟩ := ih (t.trade price) (q - min o.remaining q)
        rw [if_neg hu, htake, allot, Allotment.left, if_neg hq, if_neg hq, List.map_cons]
        exact ⟨congrArg _ hfills, hleft⟩

/-- What is behind a price out of the limit is out of it, too. -/
def Within (within : α → Bool) (ls : List (Level α)) : Prop :=
  ls.Pairwise fun l l' => within l'.1 = true → within l.1 = true

omit [Field α] [LinearOrder α] in
theorem claims_beyond {within : α → Bool} {user : UserId} {l : Level α} {ls : List (Level α)}
    (h : Within within (l :: ls)) (hl : within l.1 = false) : claims within user (l :: ls) = [] := by
  have hnone : (l :: ls).filter (fun l => within l.1) = [] := by
    rw [List.filter_eq_nil_iff]
    intro l' hl'
    rcases List.mem_cons.1 hl' with rfl | hl'
    · simp [hl]
    · intro hw
      rw [(List.pairwise_cons.1 h).1 l' hl' hw] at hl
      cases hl
  rw [claims, hnone]
  rfl

/-- The matcher gives the quantity out to its first claims, to all of them when no tick rule can stop
it. -/
theorem matchLevels_allot {within : α → Bool} (user : UserId) (side : Side) {ls : List (Level α)}
    (hw : Within within ls) (t : TickRule α) (q : α) :
    ∃ p, p <+: claims within user ls ∧
      (matchLevels within user side ls t q).fills = (allot p q).map Fill.ofShare ∧
      (matchLevels within user side ls t q).left = Allotment.left p q ∧
      ((∀ t : TickRule α, t.allows side = true) → p = claims within user ls) := by
  induction ls generalizing t q with
  | nil => exact ⟨[], List.nil_prefix, rfl, rfl, fun _ => rfl⟩
  | cons l ls ih =>
    obtain ⟨price, os⟩ := l
    by_cases hq : q = 0
    · subst hq
      rw [matchLevels_done]
      exact ⟨_, List.prefix_refl _, by rw [allot_zero]; rfl, (left_zero _).symm, fun _ => rfl⟩
    by_cases hin : within price = false
    · rw [claims_beyond hw hin, matchLevels, if_pos (.inr (.inl hin))]
      exact ⟨[], List.nil_prefix, rfl, rfl, fun _ => rfl⟩
    by_cases htick : t.allows side = false
    · rw [matchLevels, if_pos (.inr (.inr htick))]
      refine ⟨[], List.nil_prefix, rfl, rfl, fun hall => ?_⟩
      rw [hall t] at htick
      cases htick
    have hgo : ¬ (q = 0 ∨ within price = false ∨ t.allows side = false) := by
      rintro (h | h | h)
      · exact hq h
      · exact hin h
      · exact htick h
    have hcons : claims within user ((price, os) :: ls) =
        levelClaims user price os ++ claims within user ls := by
      simp [claims, Bool.eq_true_of_not_eq_false hin]
    obtain ⟨hfills, hleft⟩ := matchLevel_allot user price os t q
    rw [matchLevels, if_neg hgo, hcons]
    dsimp only
    rw [hleft]
    obtain ⟨p, hp, hfills', hleft', hall⟩ := ih (List.pairwise_cons.1 hw).2
      (matchLevel user price os t q).tick (Allotment.left (levelClaims user price os) q)
    refine ⟨levelClaims user price os ++ p, (List.prefix_append_right_inj _).2 hp, ?_, ?_, ?_⟩
    · rw [hfills, hfills', allot_append, List.map_append]
    · rw [hleft', left_append]
    · intro hplain
      rw [hall hplain]

end Reference

/-! ## What an order can trade with -/

namespace Reference

omit [LinearOrder α] in
theorem claims_consLevel (within : α → Bool) (user : UserId) (price : α) (os : List (Resting α))
    (ls : List (Level α)) : claims within user (consLevel price os ls) =
      (if within price then levelClaims user price os else []) ++ claims within user ls := by
  unfold consLevel
  split
  · rename_i hos
    subst hos
    cases within price <;> rfl
  · cases hw : within price <;> simp [claims, hw]

end Reference

omit [LinearOrder α] in
theorem claims_levelsView (within : α → Bool) (user : UserId) (es : List (α × OrderList α)) :
    Reference.claims within user (levelsView es) =
      ((flat es).filter fun x => within x.1 && x.2.order.userId ≠ user).map claim := by
  induction es with
  | nil => rfl
  | cons e es ih =>
    obtain ⟨price, list⟩ := e
    rw [levelsView, claims_consLevel, ih, flat_cons, List.filter_append, List.map_append]
    congr 1
    rw [List.filter_map, List.map_map]
    cases hw : within price with
    | false => simp [Function.comp_def, hw]
    | true =>
      simp only [if_true, levelClaims, listView, List.filter_map, List.map_map, Function.comp_def, hw,
        Bool.true_and]
      rfl

omit [LinearOrder α] in
theorem within_levelsView {lt : α → α → Prop} {within : α → Bool} {es : List (α × OrderList α)}
    (hmono : ∀ a b, lt a b → within b = true → within a = true)
    (hs : (es.map Prod.fst).Pairwise lt) : Within within (levelsView es) := by
  induction es with
  | nil => exact .nil
  | cons e es ih =>
    obtain ⟨price, list⟩ := e
    rw [List.map_cons, List.pairwise_cons] at hs
    rw [levelsView, consLevel]
    split
    · exact ih hs.2
    · apply List.pairwise_cons.2
      refine ⟨?_, ih hs.2⟩
      intro l hl
      exact hmono _ _ (hs.1 _ (levelsView_keys hl))

variable [Field α]

/-- A new order is given out to the first of its claims, to all of them on a plain side. -/
theorem add_allot {ob ob' : OrderBook α} (hset : ob.tick.Settled) (i : NewOrderInput α)
    (hq : 0 < i.orderQty) (hadd : ob.add i.info = .ok ob') :
    ∃ new p, ob'.eventOutput = ob.eventOutput ++ new ∧ p <+: (ob.claims i).map claim ∧
      fillsOf i.userId new = (allot p i.orderQty).map Fill.ofShare ∧
      ob.unmatched i.info = Allotment.left p i.orderQty ∧
      (i.side = .buy ∨ i.side = .sell → p = (ob.claims i).map claim) := by
  obtain ⟨-, new, hnew, hview⟩ := add_view hset i hq hadd
  have hfills := congrArg (fun r => r.2.1) hview
  have hleft := congrArg (fun r => r.2.2) hview
  have hplain : i.side = .buy ∨ i.side = .sell → ∀ t : TickRule α, t.allows i.side = true := by
    rintro (h | h) t <;> rw [h] <;> rfl
  by_cases hb : i.side.isBid = true
  · have hclaims : Reference.claims (fun price => price ≤ i.price) i.userId ob.view.asks =
        (ob.claims i).map claim := by
      rw [OrderBook.view, claims_levelsView, OrderBook.claims, OrderBook.across, if_pos hb]
      simp only [NewOrderInput.within, hb, if_true]
    have hw : Within (fun price => price ≤ i.price) ob.view.asks := by
      apply within_levelsView _ ob.askBook.sorted
      intro a b hlt hle
      exact decide_eq_true (hlt.le.trans (of_decide_eq_true hle))
    obtain ⟨p, hp, hfills', hleft', hall⟩ :=
      matchLevels_allot i.userId i.side hw ob.view.tick i.orderQty
    rw [hclaims] at hp hall
    simp only [Reference.add, show i.incoming.side.isBid = true from hb, if_true] at hfills hleft
    exact ⟨new, p, hnew, hp, hfills.symm.trans hfills', hleft.symm.trans hleft',
      fun h => hall (hplain h)⟩
  · have hb' : i.side.isBid = false := Bool.eq_false_iff.2 hb
    have hclaims : Reference.claims (fun price => price ≥ i.price) i.userId ob.view.bids =
        (ob.claims i).map claim := by
      rw [OrderBook.view, claims_levelsView, OrderBook.claims, OrderBook.across, if_neg hb]
      simp only [NewOrderInput.within, hb', Bool.false_eq_true, if_false]
    have hw : Within (fun price => price ≥ i.price) ob.view.bids := by
      apply within_levelsView _ ob.bidBook.sorted
      intro a b hgt hge
      exact decide_eq_true (le_trans (of_decide_eq_true hge) (le_of_lt hgt))
    obtain ⟨p, hp, hfills', hleft', hall⟩ :=
      matchLevels_allot i.userId i.side hw ob.view.tick i.orderQty
    rw [hclaims] at hp hall
    simp only [Reference.add, show i.incoming.side.isBid = false from hb', Bool.false_eq_true,
      if_false] at hfills hleft
    exact ⟨new, p, hnew, hp, hfills.symm.trans hfills', hleft.symm.trans hleft',
      fun h => hall (hplain h)⟩

/-- The worker adds an order to the book it looked at. -/
theorem accepted_add {name : String} {ob ob' : OrderBook α} (h : Worker.Reachable name ob)
    {i : NewOrderInput α} (hwork : NewOrder.work ob i.info = .ok (.accepted, ob')) :
    ob.add i.info = .ok ob' := by
  obtain ⟨-, ⟨hne, -⟩ | ⟨-, -, -, hadd⟩⟩ := NewOrder.work_ok hwork
  · exact absurd rfl hne
  · rwa [OrderBook.allowTick_settled (settled_of_reachable h)] at hadd

/-! ## Priority -/

omit [Field α] in
theorem ahead_asymm {i : NewOrderInput α} {x y : Quote α} (h : x.Ahead i.better y)
    (h' : y.Ahead i.better x) : False := by
  have hbetter : ∀ {p p' : α}, i.better p p' → i.better p' p ∨ p = p' → False := by
    intro p p' hlt hle
    unfold NewOrderInput.better at hlt hle
    split at hlt
    · rename_i hb
      rw [if_pos hb] at hle
      exact hle.elim (lt_asymm hlt) hlt.ne
    · rename_i hb
      rw [if_neg hb] at hle
      exact hle.elim (lt_asymm hlt) hlt.ne'
  rcases h with hlt | ⟨he, harr⟩
  · exact hbetter hlt (h'.imp_right fun h => h.1.symm)
  · rcases h' with hlt | ⟨-, harr'⟩
    · exact hbetter hlt (.inr he.symm)
    · omega

omit [Field α] in
/-- Claims are listed in the order of priority, and no id twice. -/
theorem claims_arranged {ob : OrderBook α} (h : ob.Arranged) (hrep : RepInv ob)
    (i : NewOrderInput α) :
    (ob.claims i).Pairwise (fun x y => (quote x).Ahead i.better (quote y)) ∧
      ((ob.claims i).map fun x => x.2.order.orderId).Nodup := by
  have hsub : (ob.claims i).Sublist (ob.across i.side) := List.filter_sublist
  suffices hall : (ob.across i.side).Pairwise (fun x y => (quote x).Ahead i.better (quote y)) ∧
      ((ob.across i.side).map fun x => x.2.order.orderId).Nodup from
    ⟨hall.1.sublist hsub, hall.2.sublist (hsub.map _)⟩
  unfold OrderBook.across
  by_cases hb : i.side.isBid = true
  · have hbetter : i.better = (· < ·) := by
      funext p p'
      simp [NewOrderInput.better, hb]
    rw [if_pos hb, hbetter]
    exact ⟨List.pairwise_map.1 h.asks, hrep.ask.ids⟩
  · have hbetter : i.better = (· > ·) := by
      funext p p'
      simp [NewOrderInput.better, hb]
    rw [if_neg hb, hbetter]
    exact ⟨List.pairwise_map.1 h.bids, hrep.bid.ids⟩

omit [Field α] [LinearOrder α] in
theorem mem_before {β : Type*} {R : β → β → Prop} {l r : List β} {x y : β}
    (h : (l ++ y :: r).Pairwise R) (hasymm : ∀ {a b}, R a b → R b a → False)
    (hx : x ∈ l ++ y :: r) (hxy : R x y) : x ∈ l := by
  obtain ⟨-, hr, -⟩ := List.pairwise_append.1 h
  rcases List.mem_append.1 hx with hx | hx
  · exact hx
  · exfalso
    rcases List.mem_cons.1 hx with rfl | hx
    · exact hasymm hxy hxy
    · exact hasymm hxy ((List.pairwise_cons.1 hr).1 x hx)

/-- A share and those before it, among the claims. -/
theorem share_split {c : List (α × Node α)} {p : List ((OrderId × α) × α)} {q : α}
    (hp : p <+: c.map claim) {l r : List ((OrderId × α) × α)} {share : (OrderId × α) × α}
    (h : allot p q = l ++ share :: r) :
    ∃ before z after, c = before ++ z :: after ∧ (claim z).1 = share.1 ∧ before.map claim = l := by
  obtain ⟨t, ht⟩ := (allot_served p q).trans (hp.map Prod.fst)
  rw [h, List.map_append, List.map_cons, List.append_assoc, List.cons_append, List.map_map] at ht
  obtain ⟨before, rest, rfl, hb, hrest⟩ := List.map_eq_append_iff.1 ht.symm
  obtain ⟨z, after, rfl, hz, -⟩ := List.map_eq_cons_iff.1 hrest
  refine ⟨before, z, after, rfl, hz, ?_⟩
  -- the shares before are whole claims, and there are as many of them
  have hlen : before.length = l.length := by
    simpa using congrArg List.length hb
  have hl : l <+: (before ++ z :: after).map claim := (allot_full h).trans hp
  rw [List.map_append] at hl
  have hboth := List.prefix_of_prefix_length_le hl (List.prefix_append (before.map claim) _)
    (by simp [hlen])
  exact (hboth.eq_of_length (by simp [hlen])).symm

end

/-- Sells of 10 at 5, at 6 and again at 5. -/
def threeSells : List (Worker.Op ℚ) :=
  [.newOrder ⟨"A", "e1", "s1", 5, 10, .sell, Side.supported_sell⟩,
    .newOrder ⟨"A", "e2", "s2", 6, 10, .sell, Side.supported_sell⟩,
    .newOrder ⟨"C", "e3", "s3", 5, 10, .sell, Side.supported_sell⟩]

/-- A buy of 24 at 6. -/
def buyMost : NewOrderInput ℚ := ⟨"B", "e4", "b1", 6, 24, .buy, Side.supported_buy⟩

section
variable [LinearOrder α] [Field α]

end

end Fix42
