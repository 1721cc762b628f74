import Fix42.Book.EmptyLevels
import Fix42.Book.Proof.Exit
import Fix42.Book.Proof.Tape

/-!
# Empty price levels are passed over

`fillLevels_compact`: the price loop does the same on the levels that have an order, but for the exit
it takes. `fillLevels_orders`: it does not look at addresses. So similar books stay similar under every
request, the events apart, and the events differ exactly when the tick rule cuts an order short in one
of the books only: an empty level within the limit is enough for the silent exit
(`Similar.newOrder`, `empty_levels`).
-/

namespace Fix42

open SortedMap

variable {α : Type*}

/-! ## Orders -/

theorem pricedOrders_eq (levels : List (α × OrderList α)) :
    pricedOrders levels = flat (levels.map fun l => (l.1, l.2.map Node.order)) :=
  (flat_map Node.order levels).symm

section
variable [Field α] [LinearOrder α]

/-! ## The loops do not look at addresses -/

/-- Loop states that agree on all but the id map and the log. -/
structure FillState.Same (st st' : FillState α) : Prop where
  main : st.main = st'.main
  tick : st.tick = st'.tick
  events : st.events = st'.events

theorem FillState.Same.fill {st st' : FillState α} (h : st.Same st') (price : α) {n n' : Node α}
    (hn : n.order = n'.order) : (st.fill price n).Same (st'.fill price n') := by
  refine ⟨?_, ?_, ?_⟩
  · simp only [FillState.fill, h.main, hn]
  · simp only [FillState.fill, h.tick]
  · simp only [FillState.fill, h.main, h.events, hn]

theorem kept_orders {st st' : FillState α} (h : st.Same st') (price : α) {n n' : Node α}
    (hn : n.order = n'.order) :
    (st.kept price n).map Node.order = (st'.kept price n').map Node.order := by
  simp only [FillState.kept, h.main, hn]
  split <;> rfl

theorem fillList_orders (price : α) {rest rest' kept kept' : OrderList α} {st st' : FillState α}
    (hrest : rest.map Node.order = rest'.map Node.order)
    (hkept : kept.map Node.order = kept'.map Node.order) (h : st.Same st') :
    let r := fillList price kept rest st
    let r' := fillList price kept' rest' st'
    r.1.map Node.order = r'.1.map Node.order ∧ r.2.1.Same r'.2.1 ∧ r.2.2 = r'.2.2 := by
  induction rest generalizing rest' kept kept' st st' with
  | nil =>
    cases rest' with
    | nil => exact ⟨hkept, h, rfl⟩
    | cons n' rest' => cases hrest
  | cons n rest ih =>
    cases rest' with
    | nil => cases hrest
    | cons n' rest' =>
      obtain ⟨hn, hrest⟩ := List.cons.inj hrest
      have huser : n.order.userId = st.main.order.userId ↔
          n'.order.userId = st'.main.order.userId := by rw [hn, h.main]
      by_cases hu : n.order.userId = st.main.order.userId
      · rw [fillList_skip hu, fillList_skip (huser.1 hu)]
        refine ih hrest ?_ ⟨h.main, h.tick, h.events⟩
        rw [List.map_append, List.map_append, hkept]
        exact congrArg (fun o => _ ++ [o]) hn
      · rw [fillList_fill hu, fillList_fill (mt huser.2 hu)]
        have hfill := h.fill price hn
        have hk := kept_orders h price hn
        dsimp only
        rw [hfill.main]
        split
        · refine ⟨?_, ⟨rfl, hfill.tick, ?_⟩, rfl⟩
          · simp only [List.map_append, hkept, hk, hrest]
          · simp only [FillState.push, hfill.events]
        · refine ih hrest ?_ ⟨rfl, hfill.tick, hfill.events⟩
          rw [List.map_append, List.map_append, hkept, hk]

theorem fillListCalls_orders (price : α) {list list' : OrderList α}
    (h : list.map Node.order = list'.map Node.order) (main : Event α) :
    fillListCalls price list main = fillListCalls price list' main := by
  induction list generalizing list' main with
  | nil =>
    cases list' with
    | nil => rfl
    | cons n' list' => cases h
  | cons n list ih =>
    cases list' with
    | nil => cases h
    | cons n' list' =>
      obtain ⟨hn, hlist⟩ := List.cons.inj h
      simp only [fillListCalls, hn, ih hlist]

/-- Levels with the same orders. -/
abbrev SameLevels (levels levels' : List (α × OrderList α)) : Prop :=
  (levels.map fun l => (l.1, l.2.map Node.order)) = levels'.map fun l => (l.1, l.2.map Node.order)

theorem fillLevels_orders (cmp : α → α → Bool) (info : OrderInfo α)
    {levels levels' : List (α × OrderList α)} {st st' : FillState α}
    (hl : SameLevels levels levels') (h : st.Same st') :
    let r := fillLevels cmp info levels st
    let r' := fillLevels cmp info levels' st'
    SameLevels r.1 r'.1 ∧ r.2.1.Same r'.2.1 ∧ r.2.2 = r'.2.2 ∧
      fillLevelsCalls cmp info levels st = fillLevelsCalls cmp info levels' st' := by
  induction levels generalizing levels' st st' with
  | nil =>
    cases levels' with
    | nil => exact ⟨hl, h, rfl, rfl⟩
    | cons level' levels' => cases hl
  | cons level levels ih =>
    cases levels' with
    | nil => cases hl
    | cons level' levels' =>
      obtain ⟨price, list⟩ := level
      obtain ⟨price', list'⟩ := level'
      obtain ⟨hlevel, hlevels⟩ := List.cons.inj hl
      obtain ⟨hprice, hlist⟩ := Prod.mk.inj hlevel
      dsimp only at hprice
      cases hprice
      unfold fillLevels fillLevelsCalls
      split
      · exact ⟨hl, h, rfl, rfl⟩
      · dsimp only
        rw [h.tick]
        split
        · exact ⟨hl, ⟨h.main, rfl, h.events⟩, rfl, rfl⟩
        · have hsame : FillState.Same { st with tick := (st'.tick.allowTick info.order.side).2 }
              { st' with tick := (st'.tick.allowTick info.order.side).2 } := ⟨h.main, rfl, h.events⟩
          have hcalls : fillListCalls price list st.main = fillListCalls price list' st'.main := by
            rw [← h.main]
            exact fillListCalls_orders price hlist _
          have hnil : ([] : OrderList α).map Node.order = ([] : OrderList α).map Node.order := rfl
          obtain ⟨hleft, hst, hdone⟩ := fillList_orders price hlist hnil hsame
          rw [hcalls]
          generalize fillList price [] list _ = r at hleft hst hdone ⊢
          generalize fillList price [] list' _ = r' at hleft hst hdone ⊢
          obtain ⟨list1, st1, done⟩ := r
          obtain ⟨list1', st1', done'⟩ := r'
          dsimp only at hleft hst hdone
          subst hdone
          cases done with
          | true => exact ⟨congrArg₂ List.cons (Prod.ext rfl hleft) hlevels, hst, rfl, rfl⟩
          | false =>
            obtain ⟨h1, h2, h3, h4⟩ := ih hlevels hst
            exact ⟨congrArg₂ List.cons (Prod.ext rfl hleft) h1, h2, h3, congrArg _ h4⟩

/-! ## The loop passes over empty levels -/

/-- A loop that stops at its first level does nothing. -/
theorem fillLevels_idle (cmp : α → α → Bool) (info : OrderInfo α) (levels : List (α × OrderList α))
    {st : FillState α} (hset : st.tick.Settled)
    (h : (∀ price ∈ levels.map Prod.fst, cmp price info.price = false) ∨
      st.tick.allows info.order.side = false) :
    ∃ exit, exit.isFilled = false ∧ fillLevels cmp info levels st = (levels, st, exit) ∧
      fillLevelsCalls cmp info levels st = [] := by
  have htick : st.tick.allowTick info.order.side = (st.tick.allows info.order.side, st.tick) := by
    rw [Tick.allowTick, show st.tick.computeTick = st.tick from hset]
  cases levels with
  | nil => exact ⟨.exhausted, rfl, rfl, rfl⟩
  | cons level levels =>
    obtain ⟨price, list⟩ := level
    unfold fillLevels fillLevelsCalls
    split
    · exact ⟨.priceLimit, rfl, rfl, rfl⟩
    · rename_i hcmp
      have hallow : st.tick.allows info.order.side = false :=
        h.resolve_left fun hall => hcmp (by rw [hall price List.mem_cons_self]; rfl)
      rw [htick]
      simp only [hallow, Bool.not_false, if_true]
      exact ⟨.tickRefused, rfl, rfl, trivial⟩

/-- A level that does not use up the order leaves it active and the tick settled. -/
theorem fillList_open (price : α) {list list' : OrderList α} {st st' : FillState α} (hact : st.Active)
    (hset : st.tick.Settled) (h : fillList price [] list st = (list', st', false)) :
    st'.Active ∧ st'.tick.Settled := by
  obtain ⟨st1, hcalls, hend⟩ := fillList_calls price [] [] list [] st hact
  rw [h] at hend
  obtain ⟨hact', rfl⟩ := hend
  exact ⟨hact', hcalls.steps.settled hset⟩

theorem fillLevels_compact {lt : α → α → Prop} (cmp : α → α → Bool) (info : OrderInfo α)
    (hmono : ∀ a b, lt a b → cmp b info.price = true → cmp a info.price = true)
    {levels : List (α × OrderList α)} {st : FillState α} (hsorted : (levels.map Prod.fst).Pairwise lt)
    (hact : st.Active) (hset : st.tick.Settled) :
    let r := fillLevels cmp info levels st
    let r' := fillLevels cmp info (compact levels) st
    flat r.1 = flat r'.1 ∧ r.2.1 = r'.2.1 ∧ r.2.2.isFilled = r'.2.2.isFilled ∧
      fillLevelsCalls cmp info levels st = fillLevelsCalls cmp info (compact levels) st := by
  induction levels generalizing st with
  | nil => exact ⟨rfl, rfl, rfl, rfl⟩
  | cons level levels ih =>
    rw [List.map_cons, List.pairwise_cons] at hsorted
    have htick : st.tick.allowTick info.order.side = (st.tick.allows info.order.side, st.tick) := by
      rw [Tick.allowTick, show st.tick.computeTick = st.tick from hset]
    obtain ⟨price, list⟩ := level
    -- beyond the limit or the tick rule, neither loop does anything
    have hidle : (∀ p ∈ price :: levels.map Prod.fst, cmp p info.price = false) ∨
        st.tick.allows info.order.side = false →
        let r := fillLevels cmp info ((price, list) :: levels) st
        let r' := fillLevels cmp info (compact ((price, list) :: levels)) st
        flat r.1 = flat r'.1 ∧ r.2.1 = r'.2.1 ∧ r.2.2.isFilled = r'.2.2.isFilled ∧
          fillLevelsCalls cmp info ((price, list) :: levels) st =
            fillLevelsCalls cmp info (compact ((price, list) :: levels)) st := by
      intro h
      have hkeys : ∀ p ∈ (compact ((price, list) :: levels)).map Prod.fst,
          p ∈ price :: levels.map Prod.fst := fun p hp =>
        ((compact_sublist ((price, list) :: levels)).map Prod.fst).subset hp
      obtain ⟨exit, hexit, hloop, hcalls⟩ := fillLevels_idle cmp info ((price, list) :: levels) hset h
      obtain ⟨exit', hexit', hloop', hcalls'⟩ := fillLevels_idle cmp info
        (compact ((price, list) :: levels)) hset (h.imp_left fun hall p hp => hall p (hkeys p hp))
      rw [hloop, hloop', hcalls, hcalls']
      exact ⟨(flat_compact _).symm, rfl, hexit.trans hexit'.symm, rfl⟩
    by_cases hcmp : cmp price info.price = true
    · by_cases hallow : st.tick.allows info.order.side = true
      · cases list with
        | nil =>
          -- the loop finds nothing at the level and goes on
          have hgo : fillLevels cmp info ((price, []) :: levels) st =
              ((price, []) :: (fillLevels cmp info levels st).1,
                (fillLevels cmp info levels st).2) := by
            simp [fillLevels, hcmp, htick, hallow, fillList]
          have hcalls : fillLevelsCalls cmp info ((price, []) :: levels) st =
              fillLevelsCalls cmp info levels st := by
            simp [fillLevelsCalls, hcmp, htick, hallow, fillList, fillListCalls]
          rw [hgo, hcalls, compact]
          exact ih hsorted.2 hact hset
        | cons n list =>
          rw [compact]
          unfold fillLevels fillLevelsCalls
          simp only [hcmp, htick, hallow, Bool.not_true, Bool.false_eq_true, if_false]
          split
          · rename_i list' st' heq
            exact ⟨by rw [flat_cons, flat_cons, flat_compact], rfl, rfl, by simp only [heq]⟩
          · rename_i list' st' heq
            obtain ⟨hact', hset'⟩ := fillList_open price hact hset heq
            obtain ⟨h1, h2, h3, h4⟩ := ih hsorted.2 hact' hset'
            exact ⟨by rw [flat_cons, flat_cons, h1], h2, h3, by simp only [heq, h4]⟩
      · exact hidle (.inr (Bool.eq_false_iff.2 hallow))
    · refine hidle (.inl fun p hp => ?_)
      rcases List.mem_cons.1 hp with rfl | hp
      · exact Bool.eq_false_iff.2 hcmp
      · exact Bool.eq_false_iff.2 fun h => hcmp (hmono _ _ (hsorted.1 p hp) h)

/-! ## Similar levels -/

omit [Field α] [LinearOrder α] in
theorem sameLevels_compact {lt : α → α → Prop} [Std.Irrefl lt] {levels levels' : List (α × OrderList α)}
    (hs : (levels.map Prod.fst).Pairwise lt) (hs' : (levels'.map Prod.fst).Pairwise lt)
    (h : pricedOrders levels = pricedOrders levels') :
    SameLevels (compact levels) (compact levels') := by
  rw [pricedOrders_eq, pricedOrders_eq] at h
  have hkeys : ∀ ls : List (α × OrderList α),
      (ls.map fun l => (l.1, l.2.map Node.order)).map Prod.fst = ls.map Prod.fst := fun ls => by
    rw [List.map_map]
    rfl
  rw [SameLevels, ← compact_map, ← compact_map]
  exact compact_eq_of_flat ((hkeys levels).symm ▸ hs) ((hkeys levels').symm ▸ hs') h

theorem fillLevels_similar {lt : α → α → Prop} [Std.Irrefl lt] (cmp : α → α → Bool)
    (info : OrderInfo α)
    (hmono : ∀ a b, lt a b → cmp b info.price = true → cmp a info.price = true)
    {levels levels' : List (α × OrderList α)} (hs : (levels.map Prod.fst).Pairwise lt)
    (hs' : (levels'.map Prod.fst).Pairwise lt) (hl : pricedOrders levels = pricedOrders levels')
    {st st' : FillState α} (h : st.Same st') (hact : st.Active) (hset : st.tick.Settled) :
    let r := fillLevels cmp info levels st
    let r' := fillLevels cmp info levels' st'
    pricedOrders r.1 = pricedOrders r'.1 ∧ r.2.1.Same r'.2.1 ∧
      r.2.2.isFilled = r'.2.2.isFilled ∧
      fillLevelsCalls cmp info levels st = fillLevelsCalls cmp info levels' st' := by
  have hact' : st'.Active := by rwa [FillState.Active, ← h.main]
  obtain ⟨h1, h2, h3, h4⟩ := fillLevels_compact cmp info hmono hs hact hset
  obtain ⟨h1', h2', h3', h4'⟩ := fillLevels_compact cmp info hmono hs' hact' (h.tick ▸ hset)
  obtain ⟨hlevels, hst, hexit, hcalls⟩ :=
    fillLevels_orders cmp info (sameLevels_compact hs hs' hl) h
  refine ⟨?_, ?_, ?_, ?_⟩
  · rw [pricedOrders, pricedOrders, h1, h1']
    exact (pricedOrders_eq _).trans ((congrArg flat hlevels).trans (pricedOrders_eq _).symm)
  · rw [h2, h2']
    exact hst
  · rw [h3, h3', hexit]
  · rw [h4, h4', hcalls]

/-- The part of the incoming order that is left unreported on a refused tick. -/
def Exit.Silent (exit : Exit) (info : OrderInfo α) (left : α) : Prop :=
  exit = .tickRefused ∧ left ≠ info.order.originalQty

theorem fillEnd_left (info : OrderInfo α) (st : FillState α) (exit : Exit) :
    (fillEnd info st exit).2 = if exit.isFilled then (0, 0)
      else (st.main.order.remainQty, st.main.order.avgPrice) := by
  cases exit <;> rfl

theorem fillEnd_tick (info : OrderInfo α) (st : FillState α) (exit : Exit) :
    (fillEnd info st exit).1.tick = st.tick := by
  cases exit with
  | filled | tickRefused => rfl
  | priceLimit | exhausted =>
    simp only [fillEnd]
    split <;> rfl

/-- A loop that leaves something unfilled reports it, unless it ends silently or nothing was filled. -/
theorem fillEnd_events (info : OrderInfo α) (st : FillState α) {exit : Exit}
    (h : exit.isFilled = false) : (fillEnd info st exit).1.events =
      if exit ≠ .tickRefused ∧ st.main.order.remainQty ≠ info.order.originalQty
      then st.events ++ [{ st.main with execStatus := .partiallyFilled }] else st.events := by
  cases exit with
  | filled => cases h
  | tickRefused => rfl
  | priceLimit | exhausted =>
    simp only [fillEnd, ne_eq, reduceCtorEq, not_false_eq_true, true_and]
    split <;> rfl

theorem fillOnBook_similar {lt : α → α → Prop} [Std.Irrefl lt] (cmp : α → α → Bool)
    {book book' : SortedMap α (OrderList α) lt} (info : OrderInfo α)
    (hmono : ∀ a b, lt a b → cmp b info.price = true → cmp a info.price = true)
    (hl : pricedOrders book.entries = pricedOrders book'.entries) {st st' : FillState α}
    (h : st.Same st') (hact : st.Active) (hset : st.tick.Settled) :
    let r := fillOnBook cmp book info st
    let r' := fillOnBook cmp book' info st'
    pricedOrders r.book.entries = pricedOrders r'.book.entries ∧ r.st.tick = r'.st.tick ∧
      r.left = r'.left ∧
      fillLevelsCalls cmp info book.entries st = fillLevelsCalls cmp info book'.entries st' ∧
      (r.st.events = r'.st.events ↔
        ((fillExit cmp book info st).Silent info r.left.1 ↔
          (fillExit cmp book' info st').Silent info r'.left.1)) := by
  obtain ⟨hlevels, hst, hexit, hcalls⟩ :=
    fillLevels_similar cmp info hmono book.sorted book'.sorted hl h hact hset
  simp only [fillOnBook, fillExit, SortedMap.revalue]
  generalize fillLevels cmp info book.entries st = r at hlevels hst hexit ⊢
  generalize fillLevels cmp info book'.entries st' = r' at hlevels hst hexit ⊢
  obtain ⟨levels, st1, exit⟩ := r
  obtain ⟨levels', st1', exit'⟩ := r'
  dsimp only at hlevels hst hexit ⊢
  rw [fillEnd_left, fillEnd_left, fillEnd_tick, fillEnd_tick, ← hexit, ← hst.main]
  refine ⟨hlevels, hst.tick, rfl, hcalls, ?_⟩
  cases hfilled : exit.isFilled with
  | true =>
    have he : exit = .filled := by
      cases exit <;> first | rfl | cases hfilled
    have he' : exit' = .filled := by
      rw [hfilled] at hexit
      cases exit' <;> first | rfl | cases hexit
    subst he he'
    exact iff_of_true hst.events (iff_of_false (fun h => by cases h.1) fun h => by cases h.1)
  | false =>
    rw [fillEnd_events info st1 hfilled, fillEnd_events info st1' (hexit ▸ hfilled), ← hst.main,
      ← hst.events]
    simp only [Exit.Silent, Bool.false_eq_true, if_false]
    by_cases hq : st1.main.order.remainQty = info.order.originalQty
    · simp [hq]
    · by_cases he : exit = .tickRefused <;> by_cases he' : exit' = .tickRefused <;>
        simp [he, he', hq]

omit [Field α] [LinearOrder α] in
theorem pricedOrders_upsert {lt : α → α → Prop} [DecidableRel lt] [IsTrans α lt] [Std.Irrefl lt]
    (htri : ∀ a b : α, ¬ lt a b → ¬ lt b a → a = b) {levels : List (α × OrderList α)}
    (hs : (levels.map Prod.fst).Pairwise lt) (price : α) (n : Node α) :
    pricedOrders (upsertList lt price [] (· ++ [n]) levels) =
      ((pricedOrders levels).takeWhile fun x => ¬ lt price x.1) ++
        (price, n.order) :: (pricedOrders levels).dropWhile fun x => ¬ lt price x.1 := by
  rw [pricedOrders, flat_upsert_eq htri hs, pricedOrders, List.takeWhile_map, List.dropWhile_map,
    List.map_append, List.map_cons]
  rfl

/-- The same order put at the end of its level, or nothing. -/
theorem addToBook_similar {lt : α → α → Prop} [DecidableRel lt] [IsTrans α lt] [Std.Irrefl lt]
    (htri : ∀ a b : α, ¬ lt a b → ¬ lt b a → a = b) {x x' book book' : SortedMap α (OrderList α) lt}
    {m m' idmap idmap' : OrderIdMap α} {info : OrderInfo α} {next next' : Nat} {left : α × α}
    (hl : pricedOrders book.entries = pricedOrders book'.entries)
    (hx : (x, m) = if left.1 ≠ 0 then
      addToBook book idmap info.price ⟨next, OrderBook.restingOrder info left⟩ else (book, idmap))
    (hx' : (x', m') = if left.1 ≠ 0 then
      addToBook book' idmap' info.price ⟨next', OrderBook.restingOrder info left⟩
      else (book', idmap')) : pricedOrders x.entries = pricedOrders x'.entries := by
  by_cases hz : left.1 ≠ 0
  · rw [if_pos hz, addToBook, Prod.mk.injEq] at hx hx'
    rw [hx.1, hx'.1, SortedMap.upsert, SortedMap.upsert, pricedOrders_upsert htri book.sorted,
      pricedOrders_upsert htri book'.sorted, hl]
  · rw [if_neg hz, Prod.mk.injEq] at hx hx'
    rw [hx.1, hx'.1, hl]

/-! ## Adding -/

/-- The silent end of an `add`. -/
theorem silent_iff {ob : OrderBook α} (i : NewOrderInput α) (hset : ob.tick.Settled)
    (hallow : ob.tick.allows i.side = true) :
    (ob.exit i.info).Silent i.info (ob.unmatched i.info) ↔ ob.tickStops i = true :=
  add_tickRefused i hset hallow

theorem OrderBook.Similar.add {a b a' b' : OrderBook α} (h : a.Similar b) (i : NewOrderInput α)
    (hset : a.tick.Settled) (hallow : a.tick.allows i.side = true) (ha : a.add i.info = .ok a')
    (hb : b.add i.info = .ok b') (hra : RepInv a') (hrb : RepInv b') :
    a.fillCalls i.info = b.fillCalls i.info ∧
      (a'.Similar b' ↔ a.tickStops i = b.tickStops i) := by
  have hstop := silent_iff i hset hallow
  have hstop' := silent_iff i (h.tick ▸ hset) (h.tick ▸ hallow)
  have hsame : ∀ m m' : OrderIdMap α, (a.fillState m i.info).Same (b.fillState m' i.info) :=
    fun _ _ => ⟨rfl, h.tick, h.eventOutput⟩
  have hact : ∀ m, (a.fillState m i.info).Active := fun _ h0 => h0
  -- the events agree exactly when both ends are silent or neither is
  have hiff : ∀ {x y : Prop}, (x ↔ a.tickStops i = true) → (y ↔ b.tickStops i = true) →
      ((x ↔ y) ↔ a.tickStops i = b.tickStops i) := fun hx hy => by
    rw [hx, hy]
    cases a.tickStops i <;> cases b.tickStops i <;> simp
  rcases Bool.or_eq_true_iff.1 i.supported with hbid | hask
  · have hbid' : i.info.order.side.isBid = true := hbid
    obtain ⟨h1, h2, h3, h4, h5⟩ := fillOnBook_similar (fun a b => a ≤ b) i.info
      (fun a b hlt hle => decide_eq_true (hlt.le.trans (of_decide_eq_true hle))) h.asks
      (hsame a.askId b.askId) (hact _) hset
    obtain ⟨hopp, -, htick, hev, -, hown⟩ := add_bid hbid' ha
    obtain ⟨hopp', -, htick', hev', -, hown'⟩ := add_bid hbid' hb
    rw [OrderBook.exit, OrderBook.unmatched, if_pos hbid', if_pos hbid'] at hstop hstop'
    rw [OrderBook.fillCalls, OrderBook.fillCalls, if_pos hbid', if_pos hbid']
    rw [← h3] at hown'
    refine ⟨h4, ?_⟩
    rw [← hiff hstop hstop', ← h5, ← hev, ← hev']
    refine ⟨fun hs => hs.eventOutput, fun he => ⟨?_, he, ?_, ?_, hra, hrb⟩⟩
    · rw [htick, htick', h2]
    · rw [hopp, hopp', h1]
    · exact addToBook_similar (fun a b h1 h2 => eq_of_not_lt_of_not_gt a b h2 h1) h.bids hown hown'
  · have hnb : ¬ i.info.order.side.isBid = true := by
      simp [Side.isBid_of_isAsk (show i.info.order.side.isAsk = true from hask)]
    have hask' : i.info.order.side.isAsk = true := hask
    obtain ⟨h1, h2, h3, h4, h5⟩ := fillOnBook_similar (fun a b => a ≥ b) i.info
      (fun a b hgt hge => decide_eq_true (le_trans (of_decide_eq_true hge) (le_of_lt hgt))) h.bids
      (hsame a.bidId b.bidId) (hact _) hset
    obtain ⟨hopp, -, htick, hev, -, hown⟩ := add_ask hask' ha
    obtain ⟨hopp', -, htick', hev', -, hown'⟩ := add_ask hask' hb
    rw [OrderBook.exit, OrderBook.unmatched, if_neg hnb, if_neg hnb] at hstop hstop'
    rw [OrderBook.fillCalls, OrderBook.fillCalls, if_neg hnb, if_neg hnb, if_pos hask', if_pos hask']
    rw [← h3] at hown'
    refine ⟨h4, ?_⟩
    rw [← hiff hstop hstop', ← h5, ← hev, ← hev']
    refine ⟨fun hs => hs.eventOutput, fun he => ⟨?_, he, ?_, ?_, hra, hrb⟩⟩
    · rw [htick, htick', h2]
    · exact addToBook_similar eq_of_not_lt_of_not_gt h.asks hown hown'
    · rw [hopp, hopp', h1]

/-! ## Reading and cancelling by id -/

omit [Field α] in
/-- What the indexes of two sides with the same orders give for an id: nothing, or the same order at
the same price. -/
theorem index_similar {lt : α → α → Prop} [Std.Irrefl lt] {book book' : SortedMap α (OrderList α) lt}
    {idmap idmap' : OrderIdMap α} {next next' : Nat} {onSide : Side → Bool}
    (hc : CellsInv (flat book.entries) idmap next onSide)
    (hc' : CellsInv (flat book'.entries) idmap' next' onSide)
    (hl : pricedOrders book.entries = pricedOrders book'.entries) (id : OrderId) :
    (idmap id = none ∧ idmap' id = none) ∨ ∃ info info' o, idmap id = some info ∧
      idmap' id = some info' ∧ info.price = info'.price ∧
      OrderBook.derefInfo book info = .ok o ∧ OrderBook.derefInfo book' info' = .ok o := by
  -- an id of the one book is one of the other
  have hfind : ∀ {b b' : SortedMap α (OrderList α) lt} {m m' : OrderIdMap α} {k k' : Nat},
      CellsInv (flat b.entries) m k onSide → CellsInv (flat b'.entries) m' k' onSide →
      pricedOrders b.entries = pricedOrders b'.entries → ∀ {info}, m id = some info →
      ∃ o info', OrderBook.derefInfo b info = .ok o ∧ m' id = some info' ∧
        info'.price = info.price ∧ OrderBook.derefInfo b' info' = .ok o := by
    intro b b' m m' k k' hb hb' hp info hi
    obtain ⟨-, l, r, n, -, hderef, hid, hflat, -⟩ := cancelOrder_spec hb hi
    have hm : (info.price, n.order) ∈ pricedOrders b'.entries := by
      rw [← hp, pricedOrders, hflat]
      simp
    obtain ⟨y, hy, he⟩ := List.mem_map.1 hm
    obtain ⟨hprice, horder⟩ := Prod.mk.inj he
    have hi' := hb'.indexed hy
    rw [horder, hid] at hi'
    obtain ⟨-, l', r', n', -, hderef', hid', hflat', -⟩ := cancelOrder_spec hb' hi'
    have hsame : (y.1, n') = y := List.inj_on_of_nodup_map hb'.ids (by rw [hflat']; simp) hy (by
      rw [hid', horder, hid])
    refine ⟨n.order, _, hderef, hi', hprice, ?_⟩
    rw [hderef', ← horder]
    exact congrArg Except.ok (congrArg (fun x : α × Node α => x.2.order) hsame)
  cases hi : idmap id with
  | some info =>
    obtain ⟨o, info', hderef, hi', hprice, hderef'⟩ := hfind hc hc' hl hi
    exact .inr ⟨info, info', o, rfl, hi', hprice.symm, hderef, hderef'⟩
  | none =>
    cases hi' : idmap' id with
    | none => exact .inl ⟨rfl, rfl⟩
    | some info' =>
      obtain ⟨-, info, -, hi0, -⟩ := hfind hc' hc hl.symm hi'
      rw [hi] at hi0
      cases hi0

namespace OrderBook.Similar

omit [Field α]
variable {a b a' b' : OrderBook α}

/-- The id maps are the same up to positions. -/
theorem ids (h : a.Similar b) (id : OrderId) :
    (a.askId id).map OrderIdInfo.price = (b.askId id).map OrderIdInfo.price ∧
      (a.bidId id).map OrderIdInfo.price = (b.bidId id).map OrderIdInfo.price := by
  constructor
  · rcases index_similar h.left.ask h.right.ask h.asks id with ⟨ha, hb⟩ | ⟨_, _, _, ha, hb, hp, -⟩
    · rw [ha, hb]
    · rw [ha, hb, Option.map_some, Option.map_some, hp]
  · rcases index_similar h.left.bid h.right.bid h.bids id with ⟨ha, hb⟩ | ⟨_, _, _, ha, hb, hp, -⟩
    · rw [ha, hb]
    · rw [ha, hb, Option.map_some, Option.map_some, hp]

theorem isSome (h : a.Similar b) (id : OrderId) :
    (a.askId id).isSome = (b.askId id).isSome ∧ (a.bidId id).isSome = (b.bidId id).isSome := by
  obtain ⟨h1, h2⟩ := h.ids id
  have h1' := congrArg Option.isSome h1
  have h2' := congrArg Option.isSome h2
  simp only [Option.isSome_map] at h1' h2'
  exact ⟨h1', h2'⟩

theorem has (h : a.Similar b) (id : OrderId) : a.has id = b.has id := by
  rw [OrderBook.has, OrderBook.has, (h.isSome id).1, (h.isSome id).2]

theorem getOrder (h : a.Similar b) (id : OrderId) : a.getOrder id = b.getOrder id := by
  unfold OrderBook.getOrder
  rcases index_similar h.left.bid h.right.bid h.bids id with
    ⟨ha, hb⟩ | ⟨_, _, _, ha, hb, -, hda, hdb⟩
  · rw [ha, hb]
    rcases index_similar h.left.ask h.right.ask h.asks id with
      ⟨ha, hb⟩ | ⟨_, _, _, ha, hb, -, hda, hdb⟩
    · rw [ha, hb]
    · rw [ha, hb]
      exact hda.trans hdb.symm
  · rw [ha, hb]
    exact hda.trans hdb.symm

theorem verify (h : a.Similar b) (id : OrderId) (qty : α) (side : Side) :
    Cancel.verifyOrderStateWithLock a id qty side = Cancel.verifyOrderStateWithLock b id qty side := by
  rw [Cancel.verifyOrderStateWithLock, Cancel.verifyOrderStateWithLock, OrderBook.hasSide,
    OrderBook.hasSide, (h.isSome id).1, (h.isSome id).2, h.getOrder]

end OrderBook.Similar

section
omit [Field α]

omit [LinearOrder α] in
/-- A side without its order of a given id. -/
theorem pricedOrders_remove {levels levels' : List (α × OrderList α)} {idmap : OrderIdMap α}
    {next : Nat} {onSide : Side → Bool} {l r : List (α × Node α)} {x : α × Node α}
    (hc : CellsInv (flat levels) idmap next onSide) (hbefore : flat levels = l ++ x :: r)
    (hafter : flat levels' = l ++ r) : pricedOrders levels' =
      (pricedOrders levels).filter fun y => y.2.orderId ≠ x.2.order.orderId := by
  have hnd := hc.ids
  rw [hbefore, List.map_append, List.map_cons, List.nodup_middle, ← List.map_append] at hnd
  have hkeep : ∀ {z : List (α × Node α)}, z ⊆ l ++ r →
      (z.map fun y => (y.1, y.2.order)).filter (fun y => y.2.orderId ≠ x.2.order.orderId) =
        z.map fun y => (y.1, y.2.order) := by
    intro z hz
    refine List.filter_eq_self.2 fun y hy => ?_
    obtain ⟨w, hw, rfl⟩ := List.mem_map.1 hy
    have hne : w.2.order.orderId ≠ x.2.order.orderId := fun he =>
      (List.nodup_cons.1 hnd).1 (List.mem_map.2 ⟨w, hz hw, he⟩)
    simpa using hne
  rw [pricedOrders, pricedOrders, hbefore, hafter, List.map_append, List.map_append, List.map_cons,
    List.filter_append, List.filter_cons, hkeep (List.subset_append_left _ _),
    hkeep (List.subset_append_right _ _)]
  simp

omit [LinearOrder α] in
/-- A side that does not have the id. -/
theorem pricedOrders_without {levels : List (α × OrderList α)} {idmap : OrderIdMap α} {next : Nat}
    {onSide : Side → Bool} {id : OrderId} (hc : CellsInv (flat levels) idmap next onSide)
    (hid : idmap id = none) :
    pricedOrders levels = (pricedOrders levels).filter fun y => y.2.orderId ≠ id := by
  refine (List.filter_eq_self.2 fun y hy => ?_).symm
  obtain ⟨w, hw, rfl⟩ := List.mem_map.1 hy
  have hne : w.2.order.orderId ≠ id := fun he => by
    have hsome := hc.indexed hw
    rw [he, hid] at hsome
    cases hsome
  simpa using hne

/-- A cancel takes the order with its id off both sides. -/
theorem Removes.orders {ob ob' : OrderBook α} {o : Order α} (hrep : RepInv ob)
    (h : Removes ob ob' o) :
    pricedOrders ob'.askBook.entries =
        (pricedOrders ob.askBook.entries).filter (fun y => y.2.orderId ≠ o.orderId) ∧
      pricedOrders ob'.bidBook.entries =
        (pricedOrders ob.bidBook.entries).filter (fun y => y.2.orderId ≠ o.orderId) ∧
      ob'.tick = ob.tick ∧ ob'.eventOutput = ob.eventOutput := by
  cases h with
  | ask l r price n order before after ids rest =>
    subst order
    obtain ⟨hbook, -, htick, hev, -⟩ := rest
    have hx := hrep.ask.indexed (x := (price, n)) (before ▸ by simp)
    have hnone := (hrep.disjoint n.order.orderId).resolve_left (by rw [hx]; simp)
    refine ⟨pricedOrders_remove hrep.ask before after, ?_, htick, hev⟩
    rw [hbook]
    exact pricedOrders_without hrep.bid hnone
  | bid l r price n order before after ids rest =>
    subst order
    obtain ⟨hbook, -, htick, hev, -⟩ := rest
    have hx := hrep.bid.indexed (x := (price, n)) (before ▸ by simp)
    have hnone := (hrep.disjoint n.order.orderId).resolve_right (by rw [hx]; simp)
    refine ⟨?_, pricedOrders_remove hrep.bid before after, htick, hev⟩
    rw [hbook]
    exact pricedOrders_without hrep.ask hnone

theorem OrderBook.Similar.removes {a b a' b' : OrderBook α} {o : Order α} (h : a.Similar b)
    (ha : Removes a a' o) (hb : Removes b b' o) : a'.Similar b' := by
  obtain ⟨h1, h2, h3, h4⟩ := ha.orders h.left
  obtain ⟨h1', h2', h3', h4'⟩ := hb.orders h.right
  refine ⟨?_, ?_, ?_, ?_, h.left.removes ha, h.right.removes hb⟩
  · rw [h3, h3', h.tick]
  · rw [h4, h4', h.eventOutput]
  · rw [h1, h1', h.asks]
  · rw [h2, h2', h.bids]

end

/-! ## Runs -/

namespace Twin

theorem step_eq {t : Twin α} {op : Worker.Op α} {a b : OrderBook α}
    (ha : Worker.step t.left op = some a) (hb : Worker.step t.right op = some b) :
    t.step op = some ⟨a, b⟩ := by
  simp only [step, ha, hb, Option.bind_eq_bind, Option.bind_some]
  rfl

theorem tickStops_allowTick (ob : OrderBook α) (side : Side) (i : NewOrderInput α) :
    (ob.allowTick side).2.tickStops i = ob.tickStops i := by
  simp only [OrderBook.tickStops, OrderBook.allowTick, Tick.allowTick, Tick.computeTick_lastprice]

/-- One request. -/
theorem step_spec {t : Twin α} (h : t.left.Similar t.right) (op : Worker.Op α) :
    Worker.seen t.left op = Worker.seen t.right op ∧
      ∃ t', t.step op = some t' ∧ (t'.left.Similar t'.right ↔ t.SameStop op) := by
  obtain ⟨a', ha, hra⟩ := h.left.step op
  obtain ⟨b', hb, hrb⟩ := h.right.step op
  cases op with
  | newOrder i =>
    have htick : ∀ side, (t.left.allowTick side).2.Similar (t.right.allowTick side).2 := fun side =>
      ⟨congrArg Tick.computeTick h.tick, h.eventOutput, h.asks, h.bids, h.left.allowTick side,
        h.right.allowTick side⟩
    have hverdict : (NewOrder.verdict t.left i.info).1 = (NewOrder.verdict t.right i.info).1 := by
      have hallow : (t.left.allowTick i.info.order.side).1 = (t.right.allowTick i.info.order.side).1 :=
        congrArg (fun tick => (tick.allowTick i.info.order.side).1) h.tick
      simp only [NewOrder.verdict, hallow, (htick _).has]
    rw [Worker.seen, Worker.seen, Worker.fillCalls_newOrder, Worker.fillCalls_newOrder, ← hverdict]
    rcases Worker.step_newOrder ha with ⟨hv, rfl⟩ | ⟨hv, hallow, -, hadd⟩
    · rcases Worker.step_newOrder hb with ⟨-, rfl⟩ | ⟨hv', -⟩
      · rw [if_neg hv, if_neg hv]
        exact ⟨rfl, _, step_eq ha hb, iff_of_true (htick i.side) fun hacc => absurd hacc hv⟩
      · exact absurd (hverdict.trans hv') hv
    · rcases Worker.step_newOrder hb with ⟨hv', -⟩ | ⟨-, -, -, hadd'⟩
      · exact absurd (hverdict.symm.trans hv) hv'
      · obtain ⟨hcalls, hiff⟩ := (htick i.side).add i (Tick.settled_computeTick _) hallow hadd hadd'
          hra hrb
        rw [if_pos hv, if_pos hv, hcalls]
        refine ⟨rfl, _, step_eq ha hb, hiff.trans ?_⟩
        rw [tickStops_allowTick, tickStops_allowTick]
        exact ⟨fun he _ => he, fun he => he hv⟩
  | cancel i =>
    have hverify := h.verify i.origClOrdId i.orderQty i.side
    refine ⟨?_, _, step_eq ha hb, iff_of_true ?_ trivial⟩
    · simp only [Worker.seen, hverify, Worker.fillCalls]
    · rcases Worker.step_cancel ha with ⟨⟨r, hr⟩, rfl⟩ | ⟨o, hv, hok⟩
      · rcases Worker.step_cancel hb with ⟨-, rfl⟩ | ⟨o', hv', -⟩
        · exact h
        · rw [← hverify, hr] at hv'
          cases hv'
      · rcases Worker.step_cancel hb with ⟨⟨r, hr⟩, -⟩ | ⟨o', hv', hok'⟩
        · rw [← hverify, hv] at hr
          cases hr
        · rw [← hverify, hv] at hv'
          cases hv'
          obtain ⟨a1, hok1, -, -, -, -, hrem⟩ := h.left.cancel_verified hv
          obtain ⟨b1, hok1', -, -, -, -, hrem'⟩ := h.right.cancel_verified (hverify ▸ hv)
          rw [hok] at hok1
          rw [hok'] at hok1'
          cases hok1
          cases hok1'
          exact h.removes hrem hrem'

end Twin

end

/-- A trade at 10, then a sell of one at 5; the other book has had a sell at 8 cancelled besides. -/
def plainRequests : List (Worker.Op ℚ) :=
  [.newOrder ⟨"A", "e1", "s1", 10, 1, .sell, Side.supported_sell⟩,
    .newOrder ⟨"B", "e2", "b1", 10, 1, .buy, Side.supported_buy⟩,
    .newOrder ⟨"A", "e3", "s2", 5, 1, .sell, Side.supported_sell⟩]

def cancelledRequests : List (Worker.Op ℚ) :=
  plainRequests ++
    [.newOrder ⟨"A", "e4", "s3", 8, 1, .sell, Side.supported_sell⟩,
      .cancel ⟨"e5", "c1", "s3", 1, .sell, Side.supported_sell⟩]

def runRequests (ops : List (Worker.Op ℚ)) : Option (OrderBook ℚ) :=
  Trans.exec Worker.step (fun _ _ => True) (OrderBook.new "AAPL") ops

theorem similar_books : ∃ a b : OrderBook ℚ, runRequests plainRequests = some a ∧
    runRequests cancelledRequests = some b ∧ Worker.Reachable "AAPL" a ∧
    Worker.Reachable "AAPL" b ∧ a.Similar b ∧
    a.askBook.entries.length = 2 ∧ b.askBook.entries.length = 3 := by
  have h : ((runRequests plainRequests).bind fun a => (runRequests cancelledRequests).map fun b =>
      decide (a.tick = b.tick ∧ a.eventOutput = b.eventOutput ∧
        pricedOrders a.askBook.entries = pricedOrders b.askBook.entries ∧
        pricedOrders a.bidBook.entries = pricedOrders b.bidBook.entries ∧
        a.askBook.entries.length = 2 ∧ b.askBook.entries.length = 3)) = some true := by
    decide +kernel
  obtain ⟨a, ha, h⟩ := Option.bind_eq_some_iff.1 h
  obtain ⟨b, hb, h⟩ := Option.map_eq_some_iff.1 h
  obtain ⟨htick, hev, hasks, hbids, hla, hlb⟩ := of_decide_eq_true h
  have hra := Trans.Run.of_exec .start ha
  have hrb := Trans.Run.of_exec .start hb
  exact ⟨a, b, ha, hb, hra, hrb, ⟨htick, hev, hasks, hbids, repInv_of_reachable hra,
    repInv_of_reachable hrb⟩, hla, hlb⟩

end Fix42
