import Fix42.Book.Proof.Rep

/-!
# Reads through handles

Which cells the order book reads after erasing them. `fillLevels_lookups`: the matching loop reads
an erased order exactly when the first order it matches is used up, since a resting order that
outlasts the incoming one ends the loop. A cancel that goes through always reads its erased id-map
entry (`RepInv.cancel`). `HandlesLive` is the condition on a request under which neither happens,
and `lookups_live_iff` says it is exact.
-/

namespace Fix42

open SortedMap

variable {α : Type*}

/-! ## The first match -/

/-- The first order of another user within the limit, in the order of the matching loop. -/
def firstMatch (cmp : α → α → Bool) (levels : List (α × OrderList α)) (user : UserId)
    (limit : α) : Option (α × Node α) :=
  (flat (levels.takeWhile fun l => cmp l.1 limit)).find? fun x => x.2.order.userId ≠ user

def OrderBook.firstMatch [LinearOrder α] (ob : OrderBook α) (i : NewOrderInput α) :
    Option (α × Node α) :=
  if i.side.isBid then Fix42.firstMatch (fun a b => a ≤ b) ob.askBook.entries i.userId i.price
  else Fix42.firstMatch (fun a b => a ≥ b) ob.bidBook.entries i.userId i.price

/-- Every read through a handle of this log hit a live cell. -/
def Live (ls : List Lookup) : Prop := ∀ l ∈ ls, l.live = true

theorem live_append {ls ls' : List Lookup} : Live (ls ++ ls') ↔ Live ls ∧ Live ls' :=
  List.forall_mem_append

/-! ## The loops -/

theorem deref_isSome {list : OrderList α} {n : Node α} (h : n ∈ list) :
    (deref list n.addr).isSome = true := by
  simp only [deref, Option.isSome_map, List.find?_isSome, decide_eq_true_eq]
  exact ⟨n, h, rfl⟩

theorem deref_isNone {list : OrderList α} {addr : Nat} (h : ∀ n ∈ list, n.addr ≠ addr) :
    (deref list addr).isSome = false := by
  simpa [deref] using h

section
variable [Field α] [LinearOrder α]

/-- Orders of the incoming order's user are read and left alone. -/
theorem fillList_skips (price : α) : ∀ (skip kept rest : OrderList α) (st : FillState α),
    (∀ n ∈ skip, n.order.userId = st.main.order.userId) →
    ∃ ls, Live ls ∧ fillList price kept (skip ++ rest) st =
      fillList price (kept ++ skip) rest { st with lookups := st.lookups ++ ls }
  | [], kept, rest, st, _ => ⟨[], by simp [Live], by simp⟩
  | n :: skip, kept, rest, st, h => by
    have hn : n.order.userId = st.main.order.userId := h n (by simp)
    obtain ⟨ls, hlive, heq⟩ := fillList_skips price skip (kept ++ [n]) rest
      (st.note .fillOrder (deref (kept ++ n :: (skip ++ rest)) n.addr).isSome)
      fun m hm => h m (by simp [hm])
    refine ⟨⟨.fillOrder, (deref (kept ++ n :: (skip ++ rest)) n.addr).isSome⟩ :: ls, ?_, ?_⟩
    · intro l hl
      rcases List.mem_cons.1 hl with rfl | hl
      · exact deref_isSome (by simp)
      · exact hlive l hl
    · rw [List.cons_append, fillList_skip hn, heq]
      simp [FillState.note]

theorem fillList_lookups (price : α) : ∀ (rest kept : OrderList α) (st : FillState α),
    ∃ ls, (fillList price kept rest st).2.1.lookups = st.lookups ++ ls
  | [], kept, st => ⟨[], by simp [fillList]⟩
  | n :: rest, kept, st => by
    by_cases hu : n.order.userId = st.main.order.userId
    · rw [fillList_skip hu]
      obtain ⟨ls, h⟩ := fillList_lookups price rest (kept ++ [n])
        (st.note .fillOrder (deref (kept ++ n :: rest) n.addr).isSome)
      exact ⟨_, h.trans (List.append_assoc _ _ _)⟩
    · rw [fillList_fill hu]
      dsimp only
      split
      · exact ⟨_, rfl⟩
      · obtain ⟨ls, h⟩ := fillList_lookups price rest (kept ++ st.kept price n)
          { st.fill price n with lookups := st.lookups ++ st.seen price kept n rest }
        exact ⟨_, h.trans (List.append_assoc _ _ _)⟩

theorem fillLevels_lookups_append (cmp : α → α → Bool) (info : OrderInfo α) :
    ∀ (levels : List (α × OrderList α)) (st : FillState α),
      ∃ ls, (fillLevels cmp info levels st).2.1.lookups = st.lookups ++ ls
  | [], st => ⟨[], by simp [fillLevels]⟩
  | (price, list) :: levels, st => by
    unfold fillLevels
    split
    · exact ⟨[], by simp⟩
    · dsimp only
      split
      · exact ⟨[], by simp⟩
      · obtain ⟨ls, h⟩ := fillList_lookups price list []
          { st with tick := (st.tick.allowTick info.order.side).2 }
        split
        · rename_i heq
          rw [heq] at h
          exact ⟨ls, h⟩
        · rename_i st' heq
          rw [heq] at h
          obtain ⟨ls', h'⟩ := fillLevels_lookups_append cmp info levels st'
          exact ⟨ls ++ ls', by rw [h', h, List.append_assoc]⟩

/-- At the first match: either it outlasts the incoming order and the loop ends with live reads, or
it is used up and read after its erasure. -/
theorem fillList_match (price : α) {kept rest : OrderList α} {n : Node α} (st : FillState α)
    (hu : n.order.userId ≠ st.main.order.userId) (ha : ∀ m ∈ kept ++ rest, m.addr ≠ n.addr) :
    if st.main.order.remainQty < n.order.remainQty then
      (fillList price kept (n :: rest) st).2.2 = true ∧ ∃ ls, Live ls ∧
        (fillList price kept (n :: rest) st).2.1.lookups = st.lookups ++ ls
    else ∃ ls, ¬ Live ls ∧
      (fillList price kept (n :: rest) st).2.1.lookups = st.lookups ++ ls := by
  have hstatus := fillOrder_status price hu
  rw [fillList_fill hu]
  split
  · rename_i hlt
    have hmin : min n.order.remainQty st.main.order.remainQty = st.main.order.remainQty :=
      min_eq_right hlt.le
    rw [hmin, if_neg (sub_ne_zero.2 hlt.ne')] at hstatus
    have hz : (st.fill price n).main.order.remainQty = 0 := by
      simp [FillState.fill, fillOrder, hu, hmin]
    simp only [hz, if_true, true_and]
    refine ⟨st.seen price kept n rest, ?_, rfl⟩
    simp [FillState.seen, hstatus, Live, deref_isSome]
  · rename_i hle
    have hmin : min n.order.remainQty st.main.order.remainQty = n.order.remainQty :=
      min_eq_left (not_lt.1 hle)
    rw [hmin, sub_self, if_pos rfl] at hstatus
    have hdead : ¬ Live (st.seen price kept n rest) := by
      simp [FillState.seen, hstatus, Live, deref_isNone ha]
    dsimp only
    split
    · exact ⟨_, hdead, rfl⟩
    · obtain ⟨ls, h⟩ := fillList_lookups price rest (kept ++ st.kept price n)
        { st.fill price n with lookups := st.lookups ++ st.seen price kept n rest }
      exact ⟨_, fun hl => hdead (live_append.1 hl).1, h.trans (List.append_assoc _ _ _)⟩

/-- **The matching loop** reads live cells only iff its first match, if any, outlasts the incoming
order. -/
theorem fillLevels_lookups (cmp : α → α → Bool) (info : OrderInfo α) :
    ∀ (levels : List (α × OrderList α)) (st : FillState α),
      (st.tick.allowTick info.order.side).1 = true →
      ((flat levels).map fun x => x.2.addr).Nodup →
      ∃ ls, (fillLevels cmp info levels st).2.1.lookups = st.lookups ++ ls ∧ (Live ls ↔
        ∀ x, firstMatch cmp levels st.main.order.userId info.price = some x →
          st.main.order.remainQty < x.2.order.remainQty)
  | [], st, _, _ => ⟨[], by simp [fillLevels], by simp [Live, firstMatch]⟩
  | (price, list) :: levels, st, hallow, haddr => by
    unfold fillLevels firstMatch
    rw [List.takeWhile_cons]
    cases hcmp : cmp price info.price with
    | false => exact ⟨[], by simp, by simp [Live]⟩
    | true =>
      rw [flat_cons, List.map_append, List.map_map] at haddr
      simp only [Bool.not_true, Bool.false_eq_true, if_false, if_true, hallow, flat_cons,
        List.find?_append, List.find?_map, Function.comp_def]
      generalize htick : (st.tick.allowTick info.order.side).2 = tick
      cases hfind : list.find? fun n => n.order.userId ≠ st.main.order.userId with
      | none =>
        obtain ⟨ls, hlive, heq⟩ := fillList_skips price list [] [] { st with tick }
          (by simpa using List.find?_eq_none.1 hfind)
        rw [List.append_nil] at heq
        simp only [heq, fillList, List.nil_append, Option.map_none, Option.none_or]
        obtain ⟨ls', happ, hiff⟩ := fillLevels_lookups cmp info levels
          { st with tick, lookups := st.lookups ++ ls }
          (by rw [← hallow, ← htick]; simp [Tick.allowTick])
          (List.nodup_append.1 haddr).2.1
        refine ⟨ls ++ ls', by rw [happ, List.append_assoc], ?_⟩
        rw [live_append, hiff]
        exact ⟨And.right, And.intro hlive⟩
      | some n =>
        obtain ⟨hn, skip, rest, rfl, hskip⟩ := List.find?_eq_some_iff_append.1 hfind
        obtain ⟨ls, hlive, heq⟩ := fillList_skips price skip [] (n :: rest) { st with tick }
          (by simpa using hskip)
        have haddr' : ∀ m ∈ skip ++ rest, m.addr ≠ n.addr := fun m hm he => by
          have := (List.nodup_append.1 haddr).1
          rw [List.map_append, List.map_cons, List.nodup_middle, ← List.map_append] at this
          exact (List.nodup_cons.1 this).1 (List.mem_map.2 ⟨m, hm, he⟩)
        have hmatch := fillList_match price
          { st with tick, lookups := st.lookups ++ ls } (by simpa using hn) haddr'
        simp only [Option.map_some, Option.some_or, Option.some.injEq, forall_eq', heq,
          List.nil_append]
        split at hmatch
        · rename_i hlt
          obtain ⟨hdone, ls', hlive', happ⟩ := hmatch
          refine ⟨ls ++ ls', ?_, iff_of_true (live_append.2 ⟨hlive, hlive'⟩) hlt⟩
          split
          · rename_i heq'
            rw [heq'] at happ
            simpa using happ
          · rename_i heq'
            rw [heq'] at hdone
            cases hdone
        · rename_i hle
          obtain ⟨ls', hdead, happ⟩ := hmatch
          split
          · rename_i heq'
            rw [heq'] at happ
            exact ⟨ls ++ ls', by simpa using happ,
              iff_of_false (fun hl => hdead (live_append.1 hl).2) hle⟩
          · rename_i st' heq'
            rw [heq'] at happ
            obtain ⟨ls'', happ'⟩ := fillLevels_lookups_append cmp info levels st'
            refine ⟨ls ++ ls' ++ ls'', ?_,
              iff_of_false (fun hl => hdead (live_append.1 (live_append.1 hl).1).2) hle⟩
            dsimp only at happ
            rw [happ', happ, List.append_assoc, List.append_assoc, List.append_assoc]

/-! ## Requests -/

theorem fillOnBook_lookups {lt : α → α → Prop} (cmp : α → α → Bool)
    (book : SortedMap α (OrderList α) lt) (info : OrderInfo α) (st : FillState α) :
    (fillOnBook cmp book info st).st.lookups = (fillLevels cmp info book.entries st).2.1.lookups := by
  simp only [fillOnBook]
  cases (fillLevels cmp info book.entries st).2.2 with
  | filled | tickRefused => rfl
  | priceLimit | exhausted =>
    simp only [fillEnd]
    split <;> rfl

/-- The condition on a request in hand: a new order the worker accepts matches nothing, or first an
order it leaves a rest of; a cancel is refused. -/
def HandlesLive (ob : OrderBook α) : Worker.Op α → Prop
  | .newOrder i => (NewOrder.verdict ob i.info).1 = .accepted →
      ∀ x ∈ ob.firstMatch i, i.orderQty < x.2.order.remainQty
  | .cancel i => ∃ r, Cancel.verifyOrderStateWithLock ob i.origClOrdId i.orderQty i.side =
      .ok (.inl r)

instance (ob : OrderBook α) : ∀ op, Decidable (HandlesLive ob op)
  | .newOrder i => inferInstanceAs (Decidable (_ → ∀ x ∈ ob.firstMatch i, _))
  | .cancel i =>
    match h : Cancel.verifyOrderStateWithLock ob i.origClOrdId i.orderQty i.side with
    | .ok (.inl r) => .isTrue ⟨r, h⟩
    | .ok (.inr _) => .isFalse fun ⟨_, hr⟩ => by cases h.symm.trans hr
    | .error _ => .isFalse fun ⟨_, hr⟩ => by cases h.symm.trans hr

theorem add_lookups {ob : OrderBook α} (h : RepInv ob) (i : NewOrderInput α)
    (hallow : (ob.tick.allowTick i.side).1 = true) {ob' : OrderBook α}
    (hadd : ob.add i.info = .ok ob') : ∃ ls, ob'.lookups = ob.lookups ++ ls ∧
      (Live ls ↔ ∀ x, ob.firstMatch i = some x → i.orderQty < x.2.order.remainQty) := by
  rcases Bool.or_eq_true_iff.1 i.supported with hb | ha
  · obtain ⟨ls, happ, hiff⟩ := fillLevels_lookups (fun a b => a ≤ b) i.info ob.askBook.entries
      (ob.fillState ob.askId i.info) hallow h.ask.addrs
    obtain ⟨-, -, -, -, hlook, -⟩ := add_bid hb hadd
    refine ⟨ls, ?_, ?_⟩
    · rw [hlook, fillOnBook_lookups, happ]
      rfl
    · rw [hiff, OrderBook.firstMatch, if_pos hb]
      rfl
  · obtain ⟨ls, happ, hiff⟩ := fillLevels_lookups (fun a b => a ≥ b) i.info ob.bidBook.entries
      (ob.fillState ob.bidId i.info) hallow h.bid.addrs
    obtain ⟨-, -, -, -, hlook, -⟩ := add_ask ha hadd
    refine ⟨ls, ?_, ?_⟩
    · rw [hlook, fillOnBook_lookups, happ]
      rfl
    · rw [hiff, OrderBook.firstMatch, Side.isBid_of_isAsk ha]
      rfl

/-- What one request adds to the log, and when all of it is live. -/
theorem step_lookups {ob ob' : OrderBook α} (h : RepInv ob) {op : Worker.Op α}
    (hs : Worker.step ob op = some ob') :
    ∃ ls, ob'.lookups = ob.lookups ++ ls ∧ (Live ls ↔ HandlesLive ob op) := by
  cases op with
  | newOrder i =>
    rcases Worker.step_newOrder hs with ⟨hv, rfl⟩ | ⟨hv, hallow, -, hadd⟩
    · exact ⟨[], (List.append_nil _).symm, iff_of_true (by simp [Live]) fun hacc => absurd hacc hv⟩
    · have hallow' : ((ob.allowTick i.side).2.tick.allowTick i.side).1 = true := by
        simpa [OrderBook.allowTick, Tick.allowTick] using hallow
      obtain ⟨ls, happ, hiff⟩ := add_lookups (h.allowTick i.side) i hallow' hadd
      exact ⟨ls, happ, hiff.trans ⟨fun hm _ => hm, fun hm => hm hv⟩⟩
  | cancel i =>
    rcases Worker.step_cancel hs with ⟨hr, rfl⟩ | ⟨o, hv, hok⟩
    · exact ⟨[], (List.append_nil _).symm, iff_of_true (by simp [Live]) hr⟩
    · rcases h.verify i.origClOrdId i.orderQty i.side with
        ⟨r, hr⟩ | ⟨ob'', o', -, -, -, hok', -, -, -, hlook⟩
      · rw [hv] at hr
        cases hr
      · rw [hok] at hok'
        cases hok'
        refine ⟨_, hlook, iff_of_false (by simp [Live]) ?_⟩
        rintro ⟨r, hr⟩
        rw [hv] at hr
        cases hr

/-- **No stale handle**, exactly when: every request the workers take in hand is worked off without
undefined behaviour, its reads all hit live cells iff `HandlesLive` holds of it, and in a run whose
requests all meet that condition no read ever misses. -/
theorem lookups_live_iff {name : String} :
    (∀ ob : OrderBook α, Worker.Reachable name ob → ∀ op, ∃ ob' ls,
      Worker.step ob op = some ob' ∧ ob'.lookups = ob.lookups ++ ls ∧
        (Live ls ↔ HandlesLive ob op)) ∧
    ∀ ob : OrderBook α, Trans.Run Worker.step HandlesLive (OrderBook.new name) ob →
      Live ob.lookups := by
  constructor
  · intro ob h op
    have hrep := repInv_of_reachable h
    obtain ⟨ob', hs, -⟩ := hrep.step op
    obtain ⟨ls, happ, hiff⟩ := step_lookups hrep hs
    exact ⟨ob', ls, hs, happ, hiff⟩
  · intro ob h
    refine h.invariant_with (I := fun ob => Live ob.lookups) (J := RepInv)
      (by simp [OrderBook.new, Live]) (fun _ hs => repInv_of_reachable hs.reach) fun s op s' hI hrep hC hs => ?_
    obtain ⟨ls, happ, hiff⟩ := step_lookups hrep hs
    rw [happ]
    exact live_append.2 ⟨hI, hiff.2 hC⟩

end

/-- A resting sell of 10 at 5. -/
def restingSell : Worker.Op ℚ := .newOrder ⟨"A", "e1", "s1", 5, 10, .sell, rfl⟩

/-- Erased cells are read: the id-map entry by a cancel of a resting order, and the resting order
by a buy that uses it up. -/
theorem lookups_dead : ∃ ob : OrderBook ℚ, Worker.Reachable "AAPL" ob ∧
    (∃ ob', Worker.step ob (.cancel ⟨"e2", "c1", "s1", 10, .sell, rfl⟩) = some ob' ∧
      ob'.lookups = ob.lookups ++ [⟨.cancelInfo, false⟩]) ∧
    ∃ ob', Worker.step ob (.newOrder ⟨"B", "e2", "b1", 5, 10, .buy, rfl⟩) = some ob' ∧
      ob'.lookups = ob.lookups ++ [⟨.fillOrder, true⟩, ⟨.removeFromIdMap, false⟩] := by
  obtain ⟨ob, h⟩ : ∃ ob, Worker.step (OrderBook.new "AAPL") restingSell = some ob :=
    Option.isSome_iff_exists.1 (by decide +kernel)
  have hcancel : ((Worker.step (OrderBook.new "AAPL") restingSell).bind fun ob =>
      (Worker.step ob (.cancel ⟨"e2", "c1", "s1", 10, .sell, rfl⟩)).map fun ob' =>
        decide (ob'.lookups = ob.lookups ++ [⟨.cancelInfo, false⟩])) = some true := by
    decide +kernel
  have hadd : ((Worker.step (OrderBook.new "AAPL") restingSell).bind fun ob =>
      (Worker.step ob (.newOrder ⟨"B", "e2", "b1", 5, 10, .buy, rfl⟩)).map fun ob' =>
        decide (ob'.lookups = ob.lookups ++ [⟨.fillOrder, true⟩, ⟨.removeFromIdMap, false⟩])) =
      some true := by
    decide +kernel
  simp only [h, Option.bind_some, Option.map_eq_some_iff, decide_eq_true_eq] at hcancel hadd
  exact ⟨ob, .next .start trivial h, hcancel, hadd⟩

/-- A buy that leaves a rest of the order it first matches reads live cells only. -/
theorem lookups_live_run :
    let ops := [restingSell, .newOrder ⟨"B", "e2", "b1", 5, 4, .buy, rfl⟩,
      .cancel ⟨"e3", "c1", "s1", 10, .sell, rfl⟩]
    ∃ ob, Trans.exec Worker.step HandlesLive (OrderBook.new "AAPL") ops = some ob ∧
      ob.lookups ≠ [] ∧ Live ob.lookups ∧ ∃ ob' ls,
        Worker.step ob (.cancel ⟨"e4", "c2", "s1", 6, .sell, rfl⟩) = some ob' ∧
        ob'.lookups = ob.lookups ++ ls ∧ ¬ Live ls := by
  intro ops
  obtain ⟨ob, h⟩ : ∃ ob, Trans.exec Worker.step HandlesLive (OrderBook.new "AAPL") ops = some ob :=
    Option.isSome_iff_exists.1 (by decide +kernel)
  have hlook : ((Trans.exec Worker.step HandlesLive (OrderBook.new "AAPL") ops).map fun ob =>
      decide (ob.lookups ≠ [] ∧ ¬ HandlesLive ob (.cancel ⟨"e4", "c2", "s1", 6, .sell, rfl⟩))) =
      some true := by
    decide +kernel
  rw [h, Option.map_some, Option.some.injEq, decide_eq_true_eq] at hlook
  have hrun := Trans.Run.of_exec .start h
  obtain ⟨ob', ls, hs, happ, hiff⟩ := lookups_live_iff.1 ob hrun.reach
    (.cancel ⟨"e4", "c2", "s1", 6, .sell, rfl⟩)
  exact ⟨ob, h, hlook.1, lookups_live_iff.2 ob hrun, ob', ls, hs, happ, mt hiff.1 hlook.2⟩

end Fix42
