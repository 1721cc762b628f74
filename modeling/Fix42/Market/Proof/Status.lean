import Fix42.Book.Proof.Quantity
import Fix42.Market.Units

/-!
# The status in an event

`fillOrder` copies the resting order into its event before it updates the status, and the incoming
order's status is never updated. `event_status`: the events of an `add` therefore give the current
state of their orders only when there are none, which is when the tick rule refuses the order at once
or no order of another user is within its limit.
-/

namespace Fix42

open SortedMap

variable {α : Type*} [Field α] [LinearOrder α]

/-- The event gives the state its order is in, and its execution status agrees. -/
structure Event.Current (e : Event α) : Prop where
  status : e.order.status = if e.order.remainQty = 0 then .filled else .partiallyFilled
  exec : e.execStatus = e.order.status

/-- An execution report that gives the state of its order. -/
def Output.GivesState (out : Output α) : Prop :=
  ∃ r, out.report = .execution r ∧
    r.ordStatus = (if r.leavesQty = 0 then .filled else .partiallyFilled) ∧ r.execType = r.ordStatus

/-- A report gives the state its event gives. -/
theorem createEvent_givesState (symbol : String) (client : Client) (now : Int) (execId : ExecId)
    (e : Event α) : (OBEvent.createEvent symbol client now execId e).GivesState ↔ e.Current := by
  constructor
  · rintro ⟨r, hr, hstatus, hexec⟩
    cases hr
    exact ⟨hstatus, hexec⟩
  · rintro ⟨hstatus, hexec⟩
    exact ⟨_, rfl, hstatus, hexec⟩

/-! ## Orders at rest -/

/-- No order at rest is said to be filled. -/
def Unfilled (c : List (α × Node α)) : Prop := ∀ x ∈ c, x.2.order.status ≠ .filled

theorem FillStep.unfilled {c c' : List (α × Node α)} {st st' : FillState α}
    (hs : FillStep (c, st) (c', st')) (h : Unfilled c) : Unfilled c' := by
  cases hs with
  | tick | note => exact h
  | @fill l r price n st other active =>
    intro x hx
    simp only [List.mem_append] at hx
    rcases hx with hx | hx | hx
    · exact h x (by simp [hx])
    · simp only [FillState.kept] at hx
      split at hx
      · cases hx
      · rename_i hnot
        rw [cells, List.map_singleton, List.mem_singleton] at hx
        subst hx
        rw [fillOrder_status price other] at hnot
        simp only [fillOrder, other, if_false]
        split
        · rename_i hz
          simp only [decide_eq_true_eq] at hz
          exact absurd (if_pos hz) hnot
        · simp
    · exact h x (by simp [hx])

theorem unfilled_of_reachable {name : String} {ob : OrderBook α} (h : Worker.Reachable name ob) :
    Unfilled ob.resting := by
  refine h.invariant_with (I := fun ob => Unfilled ob.resting) (J := RepInv)
    (fun x hx => by cases hx) (fun _ hs => repInv_of_reachable hs) fun s op s' hI hrep _ hs => ?_
  cases op with
  | newOrder i =>
    rcases Worker.step_newOrder hs with ⟨-, rfl⟩ | ⟨-, -, -, hadd⟩
    · exact hI
    · obtain ⟨idmap, c, st, reports, left, hsteps, -, -, -, hperm⟩ := add_spec i.supported rfl hadd
      have hc : Unfilled c := hsteps.invariant (I := fun c _ => Unfilled c) hI
        fun _ _ _ _ hI hs => hs.unfilled hI
      intro x hx
      have hx' := hperm.mem_iff.1 hx
      split at hx'
      · rcases List.mem_cons.1 hx' with rfl | hx'
        · simp only [OrderBook.restingOrder]
          split <;> simp
        · exact hc x hx'
      · exact hc x hx'
  | cancel i =>
    rcases Worker.step_cancel hs with ⟨-, rfl⟩ | ⟨o, hv, hok⟩
    · exact hI
    · obtain ⟨ob1, hok1, -, -, -, -, hrem⟩ := hrep.cancel_verified hv
      rw [hok] at hok1
      cases hok1
      exact fun x hx => hI x (hrem.subset hx)

/-! ## The loop -/

/-- The call fills an order. -/
def FillCall.Fills (c : FillCall α) : Prop := c.order.userId ≠ c.main.order.userId

/-- What the loop has done since `st`, pushing `es`: either it has filled nothing, or the incoming
order is used up or an event is out of date. -/
structure LoopStale (st st' : FillState α) (cs : List (FillCall α)) (es : List (Event α)) : Prop where
  events : st'.events = st.events ++ es
  status : st'.main.order.status = st.main.order.status
  original : st'.main.order.originalQty = st.main.order.originalQty
  idle : (∀ call ∈ cs, ¬ call.Fills) → st'.main = st.main ∧ es = []
  stale : (∃ call ∈ cs, call.Fills) → st'.main.order.remainQty = 0 ∨ ∃ e ∈ es, ¬ e.Current

/-- A fill either uses up the incoming order or reports a used-up resting order with the status it had
before. -/
theorem LoopStale.fill {st st' : FillState α} {cs : List (FillCall α)} {es : List (Event α)}
    (price : α) {n : Node α} (h : LoopStale st st' cs es)
    (other : n.order.userId ≠ st'.main.order.userId) (hn : n.order.status ≠ .filled) :
    ∃ e, LoopStale st (st'.fill price n) (cs ++ [⟨st'.main, price, n.order⟩]) (es ++ [e]) := by
  obtain ⟨e, hpush, -, -, hfilled⟩ := fillOrder_pushed price other
  have hstatus : e.order.status = n.order.status := by
    simp only [fillOrder, other, if_false, List.cons.injEq, and_true] at hpush
    rw [← hpush]
  refine ⟨e, ⟨?_, ?_, ?_, fun hno => ?_, fun _ => ?_⟩⟩
  · simp only [FillState.fill, hpush, h.events, List.append_assoc]
  · rw [← h.status]
    simp [FillState.fill, fillOrder, other]
  · rw [← h.original]
    simp [FillState.fill]
  · exact absurd other (hno ⟨st'.main, price, n.order⟩ (by simp))
  · by_cases hz : e.order.remainQty = 0
    · refine .inr ⟨e, by simp, fun hcur => hn ?_⟩
      rw [← hstatus, hcur.status, if_pos hz]
    · left
      have hnot := mt hfilled.1 hz
      rw [fillOrder_status price other] at hnot
      have hlt : ¬ n.order.remainQty ≤ st'.main.order.remainQty := fun hle => hnot (by
        rw [min_eq_left hle, sub_self, if_pos rfl])
      simp [FillState.fill, fillOrder, other, min_eq_right (not_le.1 hlt).le]

theorem CallSteps.stale {c c' : List (α × Node α)} {st st' : FillState α} {cs : List (FillCall α)}
    (h : CallSteps (c, st) cs (c', st')) (hc : Unfilled c) : ∃ es, LoopStale st st' cs es := by
  have hloop := h.invariant (I := fun c st1 cs => Unfilled c ∧ ∃ es, LoopStale st st1 cs es)
    ⟨hc, [], by simp, rfl, rfl, fun _ => ⟨rfl, rfl⟩, by simp⟩
    fun c st1 cs ds c' st2 hI hs => ⟨hs.step.unfilled hI.1, ?_⟩
  · exact hloop.2
  · obtain ⟨hc, es, hl⟩ := hI
    cases hs with
    | @fill l r price n _ other active =>
      obtain ⟨e, hl'⟩ := hl.fill price other (hc (price, n) (by simp))
      exact ⟨_, hl'⟩
    | skip price same =>
      refine ⟨es, hl.events, hl.status, hl.original, fun hno => hl.idle fun call hm => hno call ?_,
        fun hex => hl.stale ?_⟩
      · exact List.mem_append_left _ hm
      · obtain ⟨call, hm, hf⟩ := hex
        rcases List.mem_append.1 hm with hm | hm
        · exact ⟨call, hm, hf⟩
        · rw [List.mem_singleton.1 hm] at hf
          exact absurd same hf
    | tick | note =>
      rw [List.append_nil]
      exact ⟨es, hl.events, hl.status, hl.original, hl.idle, hl.stale⟩

/-! ## `add` -/

/-- The tick rule refuses the order at once, or no order of another user is within its limit. -/
def OrderBook.MeetsNone (ob : OrderBook α) (i : NewOrderInput α) : Prop :=
  (ob.tick.allowTick i.side).1 = false ∨ ob.firstMatch i = none

instance (ob : OrderBook α) (i : NewOrderInput α) : Decidable (ob.MeetsNone i) :=
  inferInstanceAs (Decidable (_ ∨ ob.firstMatch i = none))

/-- The calls of a loop that the tick rule refuses at once. -/
theorem fillLevelsCalls_refused (cmp : α → α → Bool) (info : OrderInfo α)
    (levels : List (α × OrderList α)) {st : FillState α}
    (h : (st.tick.allowTick info.order.side).1 = false) : fillLevelsCalls cmp info levels st = [] := by
  cases levels with
  | nil => rfl
  | cons level levels =>
    unfold fillLevelsCalls
    split
    · rfl
    · simp [h]

/-- A call that divides by nothing fills nothing. -/
theorem FillCall.not_fills {c : FillCall α} (h : c.divisors = []) : ¬ c.Fills := by
  intro hf
  rw [FillCall.divisors, if_neg hf] at h
  cases h

theorem fillCalls_fills_iff (ob : OrderBook α) (i : NewOrderInput α) :
    (∃ call ∈ ob.fillCalls i.info, call.Fills) ↔ ¬ ob.MeetsNone i := by
  have hside : ∀ (cmp : α → α → Bool) (levels : List (α × OrderList α)) (st : FillState α),
      st.tick = ob.tick → st.main.order.userId = i.userId →
      ((∃ call ∈ fillLevelsCalls cmp i.info levels st, call.Fills) ↔
        ¬ ((ob.tick.allowTick i.side).1 = false ∨
          firstMatch cmp levels i.userId i.price = none)) := by
    intro cmp levels st htick huser
    rw [not_or, ← htick, ← huser]
    constructor
    · rintro ⟨call, hcall, hf⟩
      refine ⟨fun hno => ?_, fun hno => ?_⟩
      · rw [fillLevelsCalls_refused cmp i.info levels hno] at hcall
        cases hcall
      · exact FillCall.not_fills ((fillLevels_none cmp i.info levels st hno).2 call hcall) hf
    · rintro ⟨hallow, hmatch⟩
      obtain ⟨x, hx⟩ := Option.ne_none_iff_exists'.1 hmatch
      obtain ⟨call, hcall, hmain, horder, hother⟩ := fillLevelsCalls_first cmp i.info levels st
        (Bool.eq_true_of_not_eq_false hallow) hx
      refine ⟨call, hcall, ?_⟩
      rwa [FillCall.Fills, hmain, horder]
  unfold OrderBook.fillCalls OrderBook.MeetsNone OrderBook.firstMatch
  rcases Bool.or_eq_true_iff.1 i.supported with hb | ha
  · have hb' : i.info.order.side.isBid = true := hb
    rw [if_pos hb', if_pos hb]
    exact hside _ _ _ rfl rfl
  · have hnb : ¬ i.side.isBid = true := by simp [Side.isBid_of_isAsk ha]
    have hnb' : ¬ i.info.order.side.isBid = true := hnb
    have ha' : i.info.order.side.isAsk = true := ha
    rw [if_neg hnb', if_neg hnb, if_pos ha']
    exact hside _ _ _ rfl rfl

/-- **The status in an event.** Adding an order for a positive quantity to a reachable book pushes
events, and so reports, that all give the current state of their orders iff the order meets none; it
pushes no event then. -/
theorem event_status {name : String} {ob ob' : OrderBook α} (h : Worker.Reachable name ob)
    (i : NewOrderInput α) (hq : 0 < i.orderQty) (hadd : ob.add i.info = .ok ob') :
    ∃ es, ob'.eventOutput = ob.eventOutput ++ es ∧
      ((∀ e ∈ es, e.Current ∧ ∀ symbol client now execId,
        (OBEvent.createEvent symbol client now execId e).GivesState) ↔ ob.MeetsNone i) ∧
      (ob.MeetsNone i → es = []) := by
  obtain ⟨idmap, c, st, reports, left, hcalls, hev, -, hout, -, hend, -⟩ :=
    add_calls i.supported rfl hadd
  obtain ⟨es, hl⟩ := hcalls.stale (unfilled_of_reachable h)
  have horiginal : st.main.order.originalQty ≠ 0 := hl.original ▸ hq.ne'
  refine ⟨es ++ reports, by rw [hev, hl.events, List.append_assoc]; rfl, ?_⟩
  by_cases hnone : ob.MeetsNone i
  · -- nothing is filled, so there is nothing to report about the incoming order
    have hidle : ∀ call ∈ ob.fillCalls i.info, ¬ call.Fills := fun call hcall hf =>
      (fillCalls_fills_iff ob i).1 ⟨call, hcall, hf⟩ hnone
    obtain ⟨hmain, hes⟩ := hl.idle hidle
    have hremain : st.main.order.remainQty = i.info.order.originalQty := by
      rw [hmain]
      rfl
    have hreports : reports = [] := by
      cases hexit : ob.exit i.info with
      | filled => exact absurd (hremain.symm.trans (hout.filled hexit).1) hq.ne'
      | tickRefused => exact hout.silent hexit
      | priceLimit => rw [hout.partly (.inl hexit), hremain, if_neg (not_not.2 rfl)]
      | exhausted => rw [hout.partly (.inr hexit), hremain, if_neg (not_not.2 rfl)]
    have hnil : es ++ reports = [] := by rw [hes, hreports, List.append_nil]
    rw [hnil]
    exact ⟨iff_of_true (fun e he => by cases he) hnone, fun _ => rfl⟩
  · refine ⟨iff_of_false (fun hcur => ?_) hnone, fun h => absurd h hnone⟩
    rcases hl.stale ((fillCalls_fills_iff ob i).2 hnone) with hz | ⟨e, he, hbad⟩
    · -- the incoming order is used up and reported as new
      have hfilled : ob.exit i.info = .filled := by
        by_contra hne
        exact horiginal (hend hne hz)
      have hreport := (hcur { st.main with execStatus := .filled }
        (List.mem_append_right _ (by rw [(hout.filled hfilled).2]; simp))).1.status
      rw [if_pos hz, hl.status] at hreport
      cases hreport
    · exact hbad (hcur e (List.mem_append_left _ he)).1

/-- A buy of four next to a sell of ten: both events say `New`, of an order partly filled and of one
filled. -/
theorem event_status_stale : ∃ (ob ob' : OrderBook ℚ) (i : NewOrderInput ℚ),
    Worker.Reachable "AAPL" ob ∧ 0 < i.orderQty ∧ ob.add i.info = .ok ob' ∧
    (ob'.eventOutput.map fun e => (e.order.status, e.order.remainQty, e.execStatus)) =
      [(.newOrder, 6, .partiallyFilled), (.newOrder, 0, .filled)] ∧
    ∀ e ∈ ob'.eventOutput, ¬ e.Current := by
  let i : NewOrderInput ℚ := ⟨"B", "e2", "b1", 5, 4, .buy, rfl⟩
  obtain ⟨ob, h⟩ : ∃ ob, Worker.step (OrderBook.new "AAPL") restingSell = some ob :=
    Option.isSome_iff_exists.1 (by decide +kernel)
  have hrun : ((Worker.step (OrderBook.new "AAPL") restingSell).bind fun ob =>
      (ob.add i.info).toOption.map fun ob' => ob'.eventOutput.map
        fun e => (e.order.status, e.order.remainQty, e.execStatus)) =
      some [(.newOrder, 6, .partiallyFilled), (.newOrder, 0, .filled)] := by
    decide +kernel
  rw [h, Option.bind_some] at hrun
  cases hadd : ob.add i.info with
  | error f =>
    rw [hadd] at hrun
    cases hrun
  | ok ob' =>
    rw [hadd] at hrun
    have hevents : (ob'.eventOutput.map fun e => (e.order.status, e.order.remainQty, e.execStatus)) =
        _ := Option.some.inj hrun
    refine ⟨ob, ob', i, .next .start trivial h, by decide +kernel, hadd, hevents,
      fun e he hcur => ?_⟩
    have hm := List.mem_map_of_mem (f := fun e : Event ℚ =>
      (e.order.status, e.order.remainQty, e.execStatus)) he
    rw [hevents] at hm
    have hnew : e.order.status = .newOrder := by
      simp only [List.mem_cons, Prod.mk.injEq, List.not_mem_nil, or_false] at hm
      rcases hm with hm | hm
      · exact hm.1
      · exact hm.1
    have hstatus := hcur.status
    rw [hnew] at hstatus
    split at hstatus <;> cases hstatus

/-- A buy below the resting sell pushes nothing. -/
theorem event_status_run : ∃ ob ob' : OrderBook ℚ, Worker.Reachable "AAPL" ob ∧
    ob.add (NewOrderInput.info ⟨"B", "e2", "b1", 4, 4, .buy, rfl⟩) = .ok ob' ∧
    ob'.eventOutput = ob.eventOutput := by
  let i : NewOrderInput ℚ := ⟨"B", "e2", "b1", 4, 4, .buy, rfl⟩
  obtain ⟨ob, h⟩ : ∃ ob, Worker.step (OrderBook.new "AAPL") restingSell = some ob :=
    Option.isSome_iff_exists.1 (by decide +kernel)
  have hreach : Worker.Reachable "AAPL" ob := .next .start trivial h
  have hrun : ((Worker.step (OrderBook.new "AAPL") restingSell).bind fun ob =>
      (ob.add i.info).toOption.map fun _ => decide (ob.MeetsNone i)) = some true := by
    decide +kernel
  rw [h, Option.bind_some] at hrun
  cases hadd : ob.add i.info with
  | error f =>
    rw [hadd] at hrun
    cases hrun
  | ok ob' =>
    rw [hadd] at hrun
    have hnone : ob.MeetsNone i := of_decide_eq_true (Option.some.inj hrun)
    obtain ⟨es, hev, -, hnil⟩ := event_status hreach i (by decide +kernel) hadd
    refine ⟨ob, ob', hreach, hadd, ?_⟩
    rw [hev, hnil hnone, List.append_nil]

end Fix42
