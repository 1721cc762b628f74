import Fix42.Book.Proof.Exit
import Fix42.Book.Proof.Handles

/-!
# Report completeness

Along the runs of `Ledger.step`, what the last report of an acknowledged order says is what the book
holds of it. Every fill reports the resting order it changes (`FillStep.reported`); the incoming
order is reported at the end of the loop, unless the loop ends on a refused tick
(`reported_incoming`). `reports_complete` is the run theorem under `Ledger.TickSafe`, with the
condition exact at every step.
-/

namespace Fix42

open SortedMap

variable {α : Type*} [Field α] [LinearOrder α]

/-! ## The last report -/

omit [Field α] [LinearOrder α] in
/-- Reports about other submissions do not change the last report about `o`. -/
theorem reportedRemaining_other {es es' : List (Event α)} {o : Order α}
    (h : ∀ e ∈ es', e.order.submission ≠ o.submission) :
    reportedRemaining (es ++ es') o = reportedRemaining es o := by
  have hnil : es'.filter (fun e => e.order.submission = o.submission) = [] := by
    simpa [List.filter_eq_nil_iff] using h
  rw [reportedRemaining, List.filter_append, hnil, List.append_nil]
  rfl

omit [Field α] [LinearOrder α] in
theorem reportedRemaining_last {es : List (Event α)} {e : Event α} {o : Order α}
    (h : e.order.submission = o.submission) :
    reportedRemaining (es ++ [e]) o = e.order.remainQty := by
  simp [reportedRemaining, h]

omit [Field α] [LinearOrder α] in
theorem reportedRemaining_none {es : List (Event α)} {o : Order α}
    (h : ∀ e ∈ es, e.order.submission ≠ o.submission) :
    reportedRemaining es o = o.originalQty := by
  have hnil : es.filter (fun e => e.order.submission = o.submission) = [] := by
    simpa [List.filter_eq_nil_iff] using h
  simp [reportedRemaining, hnil]

section
omit [LinearOrder α]
variable {c c' : List (α × Node α)} {es es' : List (Event α)} {o : Order α}

/-- The reports are right if the orders of `o`'s submission are the same and so is its last report. -/
theorem ReportedIn.congr (h : ReportedIn c es o)
    (hc : ∀ x : α × Node α, x.2.order.submission = o.submission → (x ∈ c' ↔ x ∈ c))
    (he : reportedRemaining es' o = reportedRemaining es o) : ReportedIn c' es' o := by
  rw [ReportedIn, he]
  exact ⟨fun x hx hs => h.1 x ((hc x hs).1 hx) hs,
    fun hno => h.2 fun x hx hs => hno x ((hc x hs).2 hx) hs⟩

theorem ReportedIn.perm (hp : c.Perm c') : ReportedIn c es o ↔ ReportedIn c' es o :=
  ⟨fun h => h.congr (fun _ _ => hp.mem_iff.symm) rfl, fun h => h.congr (fun _ _ => hp.mem_iff) rfl⟩

theorem reportedIn_absent (h : ∀ x ∈ c, x.2.order.submission ≠ o.submission) :
    ReportedIn c es o ↔ reportedRemaining es o = 0 :=
  ⟨fun hr => hr.2 h, fun hz => ⟨fun x hx hs => absurd hs (h x hx), fun _ => hz⟩⟩

theorem reportedIn_present {l r : List (α × Node α)} {x : α × Node α}
    (hx : x.2.order.submission = o.submission)
    (h : ∀ y ∈ l ++ r, y.2.order.submission ≠ o.submission) :
    ReportedIn (l ++ x :: r) es o ↔ reportedRemaining es o = x.2.order.remainQty := by
  refine ⟨fun hr => hr.1 x (by simp) hx, fun hrem => ⟨fun y hy hs => ?_, fun hno => ?_⟩⟩
  · rcases List.mem_append.1 hy with hy | hy
    · exact absurd hs (h y (List.mem_append_left _ hy))
    · rcases List.mem_cons.1 hy with rfl | hy
      · exact hrem
      · exact absurd hs (h y (List.mem_append_right _ hy))
  · exact absurd hx (hno x (by simp))

end

/-! ## One fill -/

@[simp] theorem fillOrder_submission (main : Event α) (price : α) (o : Order α) :
    (fillOrder main price o).main.order.submission = main.order.submission := by
  unfold fillOrder; split <;> rfl

@[simp] theorem fillOrder_order_submission (main : Event α) (price : α) (o : Order α) :
    (fillOrder main price o).order.submission = o.submission := by
  unfold fillOrder; split <;> rfl

/-- A fill pushes one event, about the resting order as the fill leaves it. -/
theorem fillOrder_pushed {main : Event α} (price : α) {o : Order α}
    (h : o.userId ≠ main.order.userId) : ∃ e, (fillOrder main price o).pushed = [e] ∧
      e.order.submission = o.submission ∧
      e.order.remainQty = (fillOrder main price o).order.remainQty ∧
      ((fillOrder main price o).status = .filled ↔ e.order.remainQty = 0) := by
  simp [fillOrder, h]

/-- The submissions of resting orders, once for each. -/
def submissions (c : List (α × Node α)) : List ExecId := c.map fun x => x.2.order.submission

theorem FillStep.submissions {c c' : List (α × Node α)} {st st' : FillState α}
    (h : FillStep (c, st) (c', st')) : (submissions c').Sublist (submissions c) := by
  cases h with
  | fill l r price other active =>
    simp only [FillState.kept, Fix42.submissions]
    split
    · simp
    · simp
  | tick | note => exact .refl _

/-- A fill keeps the reports of all resting orders right. -/
theorem FillStep.reported {c c' : List (α × Node α)} {st st' : FillState α} {o : Order α}
    (h : FillStep (c, st) (c', st')) (hnd : (Fix42.submissions c).Nodup)
    (hrep : ReportedIn c st.events o) : ReportedIn c' st'.events o := by
  cases h with
  | tick | note => exact hrep
  | @fill l r price n st other active =>
    obtain ⟨e, hpush, hsub, hremain, hfilled⟩ := fillOrder_pushed price other
    have hev : (st.fill price n).events = st.events ++ [e] := by
      rw [FillState.fill, hpush]
    rw [hev]
    simp only [Fix42.submissions, List.map_append, List.map_cons] at hnd
    rw [List.nodup_middle, ← List.map_append] at hnd
    have hother : ∀ x ∈ l ++ r, x.2.order.submission ≠ n.order.submission := fun x hx he =>
      (List.nodup_cons.1 hnd).1 (List.mem_map.2 ⟨x, hx, he⟩)
    have hkept : (fillOrder st.main price n.order).order.submission = n.order.submission := by simp
    simp only [FillState.kept]
    by_cases hn : n.order.submission = o.submission
    · rw [hn] at hother
      split
      · rename_i hs
        exact (reportedIn_absent (by simpa using hother)).2
          ((reportedRemaining_last (hsub.trans hn)).trans (hfilled.1 hs))
      · exact (reportedIn_present (hkept.trans hn) hother).2
          ((reportedRemaining_last (hsub.trans hn)).trans hremain)
    · refine hrep.congr (fun x hx => ?_)
        (reportedRemaining_other (by simpa [hsub] using hn))
      have hne : ∀ y : α × Node α, y.2.order.submission = n.order.submission → x ≠ y :=
        fun y hy he => hn (hy ▸ he ▸ hx)
      split
      · simp [hne (price, n) rfl]
      · simp [hne (price, n) rfl, hne (price, ⟨n.addr, _⟩) hkept]

/-! ## The loop -/

/-- What the loop keeps while it matches an order of submission `m`: resting submissions are
distinct, and they and those reported are among `known`. -/
structure LoopInv (known : List ExecId) (m : ExecId) (c : List (α × Node α)) (st : FillState α) :
    Prop where
  main : st.main.order.submission = m
  nodup : (submissions c).Nodup
  resting : ∀ s ∈ submissions c, s ∈ known
  events : ∀ e ∈ st.events, e.order.submission ∈ known

theorem LoopInv.step {known : List ExecId} {m : ExecId} {c c' : List (α × Node α)}
    {st st' : FillState α} (h : LoopInv known m c st) (hs : FillStep (c, st) (c', st')) :
    LoopInv known m c' st' := by
  have hsub := hs.submissions
  refine ⟨?_, h.nodup.sublist hsub, fun s hm => h.resting s (hsub.subset hm), ?_⟩
  · cases hs with
    | fill => exact (fillOrder_submission _ _ _).trans h.main
    | tick | note => exact h.main
  · cases hs with
    | tick | note => exact h.events
    | @fill l r price n st other active =>
      obtain ⟨e, hpush, hsubm, -⟩ := fillOrder_pushed price other
      intro e' he'
      simp only [FillState.fill, hpush] at he'
      rcases List.mem_append.1 he' with he' | he'
      · exact h.events e' he'
      · rw [List.mem_singleton.1 he', hsubm]
        exact h.resting _ (by simp [submissions])

theorem FillSteps.loopInv {known : List ExecId} {m : ExecId} {c c' : List (α × Node α)}
    {st st' : FillState α} (h : FillSteps (c, st) (c', st')) (hI : LoopInv known m c st) :
    LoopInv known m c' st' ∧ ∀ o, ReportedIn c st.events o → ReportedIn c' st'.events o :=
  h.invariant (I := fun c' st' => LoopInv known m c' st' ∧
    ∀ o, ReportedIn c st.events o → ReportedIn c' st'.events o) ⟨hI, fun _ hr => hr⟩
    fun _ _ _ _ hJ hs => ⟨hJ.1.step hs, fun o hr => hs.reported hJ.1.nodup (hJ.2 o hr)⟩

/-- **The incoming order** is rightly reported unless the loop ended on a refused tick with a part
of it executed. -/
theorem reported_incoming {known : List ExecId} {info : OrderInfo α} {c : List (α × Node α)}
    {st : FillState α} {reports : List (Event α)} {left : α × α} {exit : Exit} (addr : Nat)
    (hI : LoopInv known info.order.submission c st) (hnew : info.order.submission ∉ known)
    (hout : Outcome info st reports left exit) :
    ReportedIn (if left.1 ≠ 0 then
        (info.price, ⟨addr, OrderBook.restingOrder info left⟩) :: c else c)
      (st.events ++ reports) info.order ↔
    ¬ (exit = .tickRefused ∧ left.1 ≠ info.order.originalQty) := by
  have hc : ∀ x ∈ c, x.2.order.submission ≠ info.order.submission := fun x hx he =>
    hnew (he ▸ hI.resting _ (List.mem_map.2 ⟨x, hx, rfl⟩))
  have hnone : reportedRemaining st.events info.order = info.order.originalQty :=
    reportedRemaining_none fun e he hs => hnew (hs ▸ hI.events e he)
  -- resting or gone, the last report has to say `left`
  have hleft : ReportedIn (if left.1 ≠ 0 then
        (info.price, ⟨addr, OrderBook.restingOrder info left⟩) :: c else c)
      (st.events ++ reports) info.order ↔
      reportedRemaining (st.events ++ reports) info.order = left.1 := by
    split
    · exact reportedIn_present (l := []) rfl hc
    · rename_i hz
      rw [reportedIn_absent hc, not_not.1 hz]
  rw [hleft]
  rcases hout.shape with hnil | ⟨status, hone⟩
  · rw [hnil, List.append_nil, hnone]
    constructor
    · exact fun h he => he.2 h.symm
    · intro h
      by_contra hne
      cases exit with
      | filled =>
        have := (hout.filled rfl).2
        rw [hnil] at this
        cases this
      | tickRefused => exact h ⟨rfl, Ne.symm hne⟩
      | priceLimit | exhausted =>
        have := hout.partly (by simp)
        rw [hnil, if_pos (by rw [← hout.left_eq]; exact Ne.symm hne)] at this
        cases this
  · rw [hone, reportedRemaining_last (by exact hI.main), hout.left_eq]
    refine iff_of_true rfl fun h => ?_
    have := hout.silent h.1
    rw [hone] at this
    cases this

/-! ## Runs -/

namespace Ledger

theorem step_newOrder {l l' : Ledger α} {i : NewOrderInput α}
    (h : l.step (.newOrder i) = some l') : i.executionId ∉ l.acked.map Order.submission ∧
      ((NewOrder.verdict l.ob i.info).1 ≠ .accepted ∧
        l' = { l with ob := (l.ob.allowTick i.side).2 } ∨
      (NewOrder.verdict l.ob i.info).1 = .accepted ∧ (l.ob.tick.allowTick i.side).1 = true ∧
        ∃ ob', (l.ob.allowTick i.side).2.add i.info = .ok ob' ∧
          l' = { l with ob := ob', acked := l.acked ++ [i.info.order] }) := by
  simp only [step] at h
  split at h
  · cases h
  · rename_i hfresh
    refine ⟨hfresh, ?_⟩
    cases hw : NewOrder.work l.ob i.info with
    | error f => simp [hw] at h
    | ok r =>
      obtain ⟨v, ob'⟩ := r
      obtain ⟨hv, ⟨hne, rfl⟩ | ⟨rfl, hallow, -, hadd⟩⟩ := NewOrder.work_ok hw
      · refine .inl ⟨hv ▸ hne, ?_⟩
        cases v with
        | accepted => exact absurd rfl hne
        | tickRefused | duplicate =>
          simp only [hw, Option.some.injEq] at h
          exact h.symm
      · simp only [hw, Option.some.injEq] at h
        exact .inr ⟨hv.symm, hallow, ob', hadd, h.symm⟩

theorem step_cancel {l l' : Ledger α} {i : CancelInput α} (h : l.step (.cancel i) = some l') :
    (∃ r, Cancel.verifyOrderStateWithLock l.ob i.origClOrdId i.orderQty i.side = .ok (.inl r)) ∧
      l' = l ∨
    ∃ o ob', Cancel.verifyOrderStateWithLock l.ob i.origClOrdId i.orderQty i.side =
      .ok (.inr o) ∧ l.ob.cancel i.origClOrdId i.side = .ok ob' ∧
      l' = { l with ob := ob', cancelled := l.cancelled ++ [o.submission] } := by
  simp only [step] at h
  cases hw : Cancel.work l.ob i.origClOrdId i.orderQty i.side with
  | error f => simp [hw] at h
  | ok r =>
    obtain ⟨v, ob'⟩ := r
    obtain ⟨hv, ⟨⟨r, rfl⟩, rfl⟩ | ⟨⟨o, rfl⟩, hok⟩⟩ := Cancel.work_ok hw
    · simp only [hw, Option.some.injEq] at h
      exact .inl ⟨⟨r, hv⟩, h.symm⟩
    · simp only [hw, Option.some.injEq] at h
      exact .inr ⟨o, ob', hv, hok, h.symm⟩

/-- The book of a ledger goes through the states of the workers' runs. -/
theorem step_ob {l l' : Ledger α} {op : Worker.Op α} (h : l.step op = some l') :
    Worker.step l.ob op = some l'.ob := by
  cases op with
  | newOrder i =>
    simp only [step] at h
    split at h
    · cases h
    · cases hw : NewOrder.work l.ob i.info with
      | error f => simp [hw] at h
      | ok r =>
        obtain ⟨v, ob'⟩ := r
        cases v <;> simp only [hw, Option.some.injEq] at h <;> subst h <;>
          simp [Worker.step, hw, Except.toOption]
  | cancel i =>
    simp only [step] at h
    cases hw : Cancel.work l.ob i.origClOrdId i.orderQty i.side with
    | error f => simp [hw] at h
    | ok r =>
      obtain ⟨v, ob'⟩ := r
      cases v <;> simp only [hw, Option.some.injEq] at h <;> subst h <;>
        simp [Worker.step, hw, Except.toOption]

theorem reachable_ob {name : String} {C : Ledger α → Worker.Op α → Prop} {l : Ledger α}
    (h : Trans.Run step C (new name) l) : Worker.Reachable name l.ob := by
  induction h with
  | start => exact .start
  | next _ _ hs ih => exact ih.next trivial (step_ob hs)

/-- What every run keeps: resting submissions are distinct, and they, the reported and the cancelled
ones were acknowledged. -/
structure Inv (l : Ledger α) : Prop where
  nodup : (submissions l.ob.resting).Nodup
  resting : ∀ s ∈ submissions l.ob.resting, s ∈ l.acked.map Order.submission
  events : ∀ e ∈ l.ob.eventOutput, e.order.submission ∈ l.acked.map Order.submission
  cancelled : ∀ s ∈ l.cancelled, s ∈ l.acked.map Order.submission

end Ledger

/-- A new order the worker accepts: the bookkeeping is kept, the reports of all other orders stay
right, and its own are right iff the tick rule does not cut it short. -/
theorem Ledger.Inv.add {l : Ledger α} (hI : l.Inv) (ob : OrderBook α) {ob' : OrderBook α}
    (hob : ob.resting = l.ob.resting ∧ ob.eventOutput = l.ob.eventOutput) (i : NewOrderInput α)
    (hfresh : i.executionId ∉ l.acked.map Order.submission) (hadd : ob.add i.info = .ok ob')
    (hset : ob.tick.Settled) (hallow : ob.tick.allows i.side = true) :
    let l' : Ledger α := { l with ob := ob', acked := l.acked ++ [i.info.order] }
    l'.Inv ∧ (l.Complete → (l'.Complete ↔ ob.tickStops i = false)) := by
  obtain ⟨idmap, c, st, reports, left, hsteps, hev, hout, hleft, hperm⟩ :=
    add_spec i.supported rfl hadd
  have hsubm : i.info.order.submission = i.executionId := rfl
  have hloop : LoopInv (l.acked.map Order.submission) i.executionId ob.resting
      (ob.fillState idmap i.info) :=
    ⟨rfl, hob.1 ▸ hI.nodup, hob.1 ▸ hI.resting, fun e he => hI.events e (hob.2 ▸ he)⟩
  obtain ⟨hloop', hkeep⟩ := hsteps.loopInv hloop
  have hreports : ∀ e ∈ reports, e.order.submission = i.executionId := fun e he => by
    rcases hout.shape with hnil | ⟨status, hone⟩
    · simp [hnil] at he
    · rw [hone, List.mem_singleton] at he
      rw [he]
      exact hloop'.main
  have hincoming : ReportedIn ob'.resting ob'.eventOutput i.info.order ↔ ob.tickStops i = false := by
    rw [ReportedIn.perm hperm, hev, reported_incoming ob.nextNode hloop' hfresh hout, hleft,
      ← Bool.not_eq_true, ← add_tickRefused i hset hallow]
    rfl
  have hothers : ∀ o : Order α, o.submission ≠ i.executionId →
      ReportedIn l.ob.resting l.ob.eventOutput o → ReportedIn ob'.resting ob'.eventOutput o := by
    intro o ho hr
    rw [← hob.1, ← hob.2] at hr
    rw [hev]
    refine (hkeep o hr).congr (fun x hx => ?_)
      (reportedRemaining_other fun e he hs => ho (hs.symm.trans (hreports e he)))
    rw [hperm.mem_iff]
    split
    · rw [List.mem_cons, or_iff_right]
      exact fun he => ho (hx.symm.trans (he ▸ rfl))
    · exact Iff.rfl
  have hacked : (l.acked ++ [i.info.order]).map Order.submission =
      l.acked.map Order.submission ++ [i.executionId] := by simp [hsubm]
  refine ⟨⟨?_, ?_, ?_, ?_⟩, fun hcomplete => ⟨fun h => ?_, fun hstop o ho hno => ?_⟩⟩
  · refine (hperm.map _).nodup_iff.2 ?_
    split
    · exact List.nodup_cons.2 ⟨fun hm => hfresh (hloop'.resting _ hm), hloop'.nodup⟩
    · exact hloop'.nodup
  · intro s hs
    rw [hacked]
    have := (hperm.map _).mem_iff.1 hs
    split at this
    · rcases List.mem_cons.1 this with rfl | hm
      · simp [OrderBook.restingOrder, hsubm]
      · exact List.mem_append_left _ (hloop'.resting s hm)
    · exact List.mem_append_left _ (hloop'.resting s this)
  · intro e he
    rw [hacked]
    rcases List.mem_append.1 (hev ▸ he) with he | he
    · exact List.mem_append_left _ (hloop'.events e he)
    · simp [hreports e he]
  · intro s hs
    rw [hacked]
    exact List.mem_append_left _ (hI.cancelled s hs)
  · exact hincoming.1 (h i.info.order (by simp) fun hm => hfresh (hI.cancelled _ hm))
  · rcases List.mem_append.1 ho with ho | ho
    · refine hothers o (fun he => hfresh ?_) (hcomplete o ho hno)
      exact he ▸ List.mem_map.2 ⟨o, ho, rfl⟩
    · rw [List.mem_singleton.1 ho]
      exact hincoming.2 hstop

/-- One request: the bookkeeping is kept, and completeness is iff the condition is met. -/
theorem Ledger.Inv.step {l l' : Ledger α} {op : Worker.Op α} (hI : l.Inv) (hrep : RepInv l.ob)
    (hset : l.ob.tick.Settled) (hs : l.step op = some l') :
    l'.Inv ∧ (l.Complete → (l'.Complete ↔ l.TickSafe op)) := by
  cases op with
  | newOrder i =>
    obtain ⟨hfresh, ⟨hv, rfl⟩ | ⟨hv, hallow, ob', hadd, rfl⟩⟩ := Ledger.step_newOrder hs
    · exact ⟨⟨hI.nodup, hI.resting, hI.events, hI.cancelled⟩,
        fun hc => iff_of_true hc fun hacc => absurd hacc hv⟩
    · obtain ⟨hI', hiff⟩ := hI.add (l.ob.allowTick i.side).2 ⟨rfl, rfl⟩ i hfresh hadd
        (Tick.settled_computeTick _) hallow
      refine ⟨hI', fun hc => (hiff hc).trans ?_⟩
      have hstops : (l.ob.allowTick i.side).2.tickStops i = l.ob.tickStops i := by
        simp [OrderBook.tickStops, OrderBook.allowTick, Tick.allowTick]
      rw [hstops]
      exact ⟨fun h _ => h, fun h => h hv⟩
  | cancel i =>
    rcases Ledger.step_cancel hs with ⟨-, rfl⟩ | ⟨o, ob', hv, hok, rfl⟩
    · exact ⟨hI, fun hc => iff_of_true hc trivial⟩
    · rcases hrep.verify i.origClOrdId i.orderQty i.side with
        ⟨r, hr⟩ | ⟨ob'', o', hv', -, -, hok', -, -, hrem, -⟩
      · rw [hv] at hr
        cases hr
      · rw [hv] at hv'
        rw [hok] at hok'
        cases hv'
        cases hok'
        obtain ⟨pre, post, x, hbefore, hafter, rfl, hev⟩ := hrem.resting
        have hsub : (submissions (pre ++ post)).Sublist (submissions (pre ++ x :: post)) :=
          List.Sublist.map _ (by simp)
        have hnd := hI.nodup
        have hrest := hI.resting
        rw [hbefore] at hnd hrest
        refine ⟨⟨?_, ?_, ?_, ?_⟩, fun hc => iff_of_true (fun o ho hno => ?_) trivial⟩
        · rw [hafter]
          exact hnd.sublist hsub
        · rw [hafter]
          exact fun s hs => hrest s (hsub.subset hs)
        · rw [hev]
          exact hI.events
        · intro s hs
          rcases List.mem_append.1 hs with hs | hs
          · exact hI.cancelled s hs
          · rw [List.mem_singleton.1 hs]
            exact hrest _ (by simp [submissions])
        · simp only [List.mem_append, List.mem_singleton, not_or] at hno
          have hr := hc o ho hno.1
          rw [hbefore] at hr
          rw [hafter, hev]
          refine hr.congr (fun y hy => ?_) rfl
          have hne : y ≠ x := fun he => hno.2 (he ▸ hy.symm)
          simp [hne]

theorem Ledger.Inv.new (name : String) : (Ledger.new name : Ledger α).Inv :=
  ⟨List.nodup_nil, fun _ h => (by cases h), fun _ h => (by cases h), fun _ h => (by cases h)⟩

theorem Ledger.inv_of_run {name : String} {C : Ledger α → Worker.Op α → Prop} {l : Ledger α}
    (h : Trans.Run Ledger.step C (Ledger.new name) l) : l.Inv :=
  h.invariant_with (J := fun l => Worker.Reachable name l.ob) (Ledger.Inv.new name)
    (fun _ hs => Ledger.reachable_ob hs) fun _ _ _ hI hreach _ hs =>
      (hI.step (repInv_of_reachable hreach) (settled_of_reachable hreach) hs).1

/-- **Report completeness**, exactly when: along the runs whose requests are all `TickSafe`, every
acknowledged order that was not cancelled is fully reported, and the first request that is not ends
that. -/
theorem reports_complete (name : String) :
    (∀ l : Ledger α, Trans.Run Ledger.step Ledger.TickSafe (Ledger.new name) l → l.Complete) ∧
    ∀ (l l' : Ledger α) (op : Worker.Op α),
      Trans.Run Ledger.step Ledger.TickSafe (Ledger.new name) l → l.step op = some l' →
        (l'.Complete ↔ l.TickSafe op) := by
  have hstep : ∀ (l l' : Ledger α) (op : Worker.Op α),
      Trans.Run Ledger.step Ledger.TickSafe (Ledger.new name) l → l.step op = some l' →
        l.Complete → (l'.Complete ↔ l.TickSafe op) := fun l l' op h hs =>
    have hreach := Ledger.reachable_ob h
    ((Ledger.inv_of_run h).step (repInv_of_reachable hreach) (settled_of_reachable hreach) hs).2
  have hrun : ∀ l : Ledger α, Trans.Run Ledger.step Ledger.TickSafe (Ledger.new name) l →
      l.Complete := fun l h => by
    induction h with
    | start => exact fun o ho => nomatch ho
    | next hr hc hs ih => exact (hstep _ _ _ hr hs ih).2 hc
  exact ⟨hrun, fun l l' op h hs => hstep l l' op h hs (hrun l h)⟩

/-- A sell and a buy of 1 at 10, then sells of 1 at 5 and at 8. -/
def twoLevels : List (Worker.Op ℚ) :=
  [.newOrder ⟨"A", "e1", "s1", 10, 1, .sell, Side.supported_sell⟩,
    .newOrder ⟨"B", "e2", "b1", 10, 1, .buy, Side.supported_buy⟩,
    .newOrder ⟨"A", "e3", "s2", 5, 1, .sell, Side.supported_sell⟩,
    .newOrder ⟨"A", "e4", "s3", 8, 1, .sell, Side.supported_sell⟩]

/-- A `BuyMinus` of 2 at 9: it trades at 5, which turns the tick against it, and rests with 1 left
while its last report leaves 2. -/
def minusBuy : NewOrderInput ℚ := ⟨"B", "e5", "b2", 9, 2, .buyMinus, rfl⟩

theorem reports_incomplete : ∃ l : Ledger ℚ,
    Trans.Reach Ledger.step (Ledger.new "AAPL") l ∧ minusBuy.info.order ∈ l.acked ∧
    minusBuy.executionId ∉ l.cancelled ∧
    reportedRemaining l.ob.eventOutput minusBuy.info.order = 2 ∧
    (∃ x ∈ l.ob.resting, x.2.order.submission = minusBuy.executionId ∧ x.2.order.remainQty = 1) ∧
    ¬ l.Complete := by
  have hrun : ((Trans.exec Ledger.step (fun _ _ => True) (Ledger.new "AAPL")
      (twoLevels ++ [.newOrder minusBuy])).map fun l => decide (minusBuy.info.order ∈ l.acked ∧
        minusBuy.executionId ∉ l.cancelled ∧
        reportedRemaining l.ob.eventOutput minusBuy.info.order = 2 ∧
        ∃ x ∈ l.ob.resting, x.2.order.submission = minusBuy.executionId ∧
          x.2.order.remainQty = 1)) = some true := by
    decide +kernel
  obtain ⟨l, hexec, hl⟩ := Option.map_eq_some_iff.1 hrun
  obtain ⟨hacked, hno, hrep, x, hx, hsub, hrem⟩ := of_decide_eq_true hl
  refine ⟨l, .of_exec .start hexec, hacked, hno, hrep, ⟨x, hx, hsub, hrem⟩, fun hc => ?_⟩
  have := (hc _ hacked hno).1 x hx hsub
  rw [hrep, hrem] at this
  exact absurd this (by decide +kernel)

/-- The same orders with a plain buy are fully reported; the `BuyMinus` is the first that is not. -/
theorem reports_complete_run : ∃ l l' : Ledger ℚ,
    Trans.exec Ledger.step Ledger.TickSafe (Ledger.new "AAPL")
      (twoLevels ++ [.newOrder ⟨"C", "e6", "b3", 4, 1, .buy, rfl⟩]) = some l ∧ l.Complete ∧
    l.step (.newOrder minusBuy) = some l' ∧ ¬ l'.Complete := by
  have hrun : ((Trans.exec Ledger.step Ledger.TickSafe (Ledger.new "AAPL")
      (twoLevels ++ [.newOrder ⟨"C", "e6", "b3", 4, 1, .buy, rfl⟩])).map fun l =>
        decide ((l.step (.newOrder minusBuy)).isSome = true ∧
          ¬ l.TickSafe (.newOrder minusBuy))) = some true := by
    decide +kernel
  obtain ⟨l, hexec, hl⟩ := Option.map_eq_some_iff.1 hrun
  obtain ⟨hsome, hunsafe⟩ := of_decide_eq_true hl
  obtain ⟨l', hs⟩ := Option.isSome_iff_exists.1 hsome
  obtain ⟨hcomplete, hexact⟩ := reports_complete (α := ℚ) "AAPL"
  have hsafe := Trans.Run.of_exec .start hexec
  exact ⟨l, l', hexec, hcomplete l hsafe, hs, mt (hexact l l' _ hsafe hs).1 hunsafe⟩

end Fix42
