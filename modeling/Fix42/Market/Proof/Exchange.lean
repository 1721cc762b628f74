import Fix42.Market.Exchange
import Fix42.Market.Proof.Causal

/-!
# Reports go to the user who submitted the order

`Exchange.Inv`: an order in the book, and an event on its way, carries the user id it was submitted
under (`add_owned` for the book); a request the NewOrder worker has in hand is known under its client.
Steps that `Keeps` keep it, so what they append is confidential (`confidential`). In
`not_confidential` an order taken up after its client was disconnected is reported to a client that
never logged in.
-/

namespace Fix42

open SortedMap

variable {α : Type*}

/-! ## The owner of an order -/

/-- A relation between the submission of an order and its user. -/
def Order.Owned (P : ExecId → UserId → Prop) (o : Order α) : Prop := P o.submission o.userId

section
variable [Field α] [LinearOrder α] {P : ExecId → UserId → Prop}

/-- The orders the matching loop has in hand. -/
structure LoopOwned (P : ExecId → UserId → Prop) (c : List (α × Node α)) (st : FillState α) :
    Prop where
  resting : ∀ x ∈ c, x.2.order.Owned P
  main : st.main.order.Owned P
  events : ∀ e ∈ st.events, e.order.Owned P

omit [Field α] [LinearOrder α] in
theorem Order.SameAs.owned {o o' : Order α} (h : o.SameAs o') (ho : o'.Owned P) : o.Owned P := by
  unfold Order.Owned
  rw [h.submission, h.userId]
  exact ho

theorem FillStep.owned {c c' : List (α × Node α)} {st st' : FillState α}
    (h : FillStep (c, st) (c', st')) (hI : LoopOwned P c st) : LoopOwned P c' st' := by
  obtain ⟨hrest, hmain, hev⟩ := h.sameAs
  refine ⟨fun x hx => ?_, hmain.owned hI.main, fun e he => ?_⟩
  · obtain ⟨y, hy, hxy⟩ := hrest x hx
    exact hxy.owned (hI.resting y hy)
  · rcases hev e he with he | ⟨y, hy, hey⟩
    · exact hI.events e he
    · exact hey.owned (hI.resting y hy)

/-- `add` makes no orders but the incoming one. -/
theorem add_owned {ob ob' : OrderBook α} {info : OrderInfo α}
    (hs : info.order.side.supported = true) (hq : info.order.remainQty = info.order.originalQty)
    (h : ob.add info = .ok ob') (hrest : ∀ x ∈ ob.resting, x.2.order.Owned P)
    (hev : ∀ e ∈ ob.eventOutput, e.order.Owned P) (hinfo : info.order.Owned P) :
    (∀ x ∈ ob'.resting, x.2.order.Owned P) ∧ ∀ e ∈ ob'.eventOutput, e.order.Owned P := by
  obtain ⟨idmap, c, st, reports, left, hsteps, hevents, hout, -, hperm⟩ := add_spec hs hq h
  have hloop : LoopOwned P c st :=
    hsteps.invariant ⟨hrest, hinfo, hev⟩ fun _ _ _ _ hI hstep => hstep.owned hI
  refine ⟨fun x hx => ?_, fun e he => ?_⟩
  · have hx' := hperm.mem_iff.1 hx
    split at hx'
    · rcases List.mem_cons.1 hx' with rfl | hx'
      · exact hinfo
      · exact hloop.resting x hx'
    · exact hloop.resting x hx'
  · rw [hevents] at he
    rcases List.mem_append.1 he with he | he
    · exact hloop.events e he
    · rcases hout.shape with hr | ⟨status, hr⟩
      · simp [hr] at he
      · rw [hr, List.mem_singleton] at he
        rw [he]
        exact hloop.main

end

/-! ## The requests of a market -/

/-- The reports a list of effects appends. -/
def reportsOf (es : List (Effect α)) : List (Output α) :=
  es.filterMap fun
    | .append out => some out
    | _ => none

def NewWorkerPc.reports : NewWorkerPc α → List (Output α)
  | .running es => reportsOf es
  | .waiting _ _ | .checking _ _ | .dead => []

/-- The request the NewOrder worker has in hand. -/
def NewWorkerPc.request : NewWorkerPc α → Option (Context (NewOrderSingle α))
  | .waiting i _ | .checking i _ => some i
  | .running _ | .dead => none

namespace Market

variable [Field α] [LinearOrder α] {m m' : Market α} {a : Action α}

theorem exec_newQueue {m1 : Market α} {e : Effect α} (done : m.exec e = .ok m1)
    {i : Context (NewOrderSingle α)} (hi : i ∈ m1.newQueue) : i ∈ m.newQueue ∨ e = .queueNew i := by
  cases exec_sound done with
  | queueNew j =>
    rcases List.mem_append.1 hi with hi | hi
    · exact .inl hi
    · exact .inr (by rw [List.mem_singleton.1 hi])
  | _ => exact .inl hi

/-- New requests come from the router. -/
theorem newRequests_step (hb : Base m) (hs : Step m a m') {i : Context (NewOrderSingle α)}
    (hi : i ∈ m'.newRequests) : i ∈ m.newRequests ∨ a = .route (.newOrder i) := by
  have hb' := hb.step hs
  have heffect : ∀ {m1 : Market α} {e : Effect α}, m.exec e = .ok m1 → e ≠ .queueNew i →
      i ∈ m1.newRequests → i ∈ m.newRequests := by
    intro m1 e done he hi
    have hf := exec_frame done
    have hq := exec_newQueue (i := i) done
    simp only [newRequests, hf.newUnit, hf.newInput, hf.router, List.mem_append] at hi ⊢
    tauto
  cases hs with
  | session | newWorkerLock | newWorkerCheck | cancelUnitNoQuantity | cancelUnitThrow
  | cancelUnitUnknown | cancelUnitFound | cancelUnitGone | cancelUnitOtherSide | cancelUnitVerified
  | cancelUnitAccept | cancelWorkerPop | cancelWorkerLock | cancelWorkerCheck | eventTake
  | eventPass | poolTake | poolDrop | poolReport => exact .inl hi
  | routeNew j idle fresh =>
    simp only [newRequests, idle, RouterPc.newOrders, List.mem_append, List.mem_singleton] at hi ⊢
    rcases hi with hi | rfl
    · exact .inl (.inl hi)
    · exact .inr rfl
  | routeCancel j idle fresh =>
    left
    simpa [newRequests, idle, RouterPc.newOrders] using hi
  | allow r pc =>
    left
    rw [newRequests, pc]
    cases r <;> exact hi
  | handNew j pc | handCancel j pc =>
    left
    simpa [newRequests, pc, RouterPc.newOrders] using hi
  | newUnitPop j rest pc input =>
    left
    have hsub : i ∈ queuedNew (NewOrder.onInput j) → i = j := fun h =>
      List.mem_singleton.1 ((queuedNew_onInput j).subset h)
    simp only [newRequests, pc, input, List.mem_append, List.mem_cons] at hi ⊢
    tauto
  | newUnitEffect e es m1 pc done =>
    left
    have hf := exec_frame done
    have hq := exec_newQueue (i := i) done
    have hunit : e = .queueNew i ∨ i ∈ queuedNew es → i ∈ queuedNew (e :: es) := by
      rintro (rfl | h)
      · exact List.mem_cons_self
      · exact ((List.suffix_cons e es).sublist.filterMap _).subset h
    simp only [newRequests, pc, hf.newInput, hf.router, List.mem_append] at hi ⊢
    tauto
  | newWorkerPop j rest info pc queue value =>
    left
    simp only [newRequests, queue, List.mem_append, List.mem_cons] at hi ⊢
    tauto
  | newWorkerEffect e es m1 pc done =>
    refine .inl (heffect done (fun he => ?_) hi)
    subst he
    exact hb.newWorker_effect pc
  | cancelUnitEffect e es m1 pc done =>
    have hok := hb.cancelUnit
    rw [pc] at hok
    exact .inl (heffect done ((hok e (by simp)).2 i) hi)
  | cancelWorkerEffect e es m1 pc done =>
    refine .inl (heffect done (fun he => ?_) hi)
    subst he
    exact hb.cancelWorker_effect pc
  | newWorkerThrow | newWorkerFault => exact hb'.newWorker.elim
  | cancelWorkerThrow | cancelWorkerFault => exact hb'.cancelWorker.elim

/-- Every order of the market, at rest or in an event. -/
structure AllOwned (P : ExecId → UserId → Prop) (m : Market α) : Prop where
  resting : ∀ x ∈ m.ob.resting, x.2.order.Owned P
  events : ∀ e ∈ m.events, e.order.Owned P

/-- An effect but `add` brings no order. -/
theorem AllOwned.effect {P : ExecId → UserId → Prop} (h : AllOwned P m) {m1 : Market α}
    {e : Effect α} (done : m.exec e = .ok m1)
    (hadd : ∀ info, e = .add info → info.order.side.supported = true ∧
      info.order.remainQty = info.order.originalQty ∧ info.order.Owned P)
    (hcancel : ∀ i, e = .cancel i → ∃ ob' order, m.ob.cancel i.message.origClOrdId i.message.side =
      .ok ob' ∧ Removes m.ob ob' order) : AllOwned P m1 := by
  have hf := exec_frame done
  have hevents : ∀ e ∈ m1.events, e ∈ m.events ∨ e ∈ m1.ob.eventOutput := fun e he => by
    simp only [Market.events, hf.poolWorker, hf.poolQueue, hf.eventUnit, List.mem_append] at he ⊢
    tauto
  have hold : ∀ e ∈ m.ob.eventOutput, e.order.Owned P := fun e he =>
    h.events e (List.mem_append_right _ he)
  rcases exec_ob done with ⟨info, rfl, hok⟩ | ⟨i, rfl, hok⟩ | hob
  · obtain ⟨hs, hq, hinfo⟩ := hadd info rfl
    obtain ⟨hrest, hev⟩ := add_owned hs hq hok h.resting hold hinfo
    exact ⟨hrest, fun e he => (hevents e he).elim (h.events e) (hev e)⟩
  · obtain ⟨ob', order, hok', hrem⟩ := hcancel i rfl
    rw [hok] at hok'
    cases hok'
    obtain ⟨-, -, -, -, -, -, hev⟩ := hrem.resting
    refine ⟨fun y hy => h.resting y (hrem.subset hy),
      fun e he => (hevents e he).elim (h.events e) ?_⟩
    rw [hev]
    exact hold e
  · refine ⟨by rw [hob]; exact h.resting, fun e he => (hevents e he).elim (h.events e) ?_⟩
    rw [hob]
    exact hold e

theorem AllOwned.step {P : ExecId → UserId → Prop} (h : AllOwned P m) (hb : Base m)
    (hinfos : ∀ info ∈ m.newWorker.infos, info.order.Owned P) (hs : Step m a m') :
    AllOwned P m' := by
  have hb' := hb.step hs
  have hevents := h.events
  cases hs with
  | session | routeNew | routeCancel | allow | handNew | handCancel | newUnitPop | newWorkerPop
  | newWorkerLock | newWorkerCheck | cancelUnitNoQuantity | cancelUnitThrow | cancelUnitUnknown
  | cancelUnitFound | cancelUnitGone | cancelUnitOtherSide | cancelUnitVerified | cancelUnitAccept
  | cancelWorkerPop | cancelWorkerLock | cancelWorkerCheck => exact ⟨h.resting, h.events⟩
  | newUnitEffect e es m1 pc done =>
    have he := hb.newUnit e (by simp [pc])
    have h1 := h.effect done (by rintro info rfl; cases he) (by rintro i rfl; cases he)
    exact ⟨h1.resting, h1.events⟩
  | cancelUnitEffect e es m1 pc done =>
    have hok := hb.cancelUnit
    rw [pc] at hok
    have he := (hok e (by simp)).1
    have h1 := h.effect done (by rintro info rfl; cases he) (by rintro i rfl; cases he)
    exact ⟨h1.resting, h1.events⟩
  | newWorkerEffect e es m1 pc done =>
    have h1 : AllOwned P m1 := by
      refine h.effect done ?_ ?_
      · rintro info rfl
        obtain ⟨-, hside, hqty, -⟩ := hb.next_add pc
        exact ⟨hside, hqty, hinfos info (by simp [pc, NewWorkerPc.infos])⟩
      · rintro j rfl
        exact (hb.newWorker_effect pc).elim
    exact ⟨h1.resting, h1.events⟩
  | cancelWorkerEffect e es m1 pc done =>
    have h1 : AllOwned P m1 := by
      refine h.effect done ?_ ?_
      · rintro info rfl
        exact (hb.cancelWorker_effect pc).elim
      · rintro j rfl
        obtain ⟨ob', order, hok, -, -, -, hrem⟩ := hb.next_cancel pc
        exact ⟨ob', order, hok, hrem⟩
    exact ⟨h1.resting, h1.events⟩
  | eventTake e rest pc queue | poolTake e rest pc queue =>
    refine ⟨h.resting, fun x hx => hevents x ?_⟩
    simp only [Market.events, pc, queue, List.mem_append, List.mem_cons, Option.toList_some,
      Option.toList_none, List.not_mem_nil] at hx ⊢
    tauto
  | eventPass e pc | poolDrop e pc | poolReport e client pc =>
    refine ⟨h.resting, fun x hx => hevents x ?_⟩
    simp only [Market.events, pc, List.mem_append, Option.toList_some, Option.toList_none,
      List.not_mem_nil] at hx ⊢
    tauto
  | newWorkerThrow | newWorkerFault => exact hb'.newWorker.elim
  | cancelWorkerThrow | cancelWorkerFault => exact hb'.cancelWorker.elim

omit [LinearOrder α] in
/-- The NewOrder worker answers the client of its request, about that request. -/
theorem orderProcessing_reports (name : String) {i : Context (NewOrderSingle α)} {info : OrderInfo α}
    (hb : NewOrder.Built i info) (v : Verdict) :
    ∀ out ∈ reportsOf (NewOrder.orderProcessing name i info v),
      out.about = some i.executionId ∧ out.client = i.client := by
  obtain ⟨-, userId, price, qty, -, rfl⟩ := hb.eq
  cases v with
  | accepted | tickRefused | duplicate =>
    intro out hout
    simp only [NewOrder.orderProcessing, reportsOf, List.filterMap_cons, List.filterMap_nil,
      List.mem_cons, List.not_mem_nil, or_false] at hout
    subst hout
    exact ⟨rfl, rfl⟩

/-- What the NewOrder worker has in hand, with its request `Q`, its order `P` and its reports `R`. -/
structure WorkerHas (Q : Context (NewOrderSingle α) → Prop) (P : ExecId → UserId → Prop)
    (R : Output α → Prop) (w : NewWorkerPc α) : Prop where
  request : ∀ i ∈ w.request, Q i
  infos : ∀ info ∈ w.infos, info.order.Owned P
  reports : ∀ out ∈ w.reports, R out

theorem WorkerHas.step {Q : Context (NewOrderSingle α) → Prop} {P : ExecId → UserId → Prop}
    {R : Output α → Prop} (h : WorkerHas Q P R m.newWorker) (hb : Base m) (hs : Step m a m')
    (pop : ∀ i ∈ m.taken, Q i ∧ ∀ x t, a = .run .newWorker x t → P i.executionId (m.userId i.client))
    (answer : ∀ i out, Q i → out.about = some i.executionId → out.client = i.client → R out) :
    WorkerHas Q P R m'.newWorker := by
  have hb' := hb.step hs
  by_cases ha : ∃ x t, a = .run .newWorker x t
  · obtain ⟨x, t, rfl⟩ := ha
    cases hs with
    | newWorkerPop i rest info pc queue value =>
      obtain ⟨hq, hp⟩ := pop i (by simp [taken, pc, queue])
      refine ⟨fun j hj => ?_, fun info' hi => ?_, fun out ho => by cases ho⟩
      · cases hj
        exact hq
      · simp only [NewWorkerPc.infos, List.mem_singleton] at hi
        subst hi
        unfold NewOrder.orderInfo at value
        split at value <;> cases value
        exact hp x t rfl
    | newWorkerLock i info pc can =>
      rw [pc] at h
      exact ⟨h.request, h.infos, h.reports⟩
    | newWorkerCheck i info pc =>
      have hbuilt : NewOrder.Built i info := by
        have := hb.newWorker
        rwa [pc] at this
      rw [pc] at h
      refine ⟨fun j hj => (by cases hj), fun info' hi => ?_, fun out ho => ?_⟩
      · exact h.infos info' ((orderProcessing_view m.ob.name hbuilt _).2 hi)
      · obtain ⟨habout, hclient⟩ := orderProcessing_reports m.ob.name hbuilt _ out ho
        exact answer i out (h.request i rfl) habout hclient
    | newWorkerEffect e es m1 pc done =>
      rw [pc] at h
      have htail := (List.suffix_cons e es).sublist
      have hinfos : (NewWorkerPc.running es).infos ⊆ (NewWorkerPc.running (e :: es)).infos := by
        unfold NewWorkerPc.infos
        exact (htail.filterMap _).subset
      have hreports : (NewWorkerPc.running es).reports ⊆ (NewWorkerPc.running (e :: es)).reports := by
        unfold NewWorkerPc.reports
        exact (htail.filterMap _).subset
      exact ⟨fun j hj => (by cases hj), fun info hi => h.infos info (hinfos hi),
        fun out ho => h.reports out (hreports ho)⟩
    | newWorkerThrow | newWorkerFault => exact hb'.newWorker.elim
  · rw [hs.newWorker_eq fun x t he => ha ⟨x, t, he⟩]
    exact h

theorem exec_userId {m1 : Market α} {e : Effect α} (done : m.exec e = .ok m1) :
    m1.userId = m.userId := by
  cases exec_sound done <;> rfl

theorem userId_step (hs : Step m a m') (ha : ∀ clients userId, a ≠ .session clients userId) :
    m'.userId = m.userId := by
  cases hs with
  | session clients userId => exact absurd rfl (ha clients userId)
  | newUnitEffect e es m1 pc done | newWorkerEffect e es m1 pc done
  | cancelUnitEffect e es m1 pc done | cancelWorkerEffect e es m1 pc done =>
    have hu := exec_userId done
    exact hu
  | _ => rfl

/-! ## Reports of the other threads -/

omit [Field α] [LinearOrder α] in
theorem reportsOf_tail (e : Effect α) (es : List (Effect α)) : reportsOf es ⊆ reportsOf (e :: es) :=
  ((List.suffix_cons e es).sublist.filterMap _).subset

/-- The two units and the Cancel worker send no report that acknowledges, rejects or fills. -/
structure Untold (m : Market α) : Prop where
  newUnit : ∀ out ∈ reportsOf m.newUnit, out.tells = false
  cancelUnit : ∀ es, m.cancelUnit = .running es → ∀ out ∈ reportsOf es, out.tells = false
  cancelWorker : ∀ es, m.cancelWorker = .running es → ∀ out ∈ reportsOf es, out.tells = false

omit [Field α] [LinearOrder α] in
theorem onInput_untold (i : Context (NewOrderSingle α)) :
    ∀ out ∈ reportsOf (NewOrder.onInput i), out.tells = false := by
  unfold NewOrder.onInput
  split
  · simp [reportsOf, NewOrder.reject, businessReject, Output.tells]
  · split
    · simp [reportsOf, NewOrder.reject, businessReject, Output.tells]
    · split <;> split <;> simp [reportsOf, NewOrder.notSupportedSide,
        NewOrder.notSupportedOrderType, NewOrder.reject, businessReject, Output.tells]

omit [LinearOrder α] in
theorem accept_untold (name : String) (i : Context (OrderCancelRequest α)) (order : Order α)
    (busy : Bool) : ∀ out ∈ reportsOf (Cancel.accept name i order busy), out.tells = false := by
  cases busy <;> simp [Cancel.accept, reportsOf, Cancel.pendingCancel, Cancel.answer, Cancel.report,
    Output.tells, OrderStatus.isFill]

omit [LinearOrder α] in
theorem cancel_untold (name : String) (i : Context (OrderCancelRequest α))
    (v : Cancel.Refusal ⊕ Order α) :
    ∀ out ∈ reportsOf (Cancel.orderProcessing name i v), out.tells = false := by
  rcases v with (_ | _) | order <;> simp [Cancel.orderProcessing, reportsOf, Cancel.reject,
    Cancel.canceled, Cancel.answer, Cancel.report, Output.tells, OrderStatus.isFill]

theorem Untold.step (h : Untold m) (hs : Step m a m') : Untold m' := by
  have hn := h.newUnit
  have hc := h.cancelUnit
  have hw := h.cancelWorker
  cases hs with
  | newUnitPop i => exact ⟨onInput_untold i, hc, hw⟩
  | newUnitEffect e es m1 pc done =>
    have hf := exec_frame done
    rw [pc] at hn
    exact ⟨fun out ho => hn out (reportsOf_tail e es ho), by simpa only [hf.cancelUnit] using hc,
      by simpa only [hf.cancelWorker] using hw⟩
  | newWorkerEffect e es m1 pc done =>
    have hf := exec_frame done
    exact ⟨by simpa only [hf.newUnit] using hn, by simpa only [hf.cancelUnit] using hc,
      by simpa only [hf.cancelWorker] using hw⟩
  | cancelUnitNoQuantity i | cancelUnitUnknown i | cancelUnitOtherSide i =>
    refine ⟨hn, ?_, hw⟩
    rintro es ⟨⟩
    simp [Cancel.noQuantity, Cancel.unknownOrder, Cancel.otherSide, reportsOf, Cancel.reject,
      businessReject, Output.tells]
  | cancelUnitThrow | cancelUnitFound | cancelUnitGone | cancelUnitVerified =>
    exact ⟨hn, fun es he => (by cases he), hw⟩
  | cancelUnitAccept i order busy =>
    refine ⟨hn, ?_, hw⟩
    rintro es ⟨⟩
    exact accept_untold m.ob.name i order busy
  | cancelUnitEffect e es m1 pc done =>
    have hf := exec_frame done
    refine ⟨by simpa only [hf.newUnit] using hn, ?_, by simpa only [hf.cancelWorker] using hw⟩
    rintro es' ⟨⟩
    exact fun out ho => hc _ pc out (reportsOf_tail e es ho)
  | cancelWorkerPop | cancelWorkerLock | cancelWorkerThrow | cancelWorkerFault =>
    exact ⟨hn, hc, fun es he => (by cases he)⟩
  | cancelWorkerCheck i qty v =>
    refine ⟨hn, hc, ?_⟩
    rintro es ⟨⟩
    exact cancel_untold m.ob.name i v
  | cancelWorkerEffect e es m1 pc done =>
    have hf := exec_frame done
    refine ⟨by simpa only [hf.newUnit] using hn, by simpa only [hf.cancelUnit] using hc, ?_⟩
    rintro es' ⟨⟩
    exact fun out ho => hw _ pc out (reportsOf_tail e es ho)
  | _ => exact ⟨hn, hc, hw⟩

/-- Who says what: the NewOrder worker, and the pool to a client it has looked up. -/
theorem tells_step (h : Untold m) (hs : Step m a m') {outs : List (Output α)}
    (ho : m'.output = m.output ++ outs) : ∀ out ∈ outs, out.tells = true →
      out ∈ m.newWorker.reports ∨ ∃ e, m.poolWorker = some e ∧ out.about = some e.order.submission ∧
        m.clients.find? (fun c => m.userId c = e.order.userId) = some out.client := by
  have hsame : m'.output = m.output → outs = [] := fun he => by simpa [he] using ho
  have heffect : ∀ {m1 : Market α} {e : Effect α}, m.exec e = .ok m1 → m1.output = m'.output →
      outs = [] ∨ ∃ out, e = .append out ∧ outs = [out] := by
    intro m1 e done he
    rcases exec_output done with hout | ⟨out, rfl, hout⟩
    · exact .inl (hsame (he.symm.trans hout))
    · refine .inr ⟨out, rfl, ?_⟩
      rw [← he, hout] at ho
      exact (List.append_cancel_left ho).symm
  have hquiet : ∀ {es : List (Effect α)} {out : Output α}, (∀ o ∈ reportsOf es, o.tells = false) →
      out ∈ reportsOf es → out.tells = true → False := fun hes hout ht => by
    simp [hes _ hout] at ht
  intro out hout ht
  cases hs with
  | newUnitEffect e es m1 pc done =>
    rcases heffect done rfl with rfl | ⟨o, rfl, rfl⟩
    · cases hout
    · rw [List.mem_singleton.1 hout] at ht
      exact (hquiet (pc ▸ h.newUnit) List.mem_cons_self ht).elim
  | newWorkerEffect e es m1 pc done =>
    rcases heffect done rfl with rfl | ⟨o, rfl, rfl⟩
    · cases hout
    · rw [List.mem_singleton.1 hout, pc]
      exact .inl List.mem_cons_self
  | cancelUnitEffect e es m1 pc done =>
    rcases heffect done rfl with rfl | ⟨o, rfl, rfl⟩
    · cases hout
    · rw [List.mem_singleton.1 hout] at ht
      exact (hquiet (h.cancelUnit _ pc) List.mem_cons_self ht).elim
  | cancelWorkerEffect e es m1 pc done =>
    rcases heffect done rfl with rfl | ⟨o, rfl, rfl⟩
    · cases hout
    · rw [List.mem_singleton.1 hout] at ht
      exact (hquiet (h.cancelWorker _ pc) List.mem_cons_self ht).elim
  | poolReport e client pc found =>
    have houts := List.append_cancel_left ho
    rw [← houts, List.mem_singleton] at hout
    subst hout
    exact .inr ⟨e, pc, rfl, found⟩
  | _ =>
    rw [hsame rfl] at hout
    cases hout

end Market

/-! ## The exchange -/

namespace Exchange

variable [Field α] [LinearOrder α]

/-- The request was submitted by its client. -/
def Recorded (subs : List Submission) (i : Context (NewOrderSingle α)) : Prop :=
  ∃ sub ∈ subs, sub.id = i.executionId ∧ sub.client = i.client

/-- The submission was made as `userId`. -/
def Under (subs : List Submission) (id : ExecId) (userId : UserId) : Prop :=
  ∃ sub ∈ subs, sub.id = id ∧ sub.userId = userId

/-- The report is about a submission of its client. -/
def Addressed (subs : List Submission) (out : Output α) : Prop :=
  ∃ sub ∈ subs, out.about = some sub.id ∧ out.client = sub.client

/-- The invariant (module doc). -/
structure Inv (s : Exchange α) : Prop where
  base : s.market.Base
  untold : s.market.Untold
  sessions : ∀ c, s.loggedIn c = true ↔ s.market.userId c ≠ ""
  users : ∀ sub ∈ s.submitted, sub.userId ≠ ""
  inbox : ∀ i, .newOrder i ∈ s.inbox → Recorded s.submitted i
  requests : ∀ i ∈ s.market.newRequests, Recorded s.submitted i
  worker : Market.WorkerHas (Recorded s.submitted) (Under s.submitted) (Addressed s.submitted)
    s.market.newWorker
  orders : Market.AllOwned (Under s.submitted) s.market

variable {s s' : Exchange α}

theorem Inv.new (name : String) : Inv (Exchange.new name : Exchange α) where
  base := .new name
  untold := ⟨fun out ho => (by cases ho), fun es he => by cases he; exact fun out ho => (by cases ho),
    fun es he => by cases he; exact fun out ho => (by cases ho)⟩
  sessions c := by simp [Exchange.new, Market.new]
  users sub hs := by cases hs
  inbox i hi := by cases hi
  requests i hi := by cases hi
  worker := ⟨fun i hi => (by cases hi), fun i hi => (by cases hi), fun i hi => (by cases hi)⟩
  orders := ⟨fun x hx => (by cases hx), fun e he => (by cases he)⟩

/-- A step of the market. -/
theorem Inv.market (h : Inv s) {a : Fix42.Action α} {m : Market α}
    (hs : Market.Step s.market a m) (ha : ∀ clients userId, a ≠ .session clients userId)
    (hroute : ∀ i, a = .route (.newOrder i) → Recorded s.submitted i)
    (hkeep : ∀ x t, a = .run .newWorker x t → ∀ i ∈ s.market.taken, ∀ sub ∈ s.submitted,
      sub.id = i.executionId → s.market.userId i.client = sub.userId) :
    Inv { s with market := m } where
  base := h.base.step hs
  untold := h.untold.step hs
  sessions c := by
    show _ ↔ m.userId c ≠ ""
    rw [Market.userId_step hs ha]
    exact h.sessions c
  users := h.users
  inbox := h.inbox
  requests i hi := (Market.newRequests_step h.base hs hi).elim (h.requests i) (hroute i)
  worker := by
    refine h.worker.step h.base hs (fun i hi => ?_) fun i out hi habout hclient => ?_
    · have hmem : i ∈ s.market.newRequests := by
        simp only [Market.taken] at hi
        split at hi
        · have := List.mem_of_mem_head? hi
          simp [Market.newRequests, this]
        · cases hi
      obtain ⟨sub, hsub, hid, hclient⟩ := h.requests i hmem
      exact ⟨⟨sub, hsub, hid, hclient⟩, fun x t he =>
        ⟨sub, hsub, hid, (hkeep x t he i hi sub hsub hid).symm⟩⟩
    · obtain ⟨sub, hsub, hid, hc⟩ := hi
      exact ⟨sub, hsub, by rw [habout, hid], by rw [hclient, hc]⟩
  orders := h.orders.step h.base h.worker.infos hs

/-- A step of a connection. -/
theorem Inv.session (h : Inv s) {clients : List Client} {userId : Client → UserId}
    {loggedIn : Client → Bool} {nextClient : Client}
    (hs : ∀ c, loggedIn c = true ↔ userId c ≠ "") :
    Inv { s with market := { s.market with clients, userId }, loggedIn, nextClient } where
  base := h.base.step (.session clients userId)
  untold := h.untold.step (.session clients userId)
  sessions := hs
  users := h.users
  inbox := h.inbox
  requests := h.requests
  worker := h.worker
  orders := h.orders.step h.base h.worker.infos (.session clients userId)

theorem Inv.submit (h : Inv s) {r : Request α} (hl : s.loggedIn r.client = true) :
    Inv { s with
      inbox := s.inbox ++ [r]
      submitted := s.submitted ++ [⟨r.id, r.client, s.market.userId r.client⟩] } := by
  have hsub : s.submitted ⊆ s.submitted ++ [⟨r.id, r.client, s.market.userId r.client⟩] :=
    List.subset_append_left _ _
  have hrec : ∀ i : Context (NewOrderSingle α), Recorded s.submitted i →
      Recorded (s.submitted ++ [⟨r.id, r.client, s.market.userId r.client⟩]) i :=
    fun i ⟨sub, hs, hi⟩ => ⟨sub, hsub hs, hi⟩
  have hunder : ∀ o : Order α, o.Owned (Under s.submitted) →
      o.Owned (Under (s.submitted ++ [⟨r.id, r.client, s.market.userId r.client⟩])) :=
    fun o ⟨sub, hs, ho⟩ => ⟨sub, hsub hs, ho⟩
  refine ⟨h.base, h.untold, h.sessions, fun sub hs => ?_, fun i hi => ?_,
    fun i hi => hrec i (h.requests i hi), ?_, ?_⟩
  · rcases List.mem_append.1 hs with hs | hs
    · exact h.users sub hs
    · rw [List.mem_singleton.1 hs]
      exact (h.sessions r.client).1 hl
  · rcases List.mem_append.1 hi with hi | hi
    · exact hrec i (h.inbox i hi)
    · rw [← List.mem_singleton.1 hi]
      exact ⟨_, List.mem_append_right _ (List.mem_singleton_self _), rfl, rfl⟩
  · exact ⟨fun i hi => hrec i (h.worker.request i hi),
      fun info hi => hunder _ (h.worker.infos info hi), fun out ho =>
        (h.worker.reports out ho).imp fun sub hs => ⟨hsub hs.1, hs.2⟩⟩
  · exact ⟨fun x hx => hunder _ (h.orders.resting x hx), fun e he => hunder _ (h.orders.events e he)⟩

theorem Inv.step (h : Inv s) {a : Action α} (hk : s.Keeps a) (hs : s.step a = some s') : Inv s' := by
  cases a with
  | connect =>
    cases hs
    exact h.session h.sessions
  | login c userId =>
    simp only [Exchange.step] at hs
    split at hs
    · rename_i hg
      cases hs
      refine h.session fun c' => ?_
      by_cases hc : c' = c
      · subst hc
        simp [hg.2]
      · simpa [Function.update_of_ne hc] using h.sessions c'
    · cases hs
  | disconnect c =>
    cases hs
    refine h.session fun c' => ?_
    by_cases hc : c' = c
    · subst hc
      simp
    · simpa [Function.update_of_ne hc] using h.sessions c'
  | remove c =>
    cases hs
    exact h.session h.sessions
  | submit r =>
    simp only [Exchange.step] at hs
    split at hs
    · rename_i hg
      cases hs
      exact h.submit hg.1
    · cases hs
  | route =>
    simp only [Exchange.step] at hs
    split at hs
    · cases hs
    · rename_i r rest hin
      obtain ⟨m, hm, rfl⟩ := Option.map_eq_some_iff.1 hs
      have h1 := h.market (Market.step_sound hm) (by simp)
        (fun i he => h.inbox i (by cases he; simp [hin])) (by simp)
      exact { h1 with inbox := fun i hi => h.inbox i (hin ▸ List.mem_cons_of_mem _ hi) }
  | run t x now =>
    obtain ⟨m, hm, rfl⟩ := Option.map_eq_some_iff.1 hs
    refine h.market (Market.step_sound hm) (by simp) (by simp) fun x' t' he => ?_
    cases he
    exact hk

/-- What a step appends, after any run that kept. -/
theorem Inv.confidential_step (h : Inv s) {a : Action α} (hs : s.step a = some s') :
    s.Confidential s' := by
  have hmarket : ∀ {a : Fix42.Action α} {m : Market α}, s.market.step a = some m →
      s'.market.output = m.output → s.Confidential s' := by
    intro a m hm he outs ho out hout ht
    rcases Market.tells_step h.untold (Market.step_sound hm) (he.symm.trans ho) out hout ht with
      hw | ⟨e, he, habout, hfind⟩
    · obtain ⟨sub, hsub, hid, hclient⟩ := h.worker.reports out hw
      exact ⟨sub, hsub, hid, .inl hclient⟩
    · obtain ⟨sub, hsub, hid, huser⟩ := h.orders.events e (by simp [Market.events, he])
      have hu : s.market.userId out.client = e.order.userId := by
        simpa using List.find?_some hfind
      refine ⟨sub, hsub, by rw [habout, hid], .inr ⟨h.users sub hsub, ?_, by rw [hu, huser]⟩⟩
      rw [h.sessions, hu, ← huser]
      exact h.users sub hsub
  have hsame : s'.market.output = s.market.output → s.Confidential s' := by
    intro he outs ho out hout
    have : outs = [] := by simpa [he] using ho
    simp [this] at hout
  cases a with
  | connect | disconnect | remove =>
    cases hs
    exact hsame rfl
  | login | submit =>
    simp only [Exchange.step] at hs
    split at hs
    · cases hs
      exact hsame rfl
    · cases hs
  | route =>
    simp only [Exchange.step] at hs
    split at hs
    · cases hs
    · obtain ⟨m, hm, rfl⟩ := Option.map_eq_some_iff.1 hs
      exact hmarket hm rfl
  | run t x now =>
    obtain ⟨m, hm, rfl⟩ := Option.map_eq_some_iff.1 hs
    exact hmarket hm rfl

theorem inv_of_run {name : String} (h : Trans.Run step Keeps (Exchange.new name) s) : Inv s :=
  h.invariant (.new name) fun _ _ _ hI hk hs => hI.step hk hs

/-- **Confidentiality.** In a run in which every order the NewOrder worker takes up is still of the
user who submitted it, reports that acknowledge, reject or fill an order go to the client who
submitted it, or to one logged in as the same user. -/
theorem confidential {name : String} (h : Trans.Run step Keeps (Exchange.new name) s) {a : Action α}
    (hs : s.step a = some s') : s.Confidential s' := (inv_of_run h).confidential_step hs

/-! ## Runs -/

/-- Client 0 as `A` and client 1 as `B`; a sell of 0 gets to the NewOrder worker's queue. -/
def sellRun : List (Action ℚ) :=
  [.connect, .connect, .connect, .login 0 "A", .login 1 "B",
    .submit (.newOrder ⟨0, 0, "n1", ⟨1, 'D'⟩, ⟨"s1", .sell, some 10, .limit, some 5⟩⟩), .route] ++
  runs .router 2 ++ runs .newUnit 2

/-- The sell rests, a buy of client 1 fills it, and the fill is about to be reported. -/
def fillRun : List (Action ℚ) :=
  runs .newWorker 5 ++
  [.submit (.newOrder ⟨1, 0, "n2", ⟨1, 'D'⟩, ⟨"b1", .buy, some 10, .limit, some 5⟩⟩), .route] ++
  runs .router 2 ++ runs .newUnit 2 ++ runs .newWorker 6 ++ runs .eventUnit 2 ++ runs .pool 1

/-- Client 0 is disconnected and removed before the worker takes up its order: the fill is reported to
client 2, who never logged in. -/
theorem not_confidential : ∃ s s' : Exchange ℚ, Trans.Reach step (Exchange.new "AAPL") s ∧
    s.step (.run .pool "" 0) = some s' ∧ ¬ s.Confidential s' := by
  have h : ((Trans.exec step (fun _ _ => True) (Exchange.new "AAPL")
      (sellRun ++ [.disconnect 0, .remove 0] ++ runs .newWorker 1 ++ fillRun)).bind fun s =>
        (s.step (.run .pool "" 0)).map fun s' =>
          decide (s.submitted = [⟨"n1", 0, "A"⟩, ⟨"n2", 1, "B"⟩] ∧ s.loggedIn 2 = false ∧
            (s'.market.output.drop 2).map (fun out => (out.client, out.about, out.tells)) =
              [(2, some "n1", true)] ∧ s'.market.output.take 2 = s.market.output)) = some true := by
    decide +kernel
  obtain ⟨s, hs, h⟩ := Option.bind_eq_some_iff.1 h
  obtain ⟨s', hs', h⟩ := Option.map_eq_some_iff.1 h
  obtain ⟨hsub, hlog, houts, htake⟩ := of_decide_eq_true h
  refine ⟨s, s', .of_exec .start hs, hs', fun hc => ?_⟩
  obtain ⟨out, hout, ho⟩ := List.map_eq_singleton_iff.1 houts
  simp only [Prod.mk.injEq] at ho
  obtain ⟨sub, hmem, habout, hmay⟩ := hc [out]
    (by rw [← htake, ← hout, List.take_append_drop]) out (List.mem_singleton_self out) ho.2.2
  rw [ho.2.1, Option.some.injEq] at habout
  rw [ho.1] at hmay
  simp only [hsub, List.mem_cons, List.not_mem_nil, or_false] at hmem
  rcases hmem with rfl | rfl
  · simp [MayReceive, hlog] at hmay
  · simp at habout

/-- The worker has the order when client 0 leaves; `A` comes back as client 3 and gets the report. -/
theorem confidential_run : ∃ s s' : Exchange ℚ, ∃ out, s.submitted.head? = some ⟨"n1", 0, "A"⟩ ∧
    s.step (.run .pool "" 0) = some s' ∧ s'.market.output = s.market.output ++ [out] ∧
    out.about = some "n1" ∧ out.client = 3 ∧ s.loggedIn 3 = true ∧ s.market.userId 3 = "A" ∧
    s.Confidential s' := by
  have h : ((Trans.exec step Keeps (Exchange.new "AAPL") (sellRun ++ runs .newWorker 1 ++
      [.disconnect 0, .remove 0, .connect, .login 3 "A"] ++ fillRun)).bind fun s =>
        (s.step (.run .pool "" 0)).map fun s' =>
          decide (s.submitted.head? = some ⟨"n1", 0, "A"⟩ ∧ s.loggedIn 3 = true ∧
            s.market.userId 3 = "A" ∧ (s'.market.output.drop 2).map (fun out =>
              (out.client, out.about)) = [(3, some "n1")] ∧
            s'.market.output.take 2 = s.market.output)) = some true := by decide +kernel
  obtain ⟨s, hs, h⟩ := Option.bind_eq_some_iff.1 h
  obtain ⟨s', hs', h⟩ := Option.map_eq_some_iff.1 h
  obtain ⟨hsub, hlog, huser, houts, htake⟩ := of_decide_eq_true h
  obtain ⟨out, hout, ho⟩ := List.map_eq_singleton_iff.1 houts
  simp only [Prod.mk.injEq] at ho
  exact ⟨s, s', out, hsub, hs', by rw [← htake, ← hout, List.take_append_drop], ho.2, ho.1, hlog,
    huser, confidential (.of_exec .start hs) hs'⟩

end Exchange

end Fix42
