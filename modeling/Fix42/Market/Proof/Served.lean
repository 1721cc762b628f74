import Fix42.Book.Proof.Serve
import Fix42.Market.Proof.Approval
import Fix42.Market.Proof.Exchange
import Fix42.Market.Served

/-!
# The market is a sequential exchange

`Deals` is what a step of the market is to the reference exchange: nothing, or one request served there
with the same answer (`deals_step`). `market_refines` puts the steps of a run together: whatever the
interleaving of the threads, the book is the one the reference exchange has after the requests served
so far, each answered as there, in the order in which the router allowed their tickets.
-/

namespace Fix42

open Reference

variable {α : Type*}

/-! ## What the workers have dealt with -/

/-- The request a worker has dealt with and still holds the lock for. -/
def NewWorkerPc.dealt : NewWorkerPc α → Option ExecId
  | .running es => if (NewWorkerPc.running es).infos.isEmpty then held (stageOf es) else none
  | .waiting _ _ | .checking _ _ | .dead => none

def CancelWorkerPc.dealt : CancelWorkerPc α → Option ExecId
  | .running es => if (cancelsIn es).isEmpty then held (stageOf es) else none
  | .waiting _ | .checking _ | .dead => none

theorem NewWorkerPc.held_of_dealt {w : NewWorkerPc α} {id : ExecId} (h : w.dealt = some id) :
    held w.stage = some id := by
  cases w with
  | running es =>
    simp only [NewWorkerPc.dealt] at h
    split at h
    · exact h
    · cases h
  | waiting | checking | dead => cases h

theorem CancelWorkerPc.held_of_dealt {w : CancelWorkerPc α} {id : ExecId} (h : w.dealt = some id) :
    held w.stage = some id := by
  cases w with
  | running es =>
    simp only [CancelWorkerPc.dealt] at h
    split at h
    · exact h
    · cases h
  | waiting | checking | dead => cases h

/-! ## Where requests are -/

def RouterPc.cancels : RouterPc α → List (Context (OrderCancelRequest α))
  | .allowing (.cancel i) | .handing (.cancel i) => [i]
  | _ => []

def CancelUnitPc.looking : CancelUnitPc α → List (Context (OrderCancelRequest α))
  | .found i => [i]
  | .running _ | .verified _ _ | .dead => []

namespace Market

/-- The cancels that were routed and not dealt with yet. -/
def cancelRequests [LinearOrder α] (m : Market α) : List (Context (OrderCancelRequest α)) :=
  m.router.cancels ++ m.cancelInput ++ m.cancelUnit.looking ++ m.pursued

variable [Field α] [LinearOrder α] {m m' : Market α} {routed : List (Request α)} {a : Action α}

omit [Field α] in
theorem looking_of_approving {p : Approval α} (h : m.approving = some p) :
    m.cancelUnit.looking = [p.request] := by
  unfold approving at h
  split at h
  · rename_i i pc
    split at h
    · split at h <;> cases h
      rw [pc]
      rfl
    · cases h
  · cases h

/-- New cancels come from the router. -/
theorem cancelRequests_step (hb : Base m) (hs : Step m a m') {i : Context (OrderCancelRequest α)}
    (hi : i ∈ m'.cancelRequests) : i ∈ m.cancelRequests ∨ a = .route (.cancel i) := by
  have hpursued : i ∈ m'.pursued → i ∈ m.cancelUnit.looking ∨ i ∈ m.pursued := by
    intro hp
    rcases pursued_step hb hs hp with hp | ⟨x, t, order, -, happ⟩
    · exact .inr hp
    · exact .inl (by rw [looking_of_approving happ]; exact List.mem_singleton_self i)
  simp only [cancelRequests, List.mem_append] at hi ⊢
  rcases hi with ((hi | hi) | hi) | hi
  · cases hs with
    | routeNew j idle fresh => cases hi
    | routeCancel j idle fresh =>
      rw [List.mem_singleton.1 hi]
      exact .inr rfl
    | allow r pc =>
      rw [pc]
      cases r with
      | newOrder j => cases hi
      | cancel j => exact .inl (.inl (.inl (.inl hi)))
    | handNew j pc | handCancel j pc => cases hi
    | newUnitEffect e es m1 pc done | newWorkerEffect e es m1 pc done
    | cancelUnitEffect e es m1 pc done | cancelWorkerEffect e es m1 pc done =>
      rw [← (exec_frame done).router]
      exact .inl (.inl (.inl (.inl hi)))
    | _ => exact .inl (.inl (.inl (.inl hi)))
  · cases hs with
    | handCancel j pc =>
      rcases List.mem_append.1 hi with hi | hi
      · exact .inl (.inl (.inl (.inr hi)))
      · rw [pc]
        exact .inl (.inl (.inl (.inl hi)))
    | cancelUnitNoQuantity j rest pc input | cancelUnitThrow j rest pc input
    | cancelUnitUnknown j rest pc input | cancelUnitFound j rest pc input =>
      rw [input]
      exact .inl (.inl (.inl (.inr (List.mem_cons_of_mem j hi))))
    | newUnitEffect e es m1 pc done | newWorkerEffect e es m1 pc done
    | cancelUnitEffect e es m1 pc done | cancelWorkerEffect e es m1 pc done =>
      rw [← (exec_frame done).cancelInput]
      exact .inl (.inl (.inl (.inr hi)))
    | _ => exact .inl (.inl (.inl (.inr hi)))
  · cases hs with
    | cancelUnitFound j rest pc input =>
      rw [List.mem_singleton.1 hi, input]
      exact .inl (.inl (.inl (.inr List.mem_cons_self)))
    | cancelUnitNoQuantity | cancelUnitThrow | cancelUnitUnknown | cancelUnitGone
    | cancelUnitOtherSide | cancelUnitVerified | cancelUnitAccept | cancelUnitEffect => cases hi
    | newUnitEffect e es m1 pc done | newWorkerEffect e es m1 pc done
    | cancelWorkerEffect e es m1 pc done =>
      rw [← (exec_frame done).cancelUnit]
      exact .inl (.inl (.inr hi))
    | _ => exact .inl (.inl (.inr hi))
  · rcases hpursued hi with hi | hi
    · exact .inl (.inl (.inr hi))
    · exact .inl (.inr hi)

/-- The order the NewOrder worker has in hand is one it had, or that of the request it takes up. -/
theorem infos_step (hb : Base m) (hs : Step m a m') {info : OrderInfo α}
    (hi : info ∈ m'.newWorker.infos) :
    info ∈ m.newWorker.infos ∨ ∃ i ∈ m.newQueue, NewOrder.Built i info := by
  have hb' := hb.step hs
  by_cases ha : ∃ x t, a = .run .newWorker x t
  · obtain ⟨x, t, rfl⟩ := ha
    have hok := hb'.newWorker
    cases hs with
    | newWorkerPop i rest info' pc queue value =>
      rw [List.mem_singleton.1 hi, queue]
      exact .inr ⟨i, List.mem_cons_self, hok⟩
    | newWorkerLock i info' pc can =>
      rw [pc]
      exact .inl hi
    | newWorkerCheck i info' pc =>
      have hbuilt := hb.newWorker
      rw [pc] at hbuilt ⊢
      exact .inl ((orderProcessing_view m.ob.name hbuilt _).2 hi)
    | newWorkerEffect e es m1 pc done =>
      have htail := (List.suffix_cons e es).sublist
      rw [pc]
      unfold NewWorkerPc.infos at hi ⊢
      exact .inl ((htail.filterMap _).subset hi)
    | newWorkerThrow | newWorkerFault => exact hok.elim
  · rw [hs.newWorker_eq fun x t he => ha ⟨x, t, he⟩] at hi
    exact .inl hi

/-- What a market has in its queues and in its threads' hands was routed to it. -/
structure Carries (routed : List (Request α)) (m : Market α) : Prop where
  newOrders : ∀ i ∈ m.newRequests, .newOrder i ∈ routed
  infos : ∀ info ∈ m.newWorker.infos, ∃ i, .newOrder i ∈ routed ∧ NewOrder.Built i info
  cancels : ∀ i ∈ m.cancelRequests, .cancel i ∈ routed

theorem Carries.step (h : Carries routed m) (hb : Base m) (hs : Step m a m') :
    Carries (routed ++ a.routes) m' where
  newOrders i hi := by
    rcases newRequests_step hb hs hi with hi | rfl
    · exact List.mem_append_left _ (h.newOrders i hi)
    · exact List.mem_append_right _ (List.mem_singleton_self _)
  infos info hi := by
    rcases infos_step hb hs hi with hi | ⟨i, hi, hbuilt⟩
    · obtain ⟨i, hm, hbuilt⟩ := h.infos info hi
      exact ⟨i, List.mem_append_left _ hm, hbuilt⟩
    · have hm : i ∈ m.newRequests := by
        simp only [newRequests, List.mem_append]
        exact .inl (.inl (.inl hi))
      exact ⟨i, List.mem_append_left _ (h.newOrders i hm), hbuilt⟩
  cancels i hi := by
    rcases cancelRequests_step hb hs hi with hi | rfl
    · exact List.mem_append_left _ (h.cancels i hi)
    · exact List.mem_append_right _ (List.mem_singleton_self _)

end Market

theorem NewOrder.Built.asks [Field α] [LinearOrder α] {i : Context (NewOrderSingle α)}
    {info : OrderInfo α} (h : NewOrder.Built i info) : i.executionId = info.order.submission ∧
      Request.Asks (.newOrder i) (.enter info.incoming) := by
  obtain ⟨-, userId, h⟩ := h
  unfold NewOrder.orderInfo at h
  split at h
  · rename_i price qty hprice hqty
    cases h
    exact ⟨rfl, .newOrder i _ rfl hqty hprice rfl⟩
  · cases h

namespace Market

variable [LinearOrder α]

def dealt (m : Market α) : Option ExecId := m.newWorker.dealt.or m.cancelWorker.dealt

/-- The requests served, in order. -/
def log (m : Market α) : List ExecId := m.unlocked.map Unlock.worker ++ m.dealt.toList

variable [Field α] {m m' : Market α} {a : Action α}

theorem Base.newWorker_dealt (hb : Base m) (h : held m.cancelWorker.stage ≠ none) :
    m.newWorker.dealt = none := by
  have hnew : held m.newWorker.stage = none := hb.alone.resolve_right h
  cases hd : m.newWorker.dealt with
  | none => rfl
  | some id =>
    rw [NewWorkerPc.held_of_dealt hd] at hnew
    cases hnew

theorem Base.cancelWorker_dealt (hb : Base m) (h : held m.newWorker.stage ≠ none) :
    m.cancelWorker.dealt = none := by
  have hcancel : held m.cancelWorker.stage = none := hb.alone.resolve_left h
  cases hd : m.cancelWorker.dealt with
  | none => rfl
  | some id =>
    rw [CancelWorkerPc.held_of_dealt hd] at hcancel
    cases hcancel

/-- A request is served within its critical section. -/
theorem Base.log_prefix (hb : Base m) : m.log <+: m.sections := by
  apply (List.prefix_append_right_inj _).2
  cases hn : m.newWorker.dealt with
  | some id =>
    have hheld : held m.newWorker.stage = some id := NewWorkerPc.held_of_dealt hn
    rw [dealt, holder, critical, hn, hheld]
    exact List.prefix_refl _
  | none =>
    cases hc : m.cancelWorker.dealt with
    | none =>
      rw [dealt, hn, hc]
      exact List.nil_prefix
    | some id =>
      have hheld : held m.cancelWorker.stage = some id := CancelWorkerPc.held_of_dealt hc
      have hfree : held m.newWorker.stage = none := by
        apply hb.alone.resolve_right
        exact fun h => Option.some_ne_none id (hheld.symm.trans h)
      rw [dealt, holder, critical, critical, hn, hc, hfree, hheld]

/-! ## One step -/

/-- What a step that serves `new` is to the reference exchange. -/
structure Deals (m m' : Market α) (new : List (Served α)) : Prop where
  run : Reference.run m.ob.view (new.map Served.op) = (m'.ob.view, new.map Served.outcome)
  log : m'.log = m.log ++ new.map Served.id
  settled : m'.ob.tick.Settled

theorem Deals.quiet (hset : m.ob.tick.Settled) (view : m'.ob.view = m.ob.view)
    (tick : m'.ob.tick = m.ob.tick) (log : m'.log = m.log) : Deals m m' [] where
  run := by rw [view]; rfl
  log := by rw [log, List.map_nil, List.append_nil]
  settled := by rw [tick]; exact hset

/-- A worker that had nothing to unlock for has dealt with its request. -/
theorem Deals.one {x : Served α} (served : serve m.ob.view x.op = (m'.ob.view, x.outcome))
    (before : m.dealt = none) (after : m'.dealt = some x.id) (unlocked : m'.unlocked = m.unlocked)
    (settled : m'.ob.tick.Settled) : Deals m m' [x] where
  run := by simp only [List.map_cons, List.map_nil, Reference.run, served]
  log := by simp [Market.log, before, after, unlocked]
  settled := settled

omit [Field α] in
theorem log_same (unlocked : m'.unlocked = m.unlocked) (dealt : m'.dealt = m.dealt) :
    m'.log = m.log := by
  rw [log, log, unlocked, dealt]

omit [Field α] in
/-- The request a worker unlocks for stays in the log. -/
theorem log_unlock {id : ExecId} {popped : Option ExecId} (before : m.dealt = some id)
    (after : m'.dealt = none) (unlocked : m'.unlocked = m.unlocked ++ [⟨id, popped⟩]) :
    m'.log = m.log := by
  simp [log, before, after, unlocked]

omit [Field α] in
theorem dealt_new (h : m.cancelWorker.dealt = none) : m.dealt = m.newWorker.dealt := by
  rw [dealt, h, Option.or_none]

omit [Field α] in
theorem dealt_cancel (h : m.newWorker.dealt = none) : m.dealt = m.cancelWorker.dealt := by
  rw [dealt, h, Option.none_or]

theorem exec_unit_unlocked {p : Output α → Prop} {m1 : Market α} {e : Effect α} (he : e.OfUnit p)
    (done : m.exec e = .ok m1) : m1.unlocked = m.unlocked := by
  cases exec_sound done with
  | unlock | add | cancel => cases he
  | _ => rfl

/-- The router, the units and the event threads serve nothing. -/
theorem deals_other (hb : Base m) (hset : m.ob.tick.Settled) (hs : Step m a m')
    (hn : ∀ x t, a ≠ .run .newWorker x t) (hc : ∀ x t, a ≠ .run .cancelWorker x t) :
    Deals m m' [] := by
  have hnew := hs.newWorker_eq hn
  have hcancel := hs.cancelWorker_eq hc
  have hlog : m'.unlocked = m.unlocked → m'.log = m.log := by
    intro hu
    rw [log, log, dealt, dealt, hu, hnew, hcancel]
  have hunit : ∀ {m1 : Market α}, m1.ob = m.ob → m'.ob = m1.ob → m1.unlocked = m.unlocked →
      m'.unlocked = m1.unlocked → Deals m m' [] := by
    intro m1 hob hob' hu hu'
    exact .quiet hset (by rw [hob', hob]) (by rw [hob', hob]) (hlog (hu'.trans hu))
  cases hs with
  | newUnitEffect e es m1 pc done =>
    have he := hb.newUnit e (by simp [pc])
    exact hunit (exec_ofUnit he done).1 rfl (exec_unit_unlocked he done) rfl
  | cancelUnitEffect e es m1 pc done =>
    have hok := hb.cancelUnit
    rw [pc] at hok
    have he := (hok e List.mem_cons_self).1
    exact hunit (exec_ofUnit he done).1 rfl (exec_unit_unlocked he done) rfl
  | newWorkerPop | newWorkerThrow | newWorkerLock | newWorkerCheck | newWorkerEffect
  | newWorkerFault => exact absurd rfl (hn _ _)
  | cancelWorkerPop | cancelWorkerThrow | cancelWorkerLock | cancelWorkerCheck
  | cancelWorkerEffect | cancelWorkerFault => exact absurd rfl (hc _ _)
  | _ => exact .quiet hset rfl rfl (hlog rfl)

/-- What the NewOrder worker is about to add may trade and is for a positive quantity. -/
structure Pending (m : Market α) : Prop where
  settled : m.ob.tick.Settled
  allows : ∀ es info, m.newWorker = .running es → .add info ∈ es →
    m.ob.tick.allows info.order.side = true
  positive : ∀ info ∈ m.newWorker.infos, 0 < info.order.originalQty

theorem Pending.served_add (h : Pending m) (hb : Base m) {info : OrderInfo α}
    {es : List (Effect α)} (pc : m.newWorker = .running (.add info :: es)) {ob : OrderBook α}
    (added : m.ob.add info = .ok ob) : ob.tick.Settled ∧
      serve m.ob.view (.enter info.incoming) = (ob.view, .accepted (fillsOf info.order.userId
        (ob.eventOutput.drop m.ob.eventOutput.length))) := by
  obtain ⟨name, i, info', hbuilt, ⟨he, -⟩ | ⟨he, -, hid⟩ | ⟨he, -⟩ | ⟨r, -, he, -⟩⟩ :=
    hb.newWorker_next pc <;> cases he
  obtain ⟨hside, userId, price, qty, -, rfl⟩ := hbuilt.eq
  have hpos := h.positive _ (by rw [pc]; exact List.mem_cons_self)
  have hallow := h.allows _ _ pc List.mem_cons_self
  let input : NewOrderInput α :=
    ⟨userId, i.executionId, i.message.clOrdId, price, qty, i.message.side, hside⟩
  obtain ⟨new, hnew, hserve⟩ := serve_accepted hb.rep h.settled input hpos hallow hid added
  refine ⟨(add_view h.settled input hpos added).1, ?_⟩
  rw [hnew, List.drop_left]
  exact hserve

/-- A step of the NewOrder worker. -/
theorem deals_newWorker (hb : Base m) (h : Pending m) {x : ExecId} {t : Int}
    (hs : Step m (.run .newWorker x t) m') : Deals m m' (m.servesNew m').toList := by
  have hb' := hb.step hs
  have hset := h.settled
  have hdealt : ∀ {w : NewWorkerPc α}, m.newWorker = w → m.dealt = w.dealt.or m.cancelWorker.dealt :=
    fun pc => by rw [← pc, dealt]
  have halone : held m.newWorker.stage ≠ none → m.cancelWorker.dealt = none := hb.cancelWorker_dealt
  cases hs with
  | newWorkerPop i rest info pc queue value =>
    rw [servesNew, pc]
    exact .quiet hset rfl rfl (log_same rfl (hdealt pc).symm)
  | newWorkerLock i info pc can =>
    rw [servesNew, pc]
    exact .quiet hset rfl rfl (log_same rfl (hdealt pc).symm)
  | newWorkerCheck i info pc =>
    have hob : (NewOrder.verdict m.ob info).2 = m.ob :=
      OrderBook.allowTick_settled hset info.order.side
    have hcancel := halone (by rw [pc]; exact Option.some_ne_none _)
    have hrefused : ∀ v, (NewOrder.verdict m.ob info).1 = v → v ≠ .accepted →
        serve m.ob.view (.enter info.incoming) =
          ((NewOrder.verdict m.ob info).2.view, v.outcome []) := by
      intro v hv hne
      subst hv
      rw [hob]
      exact serve_ruled_out hb.rep hset hne
    have hbefore : m.dealt = none := by
      rw [dealt_new hcancel, pc]
      rfl
    cases hv : (NewOrder.verdict m.ob info).1 with
    | accepted =>
      simp only [servesNew, pc, hv, Option.toList_none]
      refine .quiet hset (by rw [hob]) (by rw [hob]) (log_same rfl (Eq.trans ?_ hbefore.symm))
      exact dealt_new hcancel
    | tickRefused =>
      simp only [servesNew, pc, hv, Option.toList_some]
      exact .one (hrefused _ hv (by simp)) hbefore (dealt_new hcancel) rfl (by rw [hob]; exact hset)
    | duplicate =>
      simp only [servesNew, pc, hv, Option.toList_some]
      exact .one (hrefused _ hv (by simp)) hbefore (dealt_new hcancel) rfl (by rw [hob]; exact hset)
  | newWorkerEffect e es m1 pc done =>
    obtain ⟨name, i, info, -, ⟨rfl, rfl, -⟩ | ⟨rfl, rfl, -⟩ | ⟨rfl, hes⟩ | ⟨r, -, rfl, rfl⟩⟩ :=
      hb.newWorker_next pc
    · cases done
      rw [servesNew, pc]
      exact .quiet hset rfl rfl (log_same rfl (hdealt pc).symm)
    · cases exec_sound done with
      | add _ ob added =>
        have hcancel := halone (by rw [pc]; exact Option.some_ne_none _)
        obtain ⟨hset', hserve⟩ := h.served_add hb pc added
        obtain ⟨hes, -⟩ := hb.next_add pc
        rw [List.cons.injEq, Effect.unlock.injEq] at hes
        rw [servesNew, pc]
        refine .one hserve ((dealt_new hcancel).trans (by rw [pc]; rfl)) ?_ rfl hset'
        rw [hes.1]
        exact dealt_new hcancel
    · have hcancel := halone (by rw [pc]; exact Option.some_ne_none _)
      have hbefore : m.dealt = some i.executionId := by
        rw [dealt_new hcancel, pc]
        rcases hes with rfl | ⟨r, -, rfl⟩ <;> rfl
      have hafter : (NewWorkerPc.running es).dealt = none := by
        rcases hes with rfl | ⟨r, -, rfl⟩ <;> rfl
      cases done
      rw [servesNew, pc]
      refine .quiet hset rfl rfl (log_unlock hbefore ?_ rfl)
      refine Eq.trans ?_ hafter
      exact dealt_new hcancel
    · cases done
      rw [servesNew, pc]
      exact .quiet hset rfl rfl (log_same rfl (hdealt pc).symm)
  | newWorkerThrow | newWorkerFault => exact hb'.newWorker.elim

/-- A step of the Cancel worker. -/
theorem deals_cancelWorker (hb : Base m) (hset : m.ob.tick.Settled) {x : ExecId} {t : Int}
    (hs : Step m (.run .cancelWorker x t) m') : Deals m m' m.servesCancel.toList := by
  have hb' := hb.step hs
  have hdealt : ∀ {w : CancelWorkerPc α}, m.cancelWorker = w →
      m.dealt = m.newWorker.dealt.or w.dealt := fun pc => by rw [← pc, dealt]
  have halone : held m.cancelWorker.stage ≠ none → m.newWorker.dealt = none := hb.newWorker_dealt
  cases hs with
  | cancelWorkerPop i rest pc queue =>
    rw [servesCancel, pc]
    exact .quiet hset rfl rfl (log_same rfl (hdealt pc).symm)
  | cancelWorkerLock i pc can =>
    rw [servesCancel, pc]
    exact .quiet hset rfl rfl (log_same rfl (hdealt pc).symm)
  | cancelWorkerCheck i qty v pc value check =>
    have hok := hb.cancelWorker
    rw [pc] at hok
    have hnew := halone (by rw [pc]; exact Option.some_ne_none _)
    have hbefore : m.dealt = none := by
      rw [dealt_cancel hnew, pc]
      rfl
    rw [servesCancel, pc]
    simp only [value, check, Option.bind_some]
    cases v with
    | inl r =>
      refine .one (serve_refused hb.rep hok.side check) hbefore ?_ rfl hset
      cases r <;> exact dealt_cancel hnew
    | inr order =>
      refine .quiet hset rfl rfl (log_same rfl (Eq.trans ?_ hbefore.symm))
      exact dealt_cancel hnew
  | cancelWorkerEffect e es m1 pc done =>
    have hunlock : ∀ (i : Context (OrderCancelRequest α)) (out : Output α),
        m.cancelWorker = .running (e :: es) → e = .unlock i.executionId → es = [.append out] →
        m.exec e = .ok m1 → Deals m { m1 with cancelWorker := .running es } m.servesCancel.toList := by
      intro i out pc he hes done
      subst he hes
      have hnew := halone (by rw [pc]; exact Option.some_ne_none _)
      have hbefore : m.dealt = some i.executionId := by
        rw [dealt_cancel hnew, pc]
        rfl
      cases done
      rw [servesCancel, pc]
      refine .quiet hset rfl rfl (log_unlock hbefore ?_ rfl)
      exact dealt_cancel hnew
    obtain ⟨name, i, -, ⟨order, qty, rfl, rfl, hqty, hv⟩ | ⟨order, rfl, rfl⟩ | ⟨order, rfl, rfl⟩ |
      ⟨orderId, reason, text, ⟨rfl, rfl⟩ | ⟨rfl, rfl⟩⟩⟩ := hb.cancelWorker_next pc
    · cases exec_sound done with
      | cancel _ ob cancelled =>
        have hnew := halone (by rw [pc]; exact Option.some_ne_none _)
        obtain ⟨ob', order', hok, -, -, -, hrem⟩ := hb.next_cancel pc
        cases cancelled.symm.trans hok
        rw [servesCancel, pc]
        simp only [hqty, hv, Option.bind_some]
        refine .one (serve_cancelled hb.rep hv cancelled) ((dealt_cancel hnew).trans (by rw [pc]; rfl))
          (dealt_cancel hnew) rfl ?_
        exact hrem.tick.symm ▸ hset
    · exact hunlock i _ pc rfl rfl done
    · cases done
      rw [servesCancel, pc]
      exact .quiet hset rfl rfl (log_same rfl (hdealt pc).symm)
    · exact hunlock i _ pc rfl rfl done
    · cases done
      rw [servesCancel, pc]
      exact .quiet hset rfl rfl (log_same rfl (hdealt pc).symm)
  | cancelWorkerThrow | cancelWorkerFault => exact hb'.cancelWorker.elim

/-- Only the NewOrder worker changes the tick record. -/
theorem tick_step (hb : Base m) (hs : Step m a m') (hn : ∀ x t, a ≠ .run .newWorker x t) :
    m'.ob.tick = m.ob.tick := by
  cases hs with
  | newUnitEffect e es m1 pc done =>
    exact congrArg OrderBook.tick (exec_ofUnit (hb.newUnit e (by simp [pc])) done).1
  | cancelUnitEffect e es m1 pc done =>
    have hok := hb.cancelUnit
    rw [pc] at hok
    exact congrArg OrderBook.tick (exec_ofUnit (hok e List.mem_cons_self).1 done).1
  | cancelWorkerEffect e es m1 pc done =>
    cases exec_sound done with
    | add => exact (hb.cancelWorker_effect pc).elim
    | cancel i ob cancelled =>
      obtain ⟨ob', order, hok, -, -, -, hrem⟩ := hb.next_cancel pc
      cases cancelled.symm.trans hok
      exact hrem.tick
    | _ => rfl
  | newWorkerPop | newWorkerThrow | newWorkerLock | newWorkerCheck | newWorkerEffect
  | newWorkerFault => exact absurd rfl (hn _ _)
  | _ => rfl

/-- An order that was let through may still trade when it is added. -/
theorem allows_step (hb : Base m) (hset : m.ob.tick.Settled) (hs : Step m a m')
    (h : ∀ es info, m.newWorker = .running es → .add info ∈ es →
      m.ob.tick.allows info.order.side = true) :
    ∀ es info, m'.newWorker = .running es → .add info ∈ es →
      m'.ob.tick.allows info.order.side = true := by
  have hb' := hb.step hs
  by_cases ha : ∃ x t, a = .run .newWorker x t
  · obtain ⟨x, t, rfl⟩ := ha
    intro es info pc' hadd
    cases hs with
    | newWorkerPop | newWorkerLock => cases pc'
    | newWorkerCheck i info' pc =>
      cases pc'
      have hob : (NewOrder.verdict m.ob info').2 = m.ob :=
        OrderBook.allowTick_settled hset info'.order.side
      cases hv : (NewOrder.verdict m.ob info').1 with
      | accepted =>
        have hinfo : info = info' := by
          simpa [hv, NewOrder.orderProcessing, NewOrder.acknowledgement] using hadd
        subst hinfo
        have hallow : (m.ob.allowTick info.order.side).1 = true := by
          cases hc : (m.ob.allowTick info.order.side).1 with
          | true => rfl
          | false =>
            simp [NewOrder.verdict, hc] at hv
        show (NewOrder.verdict m.ob info).2.tick.allows info.order.side = true
        rw [hob]
        simpa [OrderBook.allowTick, Tick.allowTick, show m.ob.tick.computeTick = m.ob.tick from hset]
          using hallow
      | tickRefused | duplicate => simp [hv, NewOrder.orderProcessing] at hadd
    | newWorkerEffect e es' m1 pc done =>
      cases pc'
      have hob : m1.ob = m.ob ∨ ∃ info', e = .add info' := by
        rcases exec_ob done with ⟨info', rfl, -⟩ | ⟨i, rfl, -⟩ | hob
        · exact .inr ⟨info', rfl⟩
        · exact (hb.newWorker_effect pc).elim
        · exact .inl hob
      rcases hob with hob | ⟨info', rfl⟩
      · show m1.ob.tick.allows info.order.side = true
        rw [hob]
        exact h _ info pc (List.mem_cons_of_mem e hadd)
      · rw [(hb.next_add pc).1] at hadd
        simp at hadd
    | newWorkerThrow | newWorkerFault => exact hb'.newWorker.elim
  · have hn : ∀ x t, a ≠ .run .newWorker x t := fun x t he => ha ⟨x, t, he⟩
    rw [hs.newWorker_eq hn, tick_step hb hs hn]
    exact h

/-- What is served asks what a request with its id was routed with. -/
theorem asks_step {routed : List (Request α)} (hb : Base m) (h : Carries routed m) :
    ∀ x ∈ (m.serves m' a).toList, ∃ r ∈ routed, r.id = x.id ∧ r.Asks x.op := by
  have hinfo : ∀ info ∈ m.newWorker.infos, ∃ r ∈ routed, r.id = info.order.submission ∧
      r.Asks (.enter info.incoming) := by
    intro info hi
    obtain ⟨i, hm, hbuilt⟩ := h.infos info hi
    exact ⟨_, hm, hbuilt.asks.1, hbuilt.asks.2⟩
  have hcancel : ∀ i ∈ m.cancelWorker.pursued, ∀ qty, i.message.orderQty = some qty →
      ∃ r ∈ routed, r.id = i.executionId ∧
        r.Asks (.withdraw i.message.origClOrdId qty i.message.side) := by
    intro i hi qty hq
    have hm : i ∈ m.cancelRequests := by
      simp only [cancelRequests, pursued, List.mem_append]
      exact .inr (.inr hi)
    exact ⟨_, h.cancels i hm, rfl, .cancel i qty hq⟩
  intro x hx
  rw [Option.mem_toList] at hx
  unfold serves at hx
  split at hx
  · unfold servesNew at hx
    split at hx
    · rename_i i info pc
      have hbuilt := hb.newWorker
      rw [pc] at hbuilt
      split at hx
      · cases hx
      · cases hx
        rw [hbuilt.asks.1]
        exact hinfo info (by rw [pc]; exact List.mem_singleton_self _)
    · rename_i info es pc
      cases hx
      exact hinfo info (by rw [pc]; exact List.mem_cons_self)
    · cases hx
  · unfold servesCancel at hx
    dsimp only at hx
    split at hx
    · rename_i i pc
      obtain ⟨qty, hq, hx⟩ := Option.bind_eq_some_iff.1 hx
      split at hx
      · cases hx
        exact hcancel i (by rw [pc]; exact List.mem_singleton_self _) qty hq
      · cases hx
    · rename_i i es pc
      obtain ⟨qty, hq, hx⟩ := Option.bind_eq_some_iff.1 hx
      split at hx
      · cases hx
        exact hcancel i (by rw [pc]; exact mem_cancelsIn.2 List.mem_cons_self) qty hq
      · cases hx
    · cases hx
  · cases hx

/-- What a step of the market is to the reference exchange. -/
theorem deals_step (hb : Base m) (h : Pending m) (hs : Step m a m') :
    Deals m m' (m.serves m' a).toList := by
  by_cases hn : ∃ x t, a = .run .newWorker x t
  · obtain ⟨x, t, rfl⟩ := hn
    exact deals_newWorker hb h hs
  · by_cases hc : ∃ x t, a = .run .cancelWorker x t
    · obtain ⟨x, t, rfl⟩ := hc
      exact deals_cancelWorker hb h.settled hs
    · push Not at hn hc
      have hnone : m.serves m' a = none := by
        unfold serves
        split
        · exact absurd rfl (hn _ _)
        · exact absurd rfl (hc _ _)
        · rfl
      rw [hnone]
      exact deals_other hb h.settled hs hn hc

end Market

/-! ## Runs -/

namespace ServedMarket

variable [Field α] [LinearOrder α] {s s' : ServedMarket α} {a : Action α}

/-- The invariant (module doc). -/
structure Inv (s : ServedMarket α) : Prop where
  base : s.market.Base
  serial : s.market.Serial
  carries : s.market.Carries s.routed
  quantities : ∀ i, .newOrder i ∈ s.routed → ∀ qty ∈ i.message.orderQty, 0 < qty
  settled : s.market.ob.tick.Settled
  allows : ∀ es info, s.market.newWorker = .running es → .add info ∈ es →
    s.market.ob.tick.allows info.order.side = true
  run : Reference.run Reference.empty (s.served.map Served.op) =
    (s.market.ob.view, s.served.map Served.outcome)
  log : s.served.map Served.id = s.market.log
  asks : ∀ x ∈ s.served, ∃ r ∈ s.routed, r.id = x.id ∧ r.Asks x.op

theorem Inv.new (name : String) : Inv (ServedMarket.new name : ServedMarket α) where
  base := .new name
  serial := .new name
  carries := ⟨fun i hi => (by cases hi), fun info hi => (by cases hi), fun i hi => (by cases hi)⟩
  quantities i hi := by cases hi
  settled := settled_of_reachable (.start : Worker.Reachable name _)
  allows es info pc hi := by
    cases pc
    cases hi
  run := rfl
  log := rfl
  asks x hx := by cases hx

theorem Inv.pending (h : Inv s) : s.market.Pending where
  settled := h.settled
  allows := h.allows
  positive info hi := by
    obtain ⟨i, hm, hbuilt⟩ := h.carries.infos info hi
    obtain ⟨-, userId, price, qty, hqty, rfl⟩ := hbuilt.eq
    exact h.quantities i hm qty hqty

theorem Inv.step (h : Inv s) (ha : s.Positive a) (hs : s.step a = some s') : Inv s' := by
  obtain ⟨m, hm, rfl⟩ := Option.map_eq_some_iff.1 hs
  have hstep := Market.step_sound hm
  have hdeals := Market.deals_step h.base h.pending hstep
  have hmono : s.routed ⊆ s.routed ++ a.routes := List.subset_append_left _ _
  refine ⟨h.base.step hstep, h.serial.step h.base hstep, h.carries.step h.base hstep, ?_,
    hdeals.settled, Market.allows_step h.base h.settled hstep h.allows, ?_, ?_, ?_⟩
  · intro i hi
    rcases List.mem_append.1 hi with hi | hi
    · exact h.quantities i hi
    · cases a with
      | route r =>
        cases List.mem_singleton.1 hi
        exact ha
      | session | run => cases hi
  · rw [List.map_append, List.map_append, run_append, h.run, hdeals.run]
  · rw [List.map_append, h.log]
    exact hdeals.log.symm
  · intro x hx
    rcases List.mem_append.1 hx with hx | hx
    · obtain ⟨r, hr, hasks⟩ := h.asks x hx
      exact ⟨r, hmono hr, hasks⟩
    · obtain ⟨r, hr, hasks⟩ := Market.asks_step h.base h.carries x hx
      exact ⟨r, hmono hr, hasks⟩

theorem inv_of_run {name : String} (h : Trans.Run step Positive (ServedMarket.new name) s) : Inv s :=
  h.invariant (.new name) fun _ _ _ hI ha hs => hI.step ha hs

/-- A sell of 10 rests, a buy takes 4 of it, and a cancel that names 10 waits until the buy is done. -/
def servedRun : List (Action ℚ) :=
  Approvals.threeUsers :: Approvals.queueOrder 0 "n1" ⟨"s1", .sell, some 10, .limit, some 5⟩ ++
    Market.runs .newWorker 6 ++
    Approvals.queueOrder 1 "n2" ⟨"b1", .buy, some 4, .limit, some 6⟩ ++ Approvals.checkCancel 5 ++
    Market.runs .cancelWorker 1 ++ Market.runs .newWorker 6 ++ Market.runs .cancelWorker 2

end ServedMarket

end Fix42
