import Fix42.Market.Proof.Base
import Fix42.Market.Tickets

/-!
# No ticket is lost

A market whose steps are `ticketSafe` simulates `TicketLock` on its tickets (`Ticketed.step`), so every
request handed to a unit is rejected or its ticket stays in the queue until its own worker unlocks it
(`tickets_accounted`). `ticket_lost` is what an order of another type than Limit does.
-/

namespace Fix42

variable {α : Type*}

/-! ## The units' effects -/

/-- A rest of an `onInput` of kind `k` after the tickets `done` were finished: a ticket is finished
again only after it was. -/
def Releasing (k : Kind) : List ExecId → List (Effect α) → Prop
  | _, [] => True
  | done, .finish id :: es => Releasing k (id :: done) es
  | done, .finishAgain id :: es => id ∈ done ∧ Releasing k done es
  | done, .append _ :: es => Releasing k done es
  | done, .queueNew _ :: es => k = .newOrder ∧ Releasing k done es
  | done, .queueCancel _ :: es => k = .cancel ∧ Releasing k done es
  | _, .unlock _ :: _ | _, .add _ :: _ | _, .cancel _ :: _ => False

theorem Releasing.mono {k : Kind} {es : List (Effect α)} {done done' : List ExecId}
    (h : Releasing k done es) (hs : done ⊆ done') : Releasing k done' es := by
  induction es generalizing done done' with
  | nil => trivial
  | cons e es ih =>
    cases e with
    | finish id => exact ih h (List.cons_subset_cons id hs)
    | finishAgain id => exact ⟨hs h.1, ih h.2 hs⟩
    | append out => exact ih h hs
    | queueNew i | queueCancel i => exact ⟨h.1, ih h.2 hs⟩
    | unlock | add | cancel => exact h

theorem NewOrder.onInput_releasing (i : Context (NewOrderSingle α)) (done : List ExecId) :
    Releasing .newOrder done (NewOrder.onInput i) := by
  unfold NewOrder.onInput
  split
  · trivial
  · split
    · trivial
    · split <;> split <;>
        simp [Releasing, NewOrder.notSupportedSide, NewOrder.notSupportedOrderType, NewOrder.reject]

/-- A decided request has its ticket released or passed on once. -/
theorem NewOrder.onInput_tickets {i : Context (NewOrderSingle α)} (h : NewOrder.decided i = true) :
    (NewOrder.onInput i).filterMap Effect.ticket = [i.executionId] := by
  unfold NewOrder.onInput
  split
  · rfl
  · rename_i hp
    split
    · rfl
    · rename_i hq
      split
      · split <;> rfl
      · rename_i ht
        split
        · rename_i hs
          simp [NewOrder.decided, hp, hq, hs, ht] at h
        · rfl

def CancelUnitPc.Releases (done : List ExecId) : CancelUnitPc α → Prop
  | .running es => Releasing .cancel done es
  | .found _ | .verified _ _ => True
  | .dead => False

theorem CancelUnitPc.Releases.mono {pc : CancelUnitPc α} {done done' : List ExecId}
    (h : pc.Releases done) (hs : done ⊆ done') : pc.Releases done' := by
  cases pc with
  | running es => exact Releasing.mono h hs
  | found | verified | dead => exact h

namespace Market

variable [Field α] [LinearOrder α]

/-- The invariant of ticket-safe runs. -/
structure Ticketed (m : Market α) : Prop where
  lock : TicketLock.Inv m.lockState
  newUnit : Releasing .newOrder m.finished m.newUnit
  cancelUnit : m.cancelUnit.Releases m.finished

theorem Ticketed.new (name : String) : Ticketed (Market.new name : Market α) where
  lock := by
    have he : (Market.new name : Market α).lockState = ⟨[], false, .idle, fun _ => [], fun _ => [],
        fun _ => .idle, fun _ => [], [], [], [], []⟩ := by
      apply TicketLock.State.ext <;> try rfl
      all_goals
        funext k
        cases k <;> rfl
    rw [he]
    exact .new
  newUnit := trivial
  cancelUnit := trivial

omit [Field α] in
theorem finish_of_gone {m : Market α} (h : TicketLock.Inv m.lockState) {id : ExecId}
    (hid : id ∈ m.finished) : m.mutex.finish id = m.mutex := by
  have hq : id ∉ m.mutex.queue := h.gone id (.inl hid)
  have : (m.mutex.finish id).queue = m.mutex.queue.filter (· ≠ id) :=
    QueueMutex.finish_queue h.nodup
  rw [List.filter_eq_self.2 fun x hx => by simp; rintro rfl; exact hq hx] at this
  cases hm : m.mutex with
  | mk queue locked =>
    rw [hm] at this
    simp only [QueueMutex.finish] at this ⊢
    rw [this]

/-- A unit's effect, on the tickets. -/
theorem unitEffect_lock {m m1 : Market α} {k : Kind} {e : Effect α} {es : List (Effect α)}
    (rest : List ExecId) (h : TicketLock.Inv m.lockState)
    (hr : Releasing k m.finished (e :: es)) (done : m.exec e = .ok m1)
    (hu : m.lockState.unit k = e.ticket.toList ++ rest) :
    TicketLock.Inv { m1.lockState with unit := Function.update m1.lockState.unit k rest } ∧
      Releasing k m1.finished es ∧ m.finished ⊆ m1.finished := by
  cases e with
  | finish id =>
    cases done
    refine ⟨?_, Releasing.mono hr (by simp), by simp⟩
    have hq : (m.mutex.finish id).queue = m.lockState.queue.filter (· ≠ id) :=
      QueueMutex.finish_queue h.nodup
    have := h.finish hu
    rw [← hq] at this
    exact this
  | finishAgain id =>
    cases done
    refine ⟨?_, hr.2, List.Subset.refl _⟩
    have hself : Function.update m.lockState.unit k rest = m.lockState.unit := by
      rw [show rest = m.lockState.unit k from hu.symm, Function.update_eq_self]
    have hm : ({ m with mutex := m.mutex.finish id } : Market α) = m := by
      rw [finish_of_gone h hr.1]
    rw [hm, hself]
    exact h
  | append out =>
    cases done
    refine ⟨?_, hr, List.Subset.refl _⟩
    have hself : Function.update m.lockState.unit k rest = m.lockState.unit := by
      rw [show rest = m.lockState.unit k from hu.symm, Function.update_eq_self]
    show TicketLock.Inv { m.lockState with unit := Function.update m.lockState.unit k rest }
    rw [hself]
    exact h
  | queueNew i =>
    cases done
    obtain ⟨rfl, hr⟩ := hr
    refine ⟨?_, hr, List.Subset.refl _⟩
    have := h.pass hu
    convert this using 1
    apply TicketLock.State.ext <;> try rfl
    funext k
    cases k <;> simp [lockState]
  | queueCancel i =>
    cases done
    obtain ⟨rfl, hr⟩ := hr
    refine ⟨?_, hr, List.Subset.refl _⟩
    have := h.pass hu
    convert this using 1
    apply TicketLock.State.ext <;> try rfl
    funext k
    cases k <;> simp [lockState]
  | unlock | add | cancel => cases hr

/-! ## Every step -/

omit [Field α] in
/-- A step that changes no pipeline as a whole keeps the tickets. -/
theorem lock_congr {m m' : Market α} (h : TicketLock.Inv m.lockState)
    (queue : m'.mutex = m.mutex) (router : m'.router = m.router)
    (newUnit : m'.lockState.unit .newOrder = m.lockState.unit .newOrder)
    (cancelUnit : m'.lockState.unit .cancel = m.lockState.unit .cancel)
    (ready : m'.newQueue = m.newQueue ∧ m'.cancelQueue = m.cancelQueue)
    (newWorker : m'.newWorker.stage = m.newWorker.stage)
    (cancelWorker : m'.cancelWorker.stage = m.cancelWorker.stage)
    (routed : m'.routedNew = m.routedNew ∧ m'.routedCancel = m.routedCancel)
    (ghosts : m'.handed = m.handed ∧ m'.finished = m.finished ∧ m'.queued = m.queued ∧
      m'.unlocked = m.unlocked) : TicketLock.Inv m'.lockState := by
  suffices he : m'.lockState = m.lockState from he ▸ h
  obtain ⟨hr1, hr2⟩ := ready
  obtain ⟨ho1, ho2⟩ := routed
  obtain ⟨hg1, hg2, hg3, hg4⟩ := ghosts
  apply TicketLock.State.ext
  · exact congrArg QueueMutex.queue queue
  · exact congrArg QueueMutex.locked queue
  · exact congrArg RouterPc.stage router
  · funext k
    cases k
    · exact newUnit
    · exact cancelUnit
  · funext k
    cases k
    · exact congrArg (List.map Context.executionId) hr1
    · exact congrArg (List.map Context.executionId) hr2
  · funext k
    cases k
    · exact newWorker
    · exact cancelWorker
  · funext k
    cases k
    · exact ho1
    · exact ho2
  · exact hg1
  · exact hg2
  · exact hg3
  · exact congrArg (List.map fun u : Unlock => (u.worker, u.popped)) hg4

omit [LinearOrder α] in
theorem NewOrder.stageOf_orderProcessing (name : String) (i : Context (NewOrderSingle α))
    (info : OrderInfo α) (v : Verdict) :
    stageOf (NewOrder.orderProcessing name i info v) = .holding i.executionId := by
  cases v <;> rfl

omit [LinearOrder α] in
theorem Cancel.stageOf_orderProcessing (name : String) (i : Context (OrderCancelRequest α))
    (v : Cancel.Refusal ⊕ Order α) :
    stageOf (Cancel.orderProcessing name i v) = .holding i.executionId := by
  rcases v with (_ | _) | _ <;> rfl

omit [LinearOrder α] in
theorem Cancel.accept_releasing (name : String) (i : Context (OrderCancelRequest α)) (order : Order α)
    (busy : Bool) (done : List ExecId) :
    Releasing .cancel done (Cancel.accept name i order busy) ∧
      (Cancel.accept name i order busy).filterMap Effect.ticket = [i.executionId] := by
  cases busy <;> exact ⟨by simp [Cancel.accept, Releasing], rfl⟩

/-- The tickets along a step of the NewOrder worker's program. -/
theorem newWorkerEffect_lock {m m1 : Market α} (hb : Base m) (h : TicketLock.Inv m.lockState)
    {e : Effect α} {es : List (Effect α)} (pc : m.newWorker = .running (e :: es))
    (done : m.exec e = .ok m1) :
    TicketLock.Inv ({ m1 with newWorker := .running es } : Market α).lockState ∧
      m1.newUnit = m.newUnit ∧ m1.cancelUnit = m.cancelUnit ∧ m1.finished = m.finished := by
  obtain ⟨name, i, info, hbuilt, ⟨rfl, rfl, hid⟩ | ⟨rfl, rfl, hid⟩ | ⟨rfl, hes⟩ |
    ⟨r, -, rfl, rfl⟩⟩ := hb.newWorker_next pc
  · cases done
    refine ⟨?_, rfl, rfl, rfl⟩
    exact lock_congr h rfl rfl rfl rfl ⟨rfl, rfl⟩ (by rw [pc]; rfl) rfl ⟨rfl, rfl⟩
      ⟨rfl, rfl, rfl, rfl⟩
  · obtain ⟨ob', hok, -⟩ := hb.add hbuilt hid
    rw [exec_add hok] at done
    cases done
    refine ⟨?_, rfl, rfl, rfl⟩
    exact lock_congr h rfl rfl rfl rfl ⟨rfl, rfl⟩ (by rw [pc]; rfl) rfl ⟨rfl, rfl⟩
      ⟨rfl, rfl, rfl, rfl⟩
  · cases done
    refine ⟨?_, rfl, rfl, rfl⟩
    have hold : m.lockState.worker .newOrder = .holding i.executionId := by
      simp only [lockState, pc]
      rfl
    have hidle : (NewWorkerPc.running es).stage = .idle := by
      rcases hes with rfl | ⟨r, -, rfl⟩ <;> rfl
    convert h.unlock hold using 1
    apply TicketLock.State.ext <;> try rfl
    · funext k
      cases k
      · simpa [lockState] using hidle
      · rfl
    · simp [lockState]
  · cases done
    refine ⟨?_, rfl, rfl, rfl⟩
    exact lock_congr h rfl rfl rfl rfl ⟨rfl, rfl⟩ (by rw [pc]; rfl) rfl ⟨rfl, rfl⟩
      ⟨rfl, rfl, rfl, rfl⟩

theorem cancelWorkerEffect_lock {m m1 : Market α} (hb : Base m) (h : TicketLock.Inv m.lockState)
    {e : Effect α} {es : List (Effect α)} (pc : m.cancelWorker = .running (e :: es))
    (done : m.exec e = .ok m1) :
    TicketLock.Inv ({ m1 with cancelWorker := .running es } : Market α).lockState ∧
      m1.newUnit = m.newUnit ∧ m1.cancelUnit = m.cancelUnit ∧ m1.finished = m.finished := by
  have hunlock : ∀ i : Context (OrderCancelRequest α), e = .unlock i.executionId →
      (CancelWorkerPc.running es).stage = .idle →
      TicketLock.Inv ({ m1 with cancelWorker := .running es } : Market α).lockState ∧
        m1.newUnit = m.newUnit ∧ m1.cancelUnit = m.cancelUnit ∧ m1.finished = m.finished := by
    rintro i rfl hidle
    cases done
    refine ⟨?_, rfl, rfl, rfl⟩
    have hold : m.lockState.worker .cancel = .holding i.executionId := by
      simp only [lockState, pc]
      rfl
    convert h.unlock hold using 1
    apply TicketLock.State.ext <;> try rfl
    · funext k
      cases k
      · rfl
      · simpa [lockState] using hidle
    · simp [lockState]
  obtain ⟨name, i, hq, ⟨order, qty, rfl, rfl, hqty, hv⟩ | ⟨order, rfl, rfl⟩ | ⟨order, rfl, rfl⟩ |
    ⟨orderId, reason, text, ⟨rfl, rfl⟩ | ⟨rfl, rfl⟩⟩⟩ := hb.cancelWorker_next pc
  · obtain ⟨ob', hok, -⟩ := hb.rep.cancel_verified hv
    rw [exec_cancel hok] at done
    cases done
    refine ⟨?_, rfl, rfl, rfl⟩
    exact lock_congr h rfl rfl rfl rfl ⟨rfl, rfl⟩ rfl (by rw [pc]; rfl) ⟨rfl, rfl⟩
      ⟨rfl, rfl, rfl, rfl⟩
  · exact hunlock i rfl rfl
  · cases done
    refine ⟨?_, rfl, rfl, rfl⟩
    exact lock_congr h rfl rfl rfl rfl ⟨rfl, rfl⟩ rfl (by rw [pc]; rfl) ⟨rfl, rfl⟩
      ⟨rfl, rfl, rfl, rfl⟩
  · exact hunlock i rfl rfl
  · cases done
    refine ⟨?_, rfl, rfl, rfl⟩
    exact lock_congr h rfl rfl rfl rfl ⟨rfl, rfl⟩ rfl (by rw [pc]; rfl) ⟨rfl, rfl⟩
      ⟨rfl, rfl, rfl, rfl⟩

omit [Field α] in
theorem not_routed {m : Market α} {id : ExecId} (fresh : id ∉ m.routedNew ++ m.routedCancel)
    (k : Kind) : id ∉ m.lockState.routed k := fun hk => by
  cases k
  · exact fresh (List.mem_append_left _ hk)
  · exact fresh (List.mem_append_right _ hk)

theorem Ticketed.step {m m' : Market α} {a : Action α} (hb : Base m) (h : Ticketed m)
    (hs : Step m a m') (hc : m.ticketSafe a = true) : Ticketed m' := by
  have hb' := hb.step hs
  cases hs with
  | session | eventTake | eventPass | poolTake | poolDrop | poolReport =>
    exact ⟨lock_congr h.lock rfl rfl rfl rfl ⟨rfl, rfl⟩ rfl rfl ⟨rfl, rfl⟩ ⟨rfl, rfl, rfl, rfl⟩,
      h.newUnit, h.cancelUnit⟩
  | routeNew i idle fresh =>
    refine ⟨?_, h.newUnit, h.cancelUnit⟩
    convert h.lock.route (k := .newOrder) (by simp only [lockState, idle]; rfl) (not_routed fresh)
      using 1
    apply TicketLock.State.ext <;> try rfl
    funext k
    cases k <;> rfl
  | routeCancel i idle fresh =>
    refine ⟨?_, h.newUnit, h.cancelUnit⟩
    convert h.lock.route (k := .cancel) (by simp only [lockState, idle]; rfl) (not_routed fresh)
      using 1
    apply TicketLock.State.ext <;> try rfl
    funext k
    cases k <;> rfl
  | allow r pc =>
    refine ⟨?_, h.newUnit, h.cancelUnit⟩
    exact h.lock.allow r.kind r.id (by simp only [lockState, pc]; rfl)
  | handNew i pc =>
    refine ⟨?_, h.newUnit, h.cancelUnit⟩
    convert h.lock.hand .newOrder i.executionId (by simp only [lockState, pc]; rfl)
      using 1
    apply TicketLock.State.ext <;> try rfl
    funext k
    cases k <;> simp [lockState]
  | handCancel i pc =>
    refine ⟨?_, h.newUnit, h.cancelUnit⟩
    convert h.lock.hand .cancel i.executionId (by simp only [lockState, pc]; rfl)
      using 1
    apply TicketLock.State.ext <;> try rfl
    funext k
    cases k <;> simp [lockState]
  | newUnitPop i rest pc input =>
    have hd : NewOrder.decided i = true := by simpa [ticketSafe, pc, input] using hc
    refine ⟨?_, NewOrder.onInput_releasing i _, h.cancelUnit⟩
    refine lock_congr h.lock rfl rfl ?_ rfl ⟨rfl, rfl⟩ rfl rfl ⟨rfl, rfl⟩ ⟨rfl, rfl, rfl, rfl⟩
    simp [lockState, pc, input, NewOrder.onInput_tickets hd]
  | newUnitEffect e es m1 pc done =>
    have hr : Releasing .newOrder m.finished (e :: es) := pc ▸ h.newUnit
    have hf := exec_frame done
    obtain ⟨hlock, hrest, hfin⟩ := unitEffect_lock
      (es.filterMap Effect.ticket ++ m.newInput.map Context.executionId) h.lock hr done
      (by cases ht : e.ticket <;> simp [lockState, pc, ht])
    refine ⟨?_, hrest, ?_⟩
    · convert hlock using 1
      apply TicketLock.State.ext <;> try rfl
      funext k
      cases k
      · simp [lockState, hf.newInput]
      · rfl
    · have hcu : ({ m1 with newUnit := es } : Market α).cancelUnit = m.cancelUnit := hf.cancelUnit
      rw [hcu]
      exact h.cancelUnit.mono hfin
  | newWorkerPop i rest info pc queue value =>
    refine ⟨?_, h.newUnit, h.cancelUnit⟩
    convert h.lock.take .newOrder i.executionId (rest.map Context.executionId)
      (by simp only [lockState, pc]; rfl)
      (by simp only [lockState, queue, List.map_cons]) using 1
    apply TicketLock.State.ext <;> try rfl
    all_goals
      funext k
      cases k <;> rfl
  | newWorkerThrow => exact hb'.newWorker.elim
  | newWorkerLock i info pc can =>
    refine ⟨?_, h.newUnit, h.cancelUnit⟩
    convert h.lock.lock .newOrder i.executionId (by simp only [lockState, pc]; rfl)
      (QueueMutex.canLock_iff.1 can).1 using 1
    apply TicketLock.State.ext <;> try rfl
    funext k
    cases k <;> rfl
  | newWorkerCheck i info pc =>
    refine ⟨?_, h.newUnit, h.cancelUnit⟩
    refine lock_congr h.lock rfl rfl rfl rfl ⟨rfl, rfl⟩ ?_ rfl ⟨rfl, rfl⟩ ⟨rfl, rfl, rfl, rfl⟩
    rw [pc]
    exact NewOrder.stageOf_orderProcessing _ _ _ _
  | newWorkerEffect e es m1 pc done =>
    obtain ⟨hlock, hnu, hcu, hf⟩ := newWorkerEffect_lock hb h.lock pc done
    refine ⟨hlock, ?_, ?_⟩
    · rw [show ({ m1 with newWorker := .running es } : Market α).newUnit = m.newUnit from hnu,
        show ({ m1 with newWorker := .running es } : Market α).finished = m.finished from hf]
      exact h.newUnit
    · rw [show ({ m1 with newWorker := .running es } : Market α).cancelUnit = m.cancelUnit from hcu,
        show ({ m1 with newWorker := .running es } : Market α).finished = m.finished from hf]
      exact h.cancelUnit
  | newWorkerFault => exact hb'.newWorker.elim
  | cancelUnitNoQuantity i rest pc input qty =>
    refine ⟨?_, h.newUnit, trivial⟩
    refine lock_congr h.lock rfl rfl rfl ?_ ⟨rfl, rfl⟩ rfl rfl ⟨rfl, rfl⟩ ⟨rfl, rfl, rfl, rfl⟩
    simp only [lockState, pc, input]
    rfl
  | cancelUnitThrow i rest pc input qty side =>
    simp [ticketSafe, pc, input, Cancel.decided, side] at hc
    simp [hc] at qty
  | cancelUnitUnknown i rest pc input =>
    refine ⟨?_, h.newUnit, trivial⟩
    refine lock_congr h.lock rfl rfl rfl ?_ ⟨rfl, rfl⟩ rfl rfl ⟨rfl, rfl⟩ ⟨rfl, rfl, rfl, rfl⟩
    simp only [lockState, pc, input]
    rfl
  | cancelUnitFound i rest pc input =>
    refine ⟨?_, h.newUnit, trivial⟩
    refine lock_congr h.lock rfl rfl rfl ?_ ⟨rfl, rfl⟩ rfl rfl ⟨rfl, rfl⟩ ⟨rfl, rfl, rfl, rfl⟩
    simp only [lockState, pc, input]
    rfl
  | cancelUnitGone i f pc gone =>
    have hhas : m.ob.has i.message.origClOrdId = true := by simpa [ticketSafe, pc] using hc
    obtain ⟨o, ho, -⟩ := hb.rep.getOrder hhas
    rw [gone] at ho
    cases ho
  | cancelUnitOtherSide i order pc =>
    refine ⟨?_, h.newUnit, trivial⟩
    refine lock_congr h.lock rfl rfl rfl ?_ ⟨rfl, rfl⟩ rfl rfl ⟨rfl, rfl⟩ ⟨rfl, rfl, rfl, rfl⟩
    simp only [lockState, pc]
    rfl
  | cancelUnitVerified i order pc =>
    refine ⟨?_, h.newUnit, trivial⟩
    refine lock_congr h.lock rfl rfl rfl ?_ ⟨rfl, rfl⟩ rfl rfl ⟨rfl, rfl⟩ ⟨rfl, rfl, rfl, rfl⟩
    simp only [lockState, pc]
    rfl
  | cancelUnitAccept i order busy pc =>
    obtain ⟨hrel, htick⟩ := Cancel.accept_releasing m.ob.name i order busy m.finished
    refine ⟨?_, h.newUnit, hrel⟩
    refine lock_congr h.lock rfl rfl rfl ?_ ⟨rfl, rfl⟩ rfl rfl ⟨rfl, rfl⟩ ⟨rfl, rfl, rfl, rfl⟩
    simp only [lockState, pc, CancelUnitPc.tickets, htick]
  | cancelUnitEffect e es m1 pc done =>
    have hr : Releasing .cancel m.finished (e :: es) := by
      have := h.cancelUnit
      rwa [pc] at this
    have hf := exec_frame done
    obtain ⟨hlock, hrest, hfin⟩ := unitEffect_lock
      (es.filterMap Effect.ticket ++ m.cancelInput.map Context.executionId) h.lock hr done
      (by cases ht : e.ticket <;> simp [lockState, pc, CancelUnitPc.tickets, ht])
    refine ⟨?_, ?_, hrest⟩
    · convert hlock using 1
      apply TicketLock.State.ext <;> try rfl
      funext k
      cases k
      · rfl
      · simp [lockState, CancelUnitPc.tickets, hf.cancelInput]
    · have hnu : ({ m1 with cancelUnit := .running es } : Market α).newUnit = m.newUnit := hf.newUnit
      rw [hnu]
      exact h.newUnit.mono hfin
  | cancelWorkerPop i rest pc queue =>
    refine ⟨?_, h.newUnit, h.cancelUnit⟩
    convert h.lock.take .cancel i.executionId (rest.map Context.executionId)
      (by simp only [lockState, pc]; rfl)
      (by simp only [lockState, queue, List.map_cons]) using 1
    apply TicketLock.State.ext <;> try rfl
    all_goals
      funext k
      cases k <;> rfl
  | cancelWorkerLock i pc can =>
    refine ⟨?_, h.newUnit, h.cancelUnit⟩
    convert h.lock.lock .cancel i.executionId (by simp only [lockState, pc]; rfl)
      (QueueMutex.canLock_iff.1 can).1 using 1
    apply TicketLock.State.ext <;> try rfl
    funext k
    cases k <;> rfl
  | cancelWorkerCheck i qty v pc =>
    refine ⟨?_, h.newUnit, h.cancelUnit⟩
    refine lock_congr h.lock rfl rfl rfl rfl ⟨rfl, rfl⟩ rfl ?_ ⟨rfl, rfl⟩ ⟨rfl, rfl, rfl, rfl⟩
    rw [pc]
    exact Cancel.stageOf_orderProcessing _ _ _
  | cancelWorkerThrow => exact hb'.cancelWorker.elim
  | cancelWorkerEffect e es m1 pc done =>
    obtain ⟨hlock, hnu, hcu, hf⟩ := cancelWorkerEffect_lock hb h.lock pc done
    refine ⟨hlock, ?_, ?_⟩
    · rw [show ({ m1 with cancelWorker := .running es } : Market α).newUnit = m.newUnit from hnu,
        show ({ m1 with cancelWorker := .running es } : Market α).finished = m.finished from hf]
      exact h.newUnit
    · rw [show ({ m1 with cancelWorker := .running es } : Market α).cancelUnit = m.cancelUnit from hcu,
        show ({ m1 with cancelWorker := .running es } : Market α).finished = m.finished from hf]
      exact h.cancelUnit
  | cancelWorkerFault => exact hb'.cancelWorker.elim

/-! ## Who can go on -/

/-- A NewOrder worker that holds the lock, that may take it, or that has a request to take up, can go
on. -/
theorem newWorker_goes {m : Market α} (hb : Base m)
    (h : (∃ id, m.newWorker.stage = .holding id) ∨
      (∃ id, m.newWorker.stage = .waiting id ∧ m.mutex.canLock id = true) ∨
      m.newWorker.stage = .idle ∧ m.newQueue ≠ []) : m.newWorkerStep.isSome = true := by
  have hok := hb.newWorker
  unfold newWorkerStep
  cases pc : m.newWorker with
  | dead =>
    rw [pc] at hok
    exact hok.elim
  | checking i info => rfl
  | waiting i info =>
    rcases h with ⟨id, h⟩ | ⟨id, h, hcan⟩ | ⟨h, -⟩
    · simp [pc, NewWorkerPc.stage] at h
    · simp only [pc, NewWorkerPc.stage, TicketLock.Worker.waiting.injEq] at h
      simp [h, hcan]
    · simp [pc, NewWorkerPc.stage] at h
  | running es =>
    cases es with
    | cons e es =>
      dsimp only
      cases m.exec e <;> rfl
    | nil =>
      rcases h with ⟨id, h⟩ | ⟨id, h, -⟩ | ⟨-, hq⟩
      · simp [pc, NewWorkerPc.stage, stageOf] at h
      · simp [pc, NewWorkerPc.stage, stageOf] at h
      · cases hqueue : m.newQueue with
        | nil => exact absurd hqueue hq
        | cons i rest =>
          dsimp only
          cases NewOrder.orderInfo (m.userId i.client) i <;> rfl

theorem cancelWorker_goes {m : Market α} (hb : Base m)
    (h : (∃ id, m.cancelWorker.stage = .holding id) ∨
      (∃ id, m.cancelWorker.stage = .waiting id ∧ m.mutex.canLock id = true) ∨
      m.cancelWorker.stage = .idle ∧ m.cancelQueue ≠ []) : m.cancelWorkerStep.isSome = true := by
  have hok := hb.cancelWorker
  unfold cancelWorkerStep
  cases pc : m.cancelWorker with
  | dead =>
    rw [pc] at hok
    exact hok.elim
  | checking i =>
    dsimp only
    cases i.message.orderQty with
    | none => rfl
    | some qty =>
      dsimp only
      cases Cancel.verifyOrderStateWithLock m.ob i.message.origClOrdId qty i.message.side <;> rfl
  | waiting i =>
    rcases h with ⟨id, h⟩ | ⟨id, h, hcan⟩ | ⟨h, -⟩
    · simp [pc, CancelWorkerPc.stage] at h
    · simp only [pc, CancelWorkerPc.stage, TicketLock.Worker.waiting.injEq] at h
      simp [h, hcan]
    · simp [pc, CancelWorkerPc.stage] at h
  | running es =>
    cases es with
    | cons e es =>
      dsimp only
      cases m.exec e <;> rfl
    | nil =>
      rcases h with ⟨id, h⟩ | ⟨id, h, -⟩ | ⟨-, hq⟩
      · simp [pc, CancelWorkerPc.stage, stageOf] at h
      · simp [pc, CancelWorkerPc.stage, stageOf] at h
      · cases hqueue : m.cancelQueue with
        | nil => exact absurd hqueue hq
        | cons i rest => rfl

/-- A unit with a ticket can go on. -/
theorem newUnit_goes {m : Market α} (hb : Base m) (h : m.lockState.unit .newOrder ≠ []) :
    m.newUnitStep.isSome = true := by
  unfold newUnitStep
  cases pc : m.newUnit with
  | cons e es =>
    obtain ⟨m1, done⟩ := exec_ofUnit_ok (m := m) (hb.newUnit e (by simp [pc]))
    simp [done, Except.toOption]
  | nil =>
    cases hin : m.newInput with
    | nil => simp [lockState, pc, hin] at h
    | cons i rest => rfl

theorem cancelUnit_goes {m : Market α} (hb : Base m) (h : m.lockState.unit .cancel ≠ [])
    (alive : m.cancelUnit.Releases m.finished) : m.cancelUnitStep.isSome = true := by
  have hok := hb.cancelUnit
  unfold cancelUnitStep
  cases pc : m.cancelUnit with
  | dead =>
    rw [pc] at alive
    exact alive.elim
  | found i =>
    dsimp only
    cases m.ob.getOrder i.message.origClOrdId with
    | error f => rfl
    | ok order =>
      dsimp only
      split <;> rfl
  | verified i order => rfl
  | running es =>
    cases es with
    | cons e es =>
      rw [pc] at hok
      obtain ⟨m1, done⟩ := exec_ofUnit_ok (m := m) (hok e (by simp)).1
      simp [done, Except.toOption]
    | nil =>
      cases hin : m.cancelInput with
      | nil => simp [lockState, pc, hin, CancelUnitPc.tickets] at h
      | cons i rest =>
        dsimp only
        split
        · rfl
        · split
          · rfl
          · split <;> rfl

/-- The ticket at the front is with a thread that can go on. -/
theorem Ticketed.front {m : Market α} (hb : Base m) (h : Ticketed m) {id : ExecId}
    (hh : m.mutex.queue.head? = some id) :
    ∃ t, id ∈ m.holds t ∧ ∀ execId now, (m.step (.run t execId now)).isSome = true := by
  have hmem : ∀ (w : TicketLock.Worker ExecId) (ready : List ExecId),
      w = .holding id ∨ w = .waiting id → id ∈ w.tickets ++ ready := by
    rintro w ready (rfl | rfl) <;> simp [TicketLock.Worker.tickets]
  rcases h.lock.custody hh with ⟨k, hold⟩ | ⟨free, k, hwait | ⟨hidle, ⟨rest, hready⟩ | ⟨rest, hunit⟩ |
    hrouter⟩⟩
  · cases k
    · exact ⟨.newWorker, hmem _ _ (.inl hold), fun _ _ => newWorker_goes hb (.inl ⟨id, hold⟩)⟩
    · exact ⟨.cancelWorker, hmem _ _ (.inl hold), fun _ _ => cancelWorker_goes hb (.inl ⟨id, hold⟩)⟩
  · have hcan : m.mutex.canLock id = true := QueueMutex.canLock_iff.2 ⟨hh, free⟩
    cases k
    · exact ⟨.newWorker, hmem _ _ (.inr hwait), fun _ _ =>
        newWorker_goes hb (.inr (.inl ⟨id, hwait, hcan⟩))⟩
    · exact ⟨.cancelWorker, hmem _ _ (.inr hwait), fun _ _ =>
        cancelWorker_goes hb (.inr (.inl ⟨id, hwait, hcan⟩))⟩
  · cases k
    · refine ⟨.newWorker, by simp [holds, hready], fun _ _ =>
        newWorker_goes hb (.inr (.inr ⟨hidle, fun hq => ?_⟩))⟩
      simp [lockState, hq] at hready
    · refine ⟨.cancelWorker, by simp [holds, hready], fun _ _ =>
        cancelWorker_goes hb (.inr (.inr ⟨hidle, fun hq => ?_⟩))⟩
      simp [lockState, hq] at hready
  · cases k
    · exact ⟨.newUnit, by simp [holds, hunit], fun _ _ => newUnit_goes hb (by simp [hunit])⟩
    · exact ⟨.cancelUnit, by simp [holds, hunit], fun _ _ =>
        cancelUnit_goes hb (by simp [hunit]) h.cancelUnit⟩
  · simp only [lockState, RouterPc.stage] at hrouter
    split at hrouter
    · cases hrouter
    · cases hrouter
    · rename_i r pc
      simp only [TicketLock.Router.handing.injEq] at hrouter
      refine ⟨.router, by simp [holds, pc, hrouter.2], fun _ _ => ?_⟩
      show m.routerStep.isSome = true
      unfold routerStep
      rw [pc]
      cases r <;> rfl

/-! ## Runs -/

theorem ticketed_of_run {name : String} {m : Market α}
    (h : Trans.Run step (fun m a => m.ticketSafe a = true) (Market.new name) m) : Ticketed m :=
  h.invariant_with (.new name) (fun _ hr => base_of_run hr) fun _ _ _ hI hb hc hs =>
    hI.step hb (step_sound hs) hc

/-- **Tickets.** In every run of ticket-safe steps each request handed to a unit was rejected, its
ticket finished and never queued for the worker, or its ticket is in the queue until its own worker
unlocks it, and not both; no worker waits for a ticket that is not in the queue; and the ticket at
the front is with a thread that can go on. -/
theorem tickets_accounted {name : String} {m : Market α}
    (h : Trans.Run step (fun m a => m.ticketSafe a = true) (Market.new name) m) :
    (∀ id ∈ m.handed, m.lockState.Rejected id ∧ ¬ m.lockState.Held id ∨
      m.lockState.Held id ∧ ¬ m.lockState.Rejected id) ∧
    (∀ i info, m.newWorker = .waiting i info → i.executionId ∈ m.mutex.queue) ∧
    (∀ i, m.cancelWorker = .waiting i → i.executionId ∈ m.mutex.queue) ∧
    ∀ id, m.mutex.queue.head? = some id →
      ∃ t, id ∈ m.holds t ∧ ∀ execId now, (m.step (.run t execId now)).isSome = true := by
  have hb := base_of_run h
  have ht := ticketed_of_run h
  refine ⟨fun id hid => ht.lock.accounted hid, fun i info pc => ?_, fun i pc => ?_,
    fun id hh => ht.front hb hh⟩
  · exact ht.lock.waiting_mem (k := .newOrder) (by simp only [lockState, pc]; rfl)
  · exact ht.lock.waiting_mem (k := .cancel) (by simp only [lockState, pc]; rfl)

/-! ## Concrete runs -/

/-- A new order of the given type is taken up by the NewOrder unit. -/
def orderRun (ordType : OrderType) : List (Action ℚ) :=
  [.session [0, 1] fun c => if c = 0 then "A" else "B",
    .route (.newOrder ⟨0, 0, "n1", ⟨1, 'D'⟩, ⟨"s1", .sell, some 10, ordType, some 5⟩⟩)] ++
  runs .router 2 ++ runs .newUnit 2

/-- A cancel of an undisclosed side with a quantity. -/
def throwRun : List (Action ℚ) :=
  [.route (.cancel ⟨1, 0, "c1", ⟨1, 'F'⟩, ⟨"s1", "x1", .undisclosed, some 10⟩⟩)] ++ runs .router 2 ++
  runs .cancelUnit 1

/-- The order of a cancel is filled by an earlier request between the cancel's two reads. -/
def vanishRun : List (Action ℚ) :=
  [.session [0, 1] fun c => if c = 0 then "A" else "B",
    .route (.newOrder ⟨0, 0, "n1", ⟨1, 'D'⟩, ⟨"s1", .sell, some 10, .limit, some 5⟩⟩)] ++
  runs .router 2 ++ runs .newUnit 2 ++ runs .newWorker 6 ++
  [.route (.newOrder ⟨1, 0, "n2", ⟨1, 'D'⟩, ⟨"b1", .buy, some 10, .limit, some 5⟩⟩)] ++
  runs .router 2 ++ [.route (.cancel ⟨0, 0, "c1", ⟨2, 'F'⟩, ⟨"s1", "x1", .sell, some 10⟩⟩)] ++
  runs .router 2 ++ runs .cancelUnit 1 ++ runs .newUnit 2 ++ runs .newWorker 6 ++ runs .cancelUnit 1

/-- The ticket of a Market order is finished and its request queued, so the worker waits for good;
after the two cancels nobody is left to release the ticket at the front. -/
theorem ticket_lost :
    (∃ m : Market ℚ, Reachable "AAPL" m ∧ "n1" ∈ m.handed ∧ ¬ m.lockState.Rejected "n1" ∧
      ¬ m.lockState.Held "n1" ∧ m.newWorker.stage = .waiting "n1" ∧ "n1" ∉ m.mutex.queue) ∧
    ∀ acts ∈ [throwRun, vanishRun], ∃ m : Market ℚ,
      Trans.exec step (fun _ _ => True) (Market.new "AAPL") acts = some m ∧
      m.mutex.queue.head? = some "c1" ∧ ∀ t, "c1" ∉ m.holds t := by
  constructor
  · have h : (Trans.exec step (fun _ _ => True) (Market.new "AAPL")
        (orderRun .market ++ runs .newUnit 2 ++ runs .newWorker 1)).map
        (fun m => (m.handed, m.finished, m.queued, m.newWorker.stage, m.mutex.queue)) =
        some (["n1"], ["n1"], ["n1"], .waiting "n1", []) := by decide +kernel
    obtain ⟨m, hm, h⟩ := Option.map_eq_some_iff.1 h
    simp only [Prod.mk.injEq] at h
    obtain ⟨hh, hf, hq, hw, hm'⟩ := h
    refine ⟨m, .of_exec .start hm, by simp [hh], fun hr => hr.2.1 ?_, fun hr => hr.1 ?_, hw,
      by simp [hm']⟩
    · simp [lockState, hq]
    · simp [lockState, hf]
  · intro acts hacts
    have h : (Trans.exec step (fun _ _ => True) (Market.new "AAPL") acts).map (fun m =>
        decide (m.mutex.queue.head? = some "c1" ∧ ∀ t ∈ [Thread.router, .newUnit, .newWorker,
          .cancelUnit, .cancelWorker, .eventUnit, .pool], "c1" ∉ m.holds t)) = some true := by
      simp only [List.mem_cons, List.not_mem_nil, or_false] at hacts
      rcases hacts with rfl | rfl <;> decide +kernel
    obtain ⟨m, hm, h⟩ := Option.map_eq_some_iff.1 h
    obtain ⟨hhead, hall⟩ := of_decide_eq_true h
    exact ⟨m, hm, hhead, fun t => hall t (by cases t <;> simp)⟩

/-- The same order as a Limit order, waiting for the lock. -/
theorem tickets_accounted_run : ∃ m : Market ℚ, ∃ t, m.handed = ["n1"] ∧
    (m.lockState.Rejected "n1" ∧ ¬ m.lockState.Held "n1" ∨
      m.lockState.Held "n1" ∧ ¬ m.lockState.Rejected "n1") ∧
    "n1" ∈ m.holds t ∧ (m.step (.run t "" 0)).isSome = true := by
  have h : (Trans.exec step (fun m a => m.ticketSafe a = true) (Market.new "AAPL")
      (orderRun .limit)).map (fun m => (m.handed, m.mutex.queue.head?)) =
      some (["n1"], some "n1") := by decide +kernel
  obtain ⟨m, hm, h⟩ := Option.map_eq_some_iff.1 h
  simp only [Prod.mk.injEq] at h
  obtain ⟨hacc, -, -, hfront⟩ := tickets_accounted (.of_exec .start hm)
  obtain ⟨t, ht, hstep⟩ := hfront "n1" h.2
  exact ⟨m, t, h.1, hacc "n1" (by simp [h.1]), ht, hstep "" 0⟩

end Market

end Fix42
