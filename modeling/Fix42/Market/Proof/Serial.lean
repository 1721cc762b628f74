import Fix42.Market.Proof.Tickets
import Fix42.Market.Serial

/-!
# The lock of a market

`Serial m`: the lock of a market satisfies `QueueLock.Inv`, whatever the units did before, and a
request is in one place. It holds of every reachable market (`serial_of_reachable`), and every step is
one of `QueueLock` or leaves the lock alone (`Serial.queueLock_step`).
-/

namespace Fix42

variable {α : Type*}

/-! ## The units' programs -/

/-- What a unit may have to do for request `id`; `fin` when its ticket is finished already. -/
inductive UnitProgram (id : ExecId) : Bool → List (Effect α) → Prop
  | done {fin} : UnitProgram id fin []
  | finish {fin es} (rest : UnitProgram id true es) : UnitProgram id fin (.finish id :: es)
  | again {es} (rest : UnitProgram id true es) : UnitProgram id true (.finishAgain id :: es)
  | append {fin es} (out : Output α) (rest : UnitProgram id fin es) :
      UnitProgram id fin (.append out :: es)
  | queueNew {fin} (i : Context (NewOrderSingle α)) (own : i.executionId = id) :
      UnitProgram id fin [.queueNew i]
  | queueCancel {fin} (i : Context (OrderCancelRequest α)) (own : i.executionId = id) :
      UnitProgram id fin [.queueCancel i]

@[simp] theorem pending_nil : pending ([] : List (Effect α)) = [] := rfl

@[simp] theorem pending_cons (e : Effect α) (es : List (Effect α)) :
    pending (e :: es) = e.subject.elim (pending es) fun id => [id] := by
  unfold pending
  rw [List.findSome?_cons]
  cases e.subject <;> rfl

theorem UnitProgram.pending {id : ExecId} {fin : Bool} {es : List (Effect α)}
    (h : UnitProgram id fin es) : pending es = [] ∨ pending es = [id] := by
  induction h with
  | done => exact .inl rfl
  | finish | again => exact .inr rfl
  | append out rest ih => exact ih
  | queueNew i own | queueCancel i own =>
    subst own
    exact .inr rfl

theorem UnitProgram.count_pending {id : ExecId} {fin : Bool} {es : List (Effect α)}
    (h : UnitProgram id fin es) (x : ExecId) : (Fix42.pending es).count x ≤ [id].count x := by
  rcases h.pending with he | he <;> simp [he]

theorem NewOrder.onInput_program (i : Context (NewOrderSingle α)) :
    UnitProgram i.executionId false (NewOrder.onInput i) := by
  unfold NewOrder.onInput
  split
  · exact .finish (.append _ .done)
  · split
    · exact .finish (.append _ .done)
    · split
      · split
        · exact .queueNew i rfl
        · exact .finish (.append _ (.again .done))
      · split
        · exact .append _ (.finish (.queueNew i rfl))
        · exact .append _ (.finish (.again (.append _ (.again .done))))

theorem Cancel.accept_program [Sub α] (name : String) (i : Context (OrderCancelRequest α))
    (order : Order α) (busy : Bool) :
    UnitProgram i.executionId false (Cancel.accept name i order busy) := by
  cases busy
  · exact .queueCancel i rfl
  · exact .append _ (.queueCancel i rfl)

/-- A rest of some request's program, its ticket finished if the program says so. -/
def Programmed (finished : List ExecId) (es : List (Effect α)) : Prop :=
  ∃ id fin, UnitProgram id fin es ∧ (fin = true → id ∈ finished)

theorem Programmed.mono {finished finished' : List ExecId} {es : List (Effect α)}
    (h : Programmed finished es) (hs : finished ⊆ finished') : Programmed finished' es := by
  obtain ⟨id, fin, hp, hf⟩ := h
  exact ⟨id, fin, hp, fun h => hs (hf h)⟩

theorem Programmed.fresh {finished : List ExecId} {id : ExecId} {es : List (Effect α)}
    (h : UnitProgram id false es) : Programmed finished es := ⟨id, false, h, by simp⟩

def CancelUnitPc.Programmed (finished : List ExecId) : CancelUnitPc α → Prop
  | .running es => Fix42.Programmed finished es
  | .found _ | .verified _ _ | .dead => True

theorem CancelUnitPc.Programmed.mono {finished finished' : List ExecId} {pc : CancelUnitPc α}
    (h : pc.Programmed finished) (hs : finished ⊆ finished') : pc.Programmed finished' := by
  cases pc with
  | running es => exact Fix42.Programmed.mono h hs
  | found | verified | dead => trivial

/-! ## Critical sections -/

section
variable [Field α] [LinearOrder α]

theorem held_newWorker {w : NewWorkerPc α} {ob : OrderBook α} (h : w.Ok ob) :
    (held w.stage).isSome = w.critical := by
  cases w with
  | dead | waiting | checking => rfl
  | running es =>
    cases es with
    | nil => rfl
    | cons e es =>
      rcases h with h | ⟨name, i, info, v, -, hes, -⟩
      · cases h
      · rcases NewOrder.next_cases hes with ⟨-, rfl, rfl⟩ | ⟨-, rfl, rfl⟩ | ⟨rfl, -⟩ | ⟨r, -, rfl, rfl⟩
          <;> rfl

theorem held_cancelWorker {w : CancelWorkerPc α} {ob : OrderBook α} (h : w.Ok ob) :
    (held w.stage).isSome = w.critical := by
  cases w with
  | dead | waiting | checking => rfl
  | running es =>
    cases es with
    | nil => rfl
    | cons e es =>
      rcases h with h | ⟨name, i, v, -, hes, -⟩
      · cases h
      · rcases Cancel.next_cases hes with ⟨order, -, ⟨rfl, rfl⟩ | ⟨rfl, rfl⟩ | ⟨rfl, rfl⟩⟩ |
          ⟨r, -, orderId, reason, text, ⟨rfl, rfl⟩ | ⟨rfl, rfl⟩⟩ <;> rfl

end

namespace Market

variable [Field α] [LinearOrder α]

/-- One worker at a time is in its critical section. -/
theorem Base.alone {m : Market α} (h : Base m) :
    m.critical .newWorker = none ∨ m.critical .cancelWorker = none := by
  have hn := held_newWorker h.newWorker
  have hc := held_cancelWorker h.cancelWorker
  cases hx : m.critical .newWorker with
  | none => exact .inl rfl
  | some id =>
    have hx' : held m.newWorker.stage = some id := hx
    rw [hx', Option.isSome_some] at hn
    rw [h.exclusive hn.symm] at hc
    exact .inr (Option.isSome_eq_false_iff.1 hc |> Option.isNone_iff_eq_none.1)

/-- The lock is on while a worker is in its critical section. -/
theorem Base.holder_none {m : Market α} (h : Base m) (free : m.mutex.locked = false) :
    m.holder = none := by
  have hnone : ∀ {o : Option ExecId} {b : Bool}, o.isSome = b →
      (b = true → m.mutex.locked = true) → o = none := by
    rintro (_ | id) b rfl hb
    · rfl
    · simp [free] at hb
  have hn := hnone (held_newWorker h.newWorker) fun hc => h.locked (.inl hc)
  have hc := hnone (held_cancelWorker h.cancelWorker) fun hc => h.locked (.inr hc)
  simp only [holder, critical, hn, hc, Option.or_none]

/-- Where the requests that have left the router are. -/
def placed (m : Market α) : List ExecId :=
  m.unlocked.map Unlock.worker ++
    (m.newWorker.stage.tickets ++ m.newQueue.map Context.executionId) ++
    (pending m.newUnit ++ m.newInput.map Context.executionId) ++
    (m.cancelWorker.stage.tickets ++ m.cancelQueue.map Context.executionId) ++
    (m.cancelUnit.pending ++ m.cancelInput.map Context.executionId)

/-- The invariant (module doc). A request is in one place. -/
structure Serial (m : Market α) : Prop where
  lock : QueueLock.Inv m.queueLock
  locked : m.mutex.locked = true → m.holder ≠ none
  routed : m.allowed ⊆ m.routedNew ++ m.routedCancel
  allowing : ∀ r, m.router = .allowing r →
    r.id ∈ m.routedNew ++ m.routedCancel ∧ r.id ∉ m.allowed
  placed : ∀ id, m.placed.count id ≤ m.handed.count id
  newUnit : Programmed m.finished m.newUnit
  cancelUnit : m.cancelUnit.Programmed m.finished

namespace Serial

variable {m m' : Market α} {a : Action α} {id : ExecId}

theorem new (name : String) : Serial (Market.new name : Market α) where
  lock := .new
  locked h := by cases h
  routed := List.Subset.refl _
  allowing r h := by cases h
  placed id := by simp [Market.placed, Market.new, NewWorkerPc.stage, CancelWorkerPc.stage, stageOf,
    TicketLock.Worker.tickets, pending, CancelUnitPc.pending]
  newUnit := ⟨"", false, .done, by simp⟩
  cancelUnit := ⟨"", false, .done, by simp⟩

omit [Field α] in
theorem handed_subset (m : Market α) : m.handed ⊆ m.allowed := List.subset_append_left _ _

omit [Field α] in
theorem handed_count (h : Serial m) (id : ExecId) : m.handed.count id ≤ 1 :=
  List.nodup_iff_count_le_one.1 ((List.nodup_append.1 h.lock.nodup).1) id

omit [Field α] in
theorem placed_count (h : Serial m) (id : ExecId) : m.placed.count id ≤ 1 :=
  (h.placed id).trans (h.handed_count id)

omit [Field α] in
/-- A placed request has its ticket allowed. -/
theorem allowed_of_placed (h : Serial m) (hp : id ∈ m.placed) : id ∈ m.allowed := by
  have := List.count_pos_iff.2 hp
  exact handed_subset m (List.count_pos_iff.1 (this.trans_le (h.placed id)))

omit [Field α] in
theorem mem_sections : id ∈ m.sections ↔ id ∈ m.unlocked.map Unlock.worker ∨
    id ∈ m.holder := by simp [sections, Option.mem_toList]

omit [Field α] in
theorem sections_eq (m : Market α) : m.queueLock.sections = m.sections := by
  simp [QueueLock.State.sections, queueLock, sections, Function.comp_def]

omit [Field α] in
theorem mem_tickets {w : TicketLock.Worker ExecId} (h : held w = some id) : id ∈ w.tickets := by
  cases w with
  | idle | waiting => cases h
  | holding x =>
    cases h
    exact List.mem_singleton_self _

omit [Field α] in
/-- A unit's request has not had its turn. -/
theorem not_mem_sections (h : Serial m)
    (hp : id ∈ pending m.newUnit ∨ id ∈ m.cancelUnit.pending) : id ∉ m.sections := by
  have hc := h.placed_count id
  simp only [Market.placed, List.count_append] at hc
  have hpos : 0 < (pending m.newUnit).count id ∨ 0 < m.cancelUnit.pending.count id :=
    hp.imp List.count_pos_iff.2 List.count_pos_iff.2
  rw [mem_sections]
  rintro (hu | hh)
  · have := List.count_pos_iff.2 hu
    omega
  · simp only [holder, Option.mem_def, Option.or_eq_some_iff] at hh
    rcases hh with hh | ⟨-, hh⟩
    · have := List.count_pos_iff.2 (mem_tickets hh)
      omega
    · have := List.count_pos_iff.2 (mem_tickets hh)
      omega

/-! ## One step -/

/-- A unit's effect. -/
theorem unitEffect {m1 : Market α} {x : ExecId} {fin : Bool} {e : Effect α} {es : List (Effect α)}
    (h : Serial m) (hp : UnitProgram x fin (e :: es)) (hf : fin = true → x ∈ m.finished)
    (waits : ∀ y ∈ pending (e :: es), y ∈ m.allowed ∧ y ∉ m.sections)
    (done : m.exec e = .ok m1) :
    (m1.queueLock = m.queueLock ∨ QueueLock.Step m.queueLock m1.queueLock) ∧
      m.finished ⊆ m1.finished ∧ Programmed m1.finished es := by
  cases hp with
  | finish rest =>
    cases done
    obtain ⟨hal, hsec⟩ := waits x (List.mem_singleton_self x)
    refine ⟨.inr ?_, List.subset_append_left _ _, x, true, rest, fun _ => by simp⟩
    have hq : (m.mutex.finish x).queue = m.queueLock.queue.filter (· ≠ x) :=
      QueueMutex.finish_queue h.lock.queue_nodup
    have hstep := QueueLock.Step.finish (s := m.queueLock) x hal (by rwa [sections_eq])
    rwa [← hq] at hstep
  | again rest =>
    cases done
    refine ⟨.inl ?_, List.Subset.refl _, x, true, rest, hf⟩
    have hq : (m.mutex.finish x).queue = m.mutex.queue.filter (· ≠ x) :=
      QueueMutex.finish_queue h.lock.queue_nodup
    have hx : x ∉ m.mutex.queue := h.lock.not_mem_of_finished (hf rfl)
    rw [List.filter_eq_self.2 fun y hy => by simpa using fun he : y = x => hx (he ▸ hy)] at hq
    show ({ m.queueLock with queue := (m.mutex.finish x).queue } : QueueLock.State ExecId) = _
    rw [hq]
    rfl
  | append out rest =>
    cases done
    exact ⟨.inl rfl, List.Subset.refl _, x, fin, rest, hf⟩
  | queueNew i own =>
    cases done
    exact ⟨.inl rfl, List.Subset.refl _, x, fin, .done, hf⟩
  | queueCancel i own =>
    cases done
    exact ⟨.inl rfl, List.Subset.refl _, x, fin, .done, hf⟩

theorem newUnitEffect {m1 : Market α} {e : Effect α} {es : List (Effect α)} (h : Serial m)
    (pc : m.newUnit = e :: es) (done : m.exec e = .ok m1) :
    (m1.queueLock = m.queueLock ∨ QueueLock.Step m.queueLock m1.queueLock) ∧
      m.finished ⊆ m1.finished ∧ Programmed m1.finished es := by
  obtain ⟨x, fin, hp, hf⟩ := h.newUnit
  rw [pc] at hp
  refine h.unitEffect hp hf (fun y hy => ?_) done
  rw [← pc] at hy
  exact ⟨h.allowed_of_placed (by simp [Market.placed, hy]), h.not_mem_sections (.inl hy)⟩

theorem cancelUnitEffect {m1 : Market α} {e : Effect α} {es : List (Effect α)} (h : Serial m)
    (pc : m.cancelUnit = .running (e :: es)) (done : m.exec e = .ok m1) :
    (m1.queueLock = m.queueLock ∨ QueueLock.Step m.queueLock m1.queueLock) ∧
      m.finished ⊆ m1.finished ∧ Programmed m1.finished es := by
  have hpr := h.cancelUnit
  rw [pc] at hpr
  obtain ⟨x, fin, hp, hf⟩ := hpr
  refine h.unitEffect hp hf (fun y hy => ?_) done
  have hy' : y ∈ m.cancelUnit.pending := by rwa [pc]
  exact ⟨h.allowed_of_placed (by simp [Market.placed, hy']), h.not_mem_sections (.inr hy')⟩

/-- The workers' books are all an `add` or a `cancel` changes. -/
theorem exec_book {m1 : Market α} {e : Effect α}
    (he : (∃ info, e = .add info) ∨ ∃ i, e = .cancel i) (done : m.exec e = .ok m1) :
    ∃ ob, m1 = { m with ob } := by
  rcases he with ⟨info, rfl⟩ | ⟨i, rfl⟩ <;> cases exec_sound done <;> exact ⟨_, rfl⟩

/-- Every step is one of the lock, or leaves it alone. -/
theorem queueLock_step (hb : Base m) (h : Serial m) (hs : Step m a m') :
    m'.queueLock = m.queueLock ∨ QueueLock.Step m.queueLock m'.queueLock := by
  have hb' := hb.step hs
  have alone := hb.alone
  cases hs with
  | session | newUnitPop | eventTake | eventPass | poolTake | poolDrop | poolReport => exact .inl rfl
  | routeNew i idle fresh | routeCancel i idle fresh =>
    left
    simp only [queueLock, allowed, idle]
    rfl
  | allow r pc =>
    right
    have hal : m.allowed = m.handed := by simp [allowed, pc]
    have hstep := QueueLock.Step.allow (s := m.queueLock) r.id (h.allowing r pc).2
    rw [show m.queueLock.allowed = m.handed from hal] at hstep
    exact hstep
  | handNew i pc | handCancel i pc =>
    left
    simp only [queueLock, allowed, pc, List.append_nil]
    rfl
  | newUnitEffect e es m1 pc done => exact (h.newUnitEffect pc done).1
  | newWorkerPop i rest info pc queue value =>
    left
    simp only [queueLock, holder, critical, pc]
    rfl
  | newWorkerLock i info pc can =>
    obtain ⟨front, free⟩ := QueueMutex.canLock_iff.1 can
    exact .inr (.lock i.executionId front (hb.holder_none free))
  | newWorkerCheck i info pc =>
    left
    simp only [queueLock, holder, critical, pc, NewWorkerPc.stage, NewOrder.stageOf_orderProcessing]
    rfl
  | newWorkerEffect e es m1 pc done =>
    obtain ⟨name, i, info, -, ⟨rfl, rfl, -⟩ | ⟨rfl, rfl, -⟩ | ⟨rfl, hes⟩ | ⟨r, -, rfl, rfl⟩⟩ :=
      hb.newWorker_next pc
    · cases done
      left
      simp only [queueLock, holder, critical, pc]
      rfl
    · obtain ⟨ob, rfl⟩ := exec_book (.inl ⟨info, rfl⟩) done
      left
      simp only [queueLock, holder, critical, pc]
      rfl
    · cases done
      right
      have hn : m.critical .newWorker = some i.executionId := by
        simp only [critical, pc]
        rfl
      have hc : held m.cancelWorker.stage = none := alone.resolve_left (by simp [hn])
      have hidle : held (NewWorkerPc.running es).stage = none := by
        rcases hes with rfl | ⟨r, -, rfl⟩ <;> rfl
      convert QueueLock.Step.unlock (s := m.queueLock) i.executionId (by simp [queueLock, holder, hn])
        using 1
      simp only [queueLock, holder, critical, hc, hidle, List.map_append]
      rfl
    · cases done
      left
      simp only [queueLock, holder, critical, pc]
      rfl
  | cancelUnitNoQuantity i rest pc input | cancelUnitUnknown i rest pc input
  | cancelUnitFound i rest pc input => exact .inl rfl
  | cancelUnitThrow | cancelUnitGone | cancelUnitOtherSide | cancelUnitVerified | cancelUnitAccept =>
    exact .inl rfl
  | cancelUnitEffect e es m1 pc done => exact (h.cancelUnitEffect pc done).1
  | cancelWorkerPop i rest pc queue =>
    left
    simp only [queueLock, holder, critical, pc]
    rfl
  | cancelWorkerLock i pc can =>
    obtain ⟨front, free⟩ := QueueMutex.canLock_iff.1 can
    have hn : held m.newWorker.stage = none :=
      (Option.or_eq_none_iff.1 (hb.holder_none free)).1
    have hstep := QueueLock.Step.lock (s := m.queueLock) i.executionId front (hb.holder_none free)
    right
    convert hstep using 1
    simp only [queueLock, holder, critical, hn]
    rfl
  | cancelWorkerCheck i qty v pc value check =>
    left
    simp only [queueLock, holder, critical, pc, CancelWorkerPc.stage,
      Cancel.stageOf_orderProcessing]
    rfl
  | cancelWorkerEffect e es m1 pc done =>
    have hunlock : ∀ i : Context (OrderCancelRequest α), e = .unlock i.executionId →
        held (CancelWorkerPc.running es).stage = none →
        QueueLock.Step m.queueLock ({ m1 with cancelWorker := .running es } : Market α).queueLock := by
      rintro i rfl hidle
      cases done
      have hc : m.critical .cancelWorker = some i.executionId := by
        simp only [critical, pc]
        rfl
      have hn : m.critical .newWorker = none := alone.resolve_right (by simp [hc])
      have hn' : held m.newWorker.stage = none := hn
      convert QueueLock.Step.unlock (s := m.queueLock) i.executionId
        (by simp [queueLock, holder, hn, hc]) using 1
      simp only [queueLock, holder, critical, hn', hidle, List.map_append]
      rfl
    obtain ⟨name, i, -, ⟨order, qty, rfl, rfl, -, -⟩ | ⟨order, rfl, rfl⟩ | ⟨order, rfl, rfl⟩ |
      ⟨orderId, reason, text, ⟨rfl, rfl⟩ | ⟨rfl, rfl⟩⟩⟩ := hb.cancelWorker_next pc
    · obtain ⟨ob, rfl⟩ := exec_book (.inr ⟨i, rfl⟩) done
      left
      simp only [queueLock, holder, critical, pc]
      rfl
    · exact .inr (hunlock i rfl rfl)
    · cases done
      left
      simp only [queueLock, holder, critical, pc]
      rfl
    · exact .inr (hunlock i rfl rfl)
    · cases done
      left
      simp only [queueLock, holder, critical, pc]
      rfl
  | newWorkerThrow | newWorkerFault => exact hb'.newWorker.elim
  | cancelWorkerThrow | cancelWorkerFault => exact hb'.cancelWorker.elim

/-- A unit's effect moves its request on, or drops it. -/
theorem unitEffect_placed {m1 : Market α} {x y : ExecId} {fin : Bool} {e : Effect α}
    {es : List (Effect α)} (hp : UnitProgram x fin (e :: es)) (done : m.exec e = .ok m1) :
    Frame m m1 ∧ m1.unlocked = m.unlocked ∧ m1.handed = m.handed ∧
      (pending es).count y + (m1.newQueue.map Context.executionId).count y +
          (m1.cancelQueue.map Context.executionId).count y ≤
        (pending (e :: es)).count y + (m.newQueue.map Context.executionId).count y +
          (m.cancelQueue.map Context.executionId).count y := by
  have hf := exec_frame done
  cases hp with
  | finish rest | again rest =>
    cases done
    refine ⟨hf, rfl, rfl, ?_⟩
    have := rest.count_pending y
    simpa [Effect.subject] using this
  | append out rest =>
    cases done
    exact ⟨hf, rfl, rfl, by simp [Effect.subject]⟩
  | queueNew i own | queueCancel i own =>
    cases done
    refine ⟨hf, rfl, rfl, ?_⟩
    simp only [pending_cons, pending_nil, Effect.subject, Option.elim_some, List.map_append,
      List.count_append, List.map_cons, List.map_nil, List.count_nil]
    omega

theorem placed_step (hb : Base m) (h : Serial m) (hs : Step m a m') (y : ExecId) :
    m'.placed.count y ≤ m'.handed.count y := by
  have hb' := hb.step hs
  have hc := h.placed y
  simp only [Market.placed, List.count_append] at hc ⊢
  cases hs with
  | session | routeNew | routeCancel | allow | eventTake | eventPass | poolTake | poolDrop
  | poolReport => exact hc
  | handNew i pc | handCancel i pc =>
    simp only [List.map_append, List.count_append, List.map_cons, List.map_nil]
    omega
  | newUnitPop i rest pc input =>
    have hp := (NewOrder.onInput_program i).count_pending y
    rw [pc, input] at hc
    simp only [List.map_cons, List.count_cons, List.count_nil, pending_nil] at hc hp ⊢
    omega
  | newUnitEffect e es m1 pc done =>
    obtain ⟨x, fin, hp, -⟩ := h.newUnit
    rw [pc] at hp
    obtain ⟨hf, hu, hh, hcount⟩ := unitEffect_placed (y := y) hp done
    simp only [hf.newWorker, hf.newInput, hf.cancelWorker, hf.cancelUnit, hf.cancelInput, hu, hh]
    rw [pc] at hc
    omega
  | newWorkerPop i rest info pc queue value =>
    rw [pc, queue] at hc
    simp only [NewWorkerPc.stage, stageOf, List.findSome?_nil, TicketLock.Worker.tickets,
      List.map_cons, List.count_cons, List.count_nil] at hc ⊢
    omega
  | newWorkerLock i info pc can =>
    rw [pc] at hc
    exact hc
  | newWorkerCheck i info pc =>
    rw [pc] at hc
    simp only [NewWorkerPc.stage, NewOrder.stageOf_orderProcessing] at hc ⊢
    exact hc
  | newWorkerEffect e es m1 pc done =>
    rw [pc] at hc
    obtain ⟨name, i, info, -, ⟨rfl, rfl, -⟩ | ⟨rfl, rfl, -⟩ | ⟨rfl, hes⟩ | ⟨r, -, rfl, rfl⟩⟩ :=
      hb.newWorker_next pc
    · cases done
      exact hc
    · obtain ⟨ob, rfl⟩ := exec_book (.inl ⟨info, rfl⟩) done
      exact hc
    · cases done
      have hidle : (NewWorkerPc.running es).stage = .idle := by
        rcases hes with rfl | ⟨r, -, rfl⟩ <;> rfl
      have hhold : (NewWorkerPc.running (Effect.unlock i.executionId :: es)).stage =
        .holding i.executionId := rfl
      rw [hhold] at hc
      rw [hidle]
      simp only [TicketLock.Worker.tickets, List.map_append, List.count_append, List.map_cons,
        List.map_nil, List.count_nil] at hc ⊢
      omega
    · cases done
      exact hc
  | cancelUnitNoQuantity i rest pc input | cancelUnitUnknown i rest pc input
  | cancelUnitFound i rest pc input | cancelUnitThrow i rest pc input =>
    rw [pc, input] at hc
    simp only [CancelUnitPc.pending, Cancel.noQuantity, Cancel.unknownOrder, Cancel.reject,
      pending_cons, pending_nil, Effect.subject, Option.elim_some, Option.elim_none, List.map_cons,
      List.count_cons, List.count_nil] at hc ⊢
    omega
  | cancelUnitGone i f pc =>
    rw [pc] at hc
    simp only [CancelUnitPc.pending, List.count_nil] at hc ⊢
    omega
  | cancelUnitOtherSide i order pc | cancelUnitVerified i order pc =>
    rw [pc] at hc
    exact hc
  | cancelUnitAccept i order busy pc =>
    rw [pc] at hc
    cases busy <;> exact hc
  | cancelUnitEffect e es m1 pc done =>
    have hpr := h.cancelUnit
    rw [pc] at hpr hc
    obtain ⟨x, fin, hp, -⟩ := hpr
    obtain ⟨hf, hu, hh, hcount⟩ := unitEffect_placed (y := y) hp done
    simp only [hf.newWorker, hf.newInput, hf.newUnit, hf.cancelWorker, hf.cancelInput, hu, hh,
      CancelUnitPc.pending] at hc ⊢
    omega
  | cancelWorkerPop i rest pc queue =>
    rw [pc, queue] at hc
    simp only [CancelWorkerPc.stage, stageOf, List.findSome?_nil, TicketLock.Worker.tickets,
      List.map_cons, List.count_cons, List.count_nil] at hc ⊢
    omega
  | cancelWorkerLock i pc can =>
    rw [pc] at hc
    exact hc
  | cancelWorkerCheck i qty v pc value check =>
    rw [pc] at hc
    simp only [CancelWorkerPc.stage, Cancel.stageOf_orderProcessing] at hc ⊢
    exact hc
  | cancelWorkerEffect e es m1 pc done =>
    rw [pc] at hc
    have hunlock : ∀ i : Context (OrderCancelRequest α), e = .unlock i.executionId →
        (CancelWorkerPc.running es).stage = .idle →
        ({ m1 with cancelWorker := .running es } : Market α).placed.count y ≤ m1.handed.count y := by
      rintro i rfl hidle
      cases done
      have hhold : (CancelWorkerPc.running (Effect.unlock i.executionId :: es)).stage =
        .holding i.executionId := rfl
      rw [hhold] at hc
      simp only [Market.placed, hidle, TicketLock.Worker.tickets, List.map_append,
        List.count_append, List.map_cons, List.map_nil, List.count_nil] at hc ⊢
      omega
    simp only [Market.placed, List.count_append] at hunlock
    obtain ⟨name, i, -, ⟨order, qty, rfl, rfl, -, -⟩ | ⟨order, rfl, rfl⟩ | ⟨order, rfl, rfl⟩ |
      ⟨orderId, reason, text, ⟨rfl, rfl⟩ | ⟨rfl, rfl⟩⟩⟩ := hb.cancelWorker_next pc
    · obtain ⟨ob, rfl⟩ := exec_book (.inr ⟨i, rfl⟩) done
      exact hc
    · exact hunlock i rfl rfl
    · cases done
      exact hc
    · exact hunlock i rfl rfl
    · cases done
      exact hc
  | newWorkerThrow | newWorkerFault => exact hb'.newWorker.elim
  | cancelWorkerThrow | cancelWorkerFault => exact hb'.cancelWorker.elim

theorem locked_step (hb : Base m) (h : Serial m) (hs : Step m a m') :
    m'.mutex.locked = true → m'.holder ≠ none := by
  have hb' := hb.step hs
  have hl := h.locked
  simp only [holder, critical] at hl ⊢
  cases hs with
  | session | routeNew | routeCancel | allow | handNew | handCancel | newUnitPop
  | cancelUnitNoQuantity | cancelUnitThrow | cancelUnitUnknown | cancelUnitFound | cancelUnitGone
  | cancelUnitOtherSide | cancelUnitVerified | cancelUnitAccept | eventTake | eventPass | poolTake
  | poolDrop | poolReport => exact hl
  | newUnitEffect e es m1 pc done =>
    rw [(exec_ofUnit (hb.newUnit e (by simp [pc])) done).2.1, (exec_frame done).newWorker,
      (exec_frame done).cancelWorker]
    exact hl
  | cancelUnitEffect e es m1 pc done =>
    have hok := hb.cancelUnit
    rw [pc] at hok
    rw [(exec_ofUnit (hok e (by simp)).1 done).2.1, (exec_frame done).newWorker,
      (exec_frame done).cancelWorker]
    exact hl
  | newWorkerPop i rest info pc queue value =>
    rw [pc] at hl
    exact hl
  | newWorkerLock i info pc can => exact fun _ hn => by cases hn
  | newWorkerCheck i info pc =>
    rw [pc] at hl
    simpa only [NewWorkerPc.stage, NewOrder.stageOf_orderProcessing] using hl
  | newWorkerEffect e es m1 pc done =>
    rw [pc] at hl
    obtain ⟨name, i, info, -, ⟨rfl, rfl, -⟩ | ⟨rfl, rfl, -⟩ | ⟨rfl, hes⟩ | ⟨r, -, rfl, rfl⟩⟩ :=
      hb.newWorker_next pc
    · cases done
      exact hl
    · obtain ⟨ob, rfl⟩ := exec_book (.inl ⟨info, rfl⟩) done
      exact hl
    · cases done
      intro h
      cases h
    · cases done
      exact hl
  | cancelWorkerPop i rest pc queue =>
    rw [pc] at hl
    exact hl
  | cancelWorkerLock i pc can => exact fun _ hn => by simp [CancelWorkerPc.stage, held] at hn
  | cancelWorkerCheck i qty v pc value check =>
    rw [pc] at hl
    simpa only [CancelWorkerPc.stage, Cancel.stageOf_orderProcessing] using hl
  | cancelWorkerEffect e es m1 pc done =>
    rw [pc] at hl
    obtain ⟨name, i, -, ⟨order, qty, rfl, rfl, -, -⟩ | ⟨order, rfl, rfl⟩ | ⟨order, rfl, rfl⟩ |
      ⟨orderId, reason, text, ⟨rfl, rfl⟩ | ⟨rfl, rfl⟩⟩⟩ := hb.cancelWorker_next pc
    · obtain ⟨ob, rfl⟩ := exec_book (.inr ⟨i, rfl⟩) done
      exact hl
    all_goals
      cases done
      first
        | exact hl
        | exact fun h => by cases h
  | newWorkerThrow | newWorkerFault => exact hb'.newWorker.elim
  | cancelWorkerThrow | cancelWorkerFault => exact hb'.cancelWorker.elim

theorem exec_records {m1 : Market α} {e : Effect α} (done : m.exec e = .ok m1) :
    m1.handed = m.handed ∧ m.finished ⊆ m1.finished := by
  cases exec_sound done with
  | finish id => exact ⟨rfl, List.subset_append_left _ _⟩
  | _ => exact ⟨rfl, List.Subset.refl _⟩

theorem routing_step (h : Serial m) (hs : Step m a m') :
    m'.allowed ⊆ m'.routedNew ++ m'.routedCancel ∧
      ∀ r, m'.router = .allowing r →
        r.id ∈ m'.routedNew ++ m'.routedCancel ∧ r.id ∉ m'.allowed := by
  have hr := h.routed
  have hal := h.allowing
  cases hs with
  | routeNew i idle fresh | routeCancel i idle fresh =>
    simp only [allowed, idle] at hr ⊢
    refine ⟨fun x hx => ?_, ?_⟩
    · have := hr hx
      simp only [List.mem_append, List.mem_singleton] at this ⊢
      tauto
    · rintro r ⟨⟩
      refine ⟨by simp [Request.id], fun hx => fresh (hr hx)⟩
  | allow r pc =>
    obtain ⟨hmem, -⟩ := hal r pc
    simp only [allowed, pc, List.append_nil] at hr ⊢
    exact ⟨List.append_subset.2 ⟨hr, by simpa using hmem⟩, fun r' h' => by cases h'⟩
  | handNew i pc | handCancel i pc =>
    simp only [allowed, pc, List.append_nil] at hr ⊢
    exact ⟨hr, fun r' h' => by cases h'⟩
  | newUnitEffect e es m1 pc done | newWorkerEffect e es m1 pc done
  | cancelUnitEffect e es m1 pc done | cancelWorkerEffect e es m1 pc done =>
    have hf := exec_frame done
    simp only [allowed, (exec_records done).1, hf.router, hf.routedNew, hf.routedCancel] at hr hal ⊢
    exact ⟨hr, hal⟩
  | _ => exact ⟨hr, hal⟩

theorem programs_step (h : Serial m) (hs : Step m a m') :
    Programmed m'.finished m'.newUnit ∧ m'.cancelUnit.Programmed m'.finished := by
  have hn := h.newUnit
  have hc := h.cancelUnit
  cases hs with
  | newUnitPop i rest pc input => exact ⟨.fresh (NewOrder.onInput_program i), hc⟩
  | newUnitEffect e es m1 pc done =>
    obtain ⟨-, hsub, hprog⟩ := h.newUnitEffect pc done
    have hf := exec_frame done
    simp only [hf.cancelUnit]
    exact ⟨hprog, hc.mono hsub⟩
  | newWorkerEffect e es m1 pc done | cancelWorkerEffect e es m1 pc done =>
    have hf := exec_frame done
    simp only [hf.newUnit, hf.cancelUnit]
    exact ⟨hn.mono (exec_records done).2, hc.mono (exec_records done).2⟩
  | cancelUnitNoQuantity i => exact ⟨hn, .fresh (.finish (.append _ .done))⟩
  | cancelUnitUnknown i | cancelUnitOtherSide i =>
    exact ⟨hn, .fresh (.append _ (.finish .done))⟩
  | cancelUnitThrow | cancelUnitFound | cancelUnitGone | cancelUnitVerified => exact ⟨hn, trivial⟩
  | cancelUnitAccept i order busy pc => exact ⟨hn, .fresh (Cancel.accept_program _ i order busy)⟩
  | cancelUnitEffect e es m1 pc done =>
    obtain ⟨-, hsub, hprog⟩ := h.cancelUnitEffect pc done
    have hf := exec_frame done
    simp only [hf.newUnit]
    exact ⟨hn.mono hsub, hprog⟩
  | _ => exact ⟨hn, hc⟩

theorem step (hb : Base m) (h : Serial m) (hs : Step m a m') : Serial m' where
  lock := (queueLock_step hb h hs).elim (fun he => he ▸ h.lock) h.lock.step
  locked := locked_step hb h hs
  routed := (routing_step h hs).1
  allowing := (routing_step h hs).2
  placed := placed_step hb h hs
  newUnit := (programs_step h hs).1
  cancelUnit := (programs_step h hs).2

end Serial

theorem serial_of_reachable {name : String} {m : Market α} (h : Reachable name m) : Serial m :=
  h.invariant_with (.new name) (fun _ hr => base_of_run hr) fun _ _ _ hI hb _ hs =>
    hI.step hb (step_sound hs)

/-! ## Waiting workers -/

namespace Serial

variable {m m' : Market α} {a : Action α} {id : ExecId}

theorem exec_finished {m1 : Market α} {e : Effect α} (done : m.exec e = .ok m1) :
    m1.finished = m.finished ∨ ∃ x, e = .finish x ∧ m1.finished = m.finished ++ [x] := by
  cases exec_sound done with
  | finish x => exact .inr ⟨x, rfl, rfl⟩
  | _ => exact .inl rfl

/-- A unit finishes the request it has in hand. -/
theorem finished_step (hb : Base m) (hs : Step m a m') (hid : id ∈ m'.finished) :
    id ∈ m.finished ∨ id ∈ pending m.newUnit ∨ id ∈ m.cancelUnit.pending := by
  have hunit : ∀ {m1 : Market α} {e : Effect α} {es : List (Effect α)}, m.exec e = .ok m1 →
      id ∈ m1.finished → id ∈ m.finished ∨ id ∈ pending (e :: es) := by
    intro m1 e es done hid
    rcases exec_finished done with hf | ⟨x, rfl, hf⟩
    · exact .inl (hf ▸ hid)
    · rw [hf] at hid
      simpa [Effect.subject] using hid
  cases hs with
  | newUnitEffect e es m1 pc done =>
    rw [pc]
    exact (hunit done hid).imp_right .inl
  | cancelUnitEffect e es m1 pc done =>
    rw [pc]
    exact (hunit done hid).imp_right .inr
  | newWorkerEffect e es m1 pc done =>
    rcases exec_finished done with hf | ⟨x, rfl, -⟩
    · exact .inl (hf ▸ hid)
    · exact (hb.newWorker_effect pc).elim
  | cancelWorkerEffect e es m1 pc done =>
    rcases exec_finished done with hf | ⟨x, rfl, -⟩
    · exact .inl (hf ▸ hid)
    · exact (hb.cancelWorker_effect pc).elim
  | _ => exact .inl hid

omit [Field α] in
/-- The request a worker waits with is nowhere else. -/
theorem waiting_alone (h : Serial m)
    (hw : m.newWorker.stage = .waiting id ∨ m.cancelWorker.stage = .waiting id) :
    id ∈ m.allowed ∧ id ∉ m.unlocked.map Unlock.worker ∧ m.holder ≠ some id ∧
      id ∉ pending m.newUnit ∧ id ∉ m.cancelUnit.pending := by
  have hc := h.placed_count id
  simp only [Market.placed, List.count_append] at hc
  have hmem : ∀ {w : TicketLock.Worker ExecId}, w = .waiting id → 0 < w.tickets.count id := by
    rintro w rfl
    simp [TicketLock.Worker.tickets]
  have hpos := hw.imp hmem hmem
  refine ⟨h.allowed_of_placed ?_, fun hx => ?_, fun hx => ?_, fun hx => ?_, fun hx => ?_⟩
  · rcases hw with hw | hw <;> simp [Market.placed, hw, TicketLock.Worker.tickets]
  · have := List.count_pos_iff.2 hx
    omega
  · simp only [holder, Option.or_eq_some_iff] at hx
    rcases hx with hx | ⟨-, hx⟩
    · have := List.count_pos_iff.2 (mem_tickets hx)
      rcases hw with hw | hw
      · simp [critical, hw, held] at hx
      · have := hmem hw
        omega
    · have := List.count_pos_iff.2 (mem_tickets hx)
      rcases hw with hw | hw
      · have := hmem hw
        omega
      · simp [critical, hw, held] at hx
  · have := List.count_pos_iff.2 hx
    omega
  · have := List.count_pos_iff.2 hx
    omega

/-- While a worker waits its ticket stays at the front. -/
theorem front_step (hb : Base m) (h : Serial m) (hs : Step m a m')
    (hw : m.newWorker.stage = .waiting id ∧ m'.newWorker = m.newWorker ∨
      m.cancelWorker.stage = .waiting id ∧ m'.cancelWorker = m.cancelWorker)
    (front : m.mutex.queue.head? = some id) : m'.mutex.queue.head? = some id := by
  have h' := h.step hb hs
  have hold := h.waiting_alone (hw.imp And.left And.left)
  have hw' : m'.newWorker.stage = .waiting id ∨ m'.cancelWorker.stage = .waiting id :=
    hw.imp (fun ⟨hw, he⟩ => by rw [he, hw]) fun ⟨hw, he⟩ => by rw [he, hw]
  have hnew := h'.waiting_alone hw'
  rcases queueLock_step hb h hs with he | hl
  · exact (congrArg (fun l => l.queue.head?) he).trans front
  · refine h.lock.front_stays hl front ?_ fun hf => ?_
    · simpa [queueLock, Function.comp_def] using hnew.2.1
    · rcases finished_step hb hs hf with hf | hf | hf
      · exact h.lock.not_mem_of_finished hf (List.mem_of_mem_head? front)
      · exact hold.2.2.2.1 hf
      · exact hold.2.2.2.2 hf

omit [Field α] in
/-- A waiting worker whose ticket is at the front finds the lock free. -/
theorem canLock (h : Serial m)
    (hw : m.newWorker.stage = .waiting id ∨ m.cancelWorker.stage = .waiting id)
    (front : m.mutex.queue.head? = some id) : m.mutex.canLock id = true := by
  refine QueueMutex.canLock_iff.2 ⟨front, Bool.eq_false_iff.2 fun hl => ?_⟩
  obtain ⟨x, hx⟩ := Option.ne_none_iff_exists'.1 (h.locked hl)
  have hxid : x = id := Option.some.inj ((h.lock.front x hx).symm.trans front)
  exact (h.waiting_alone hw).2.2.1 (hxid ▸ hx)

end Serial

theorem finished_mono {m m' : Market α} {a : Action α} (hs : Step m a m') :
    m.finished ⊆ m'.finished := by
  cases hs with
  | newUnitEffect e es m1 pc done | newWorkerEffect e es m1 pc done
  | cancelUnitEffect e es m1 pc done | cancelWorkerEffect e es m1 pc done =>
    exact (Serial.exec_records done).2
  | _ => exact List.Subset.refl _

end Market

end Fix42
