import Fix42.Market.Model

/-!
# What a step of the market can do

`Step m a m'` lists the ways action `a` can change a market, one constructor a branch of the step
function, and `step_sound` says that `Market.step` does nothing else. The invariants of the
market are proved by cases on `Step`.
-/

namespace Fix42

namespace Market

variable {α : Type*} [Field α] [LinearOrder α]

inductive Step (m : Market α) : Action α → Market α → Prop
  | session (clients : List Client) (userId : Client → UserId) :
      Step m (.session clients userId) { m with clients, userId }
  | routeNew (i : Context (NewOrderSingle α)) (idle : m.router = .idle)
      (fresh : i.executionId ∉ m.routedNew ++ m.routedCancel) :
      Step m (.route (.newOrder i))
        { m with router := .allowing (.newOrder i), routedNew := m.routedNew ++ [i.executionId] }
  | routeCancel (i : Context (OrderCancelRequest α)) (idle : m.router = .idle)
      (fresh : i.executionId ∉ m.routedNew ++ m.routedCancel) :
      Step m (.route (.cancel i))
        { m with router := .allowing (.cancel i), routedCancel := m.routedCancel ++ [i.executionId] }
  | allow {x t} (r : Request α) (pc : m.router = .allowing r) :
      Step m (.run .router x t) { m with router := .handing r, mutex := m.mutex.allow r.id }
  | handNew {x t} (i : Context (NewOrderSingle α)) (pc : m.router = .handing (.newOrder i)) :
      Step m (.run .router x t) { m with
        router := .idle, newInput := m.newInput ++ [i], handed := m.handed ++ [i.executionId] }
  | handCancel {x t} (i : Context (OrderCancelRequest α)) (pc : m.router = .handing (.cancel i)) :
      Step m (.run .router x t) { m with
        router := .idle, cancelInput := m.cancelInput ++ [i], handed := m.handed ++ [i.executionId] }
  | newUnitPop {x t} (i : Context (NewOrderSingle α)) (rest : List (Context (NewOrderSingle α)))
      (pc : m.newUnit = []) (input : m.newInput = i :: rest) :
      Step m (.run .newUnit x t) { m with newInput := rest, newUnit := NewOrder.onInput i }
  | newUnitEffect {x t} (e : Effect α) (es : List (Effect α)) (m' : Market α)
      (pc : m.newUnit = e :: es) (done : m.exec e = .ok m') :
      Step m (.run .newUnit x t) { m' with newUnit := es }
  | newWorkerPop {x t} (i : Context (NewOrderSingle α)) (rest : List (Context (NewOrderSingle α)))
      (info : OrderInfo α) (pc : m.newWorker = .running []) (queue : m.newQueue = i :: rest)
      (value : NewOrder.orderInfo (m.userId i.client) i = .ok info) :
      Step m (.run .newWorker x t) { m with newQueue := rest, newWorker := .waiting i info }
  | newWorkerThrow {x t} (i : Context (NewOrderSingle α)) (rest : List (Context (NewOrderSingle α)))
      (f : Fault) (pc : m.newWorker = .running []) (queue : m.newQueue = i :: rest)
      (value : NewOrder.orderInfo (m.userId i.client) i = .error f) :
      Step m (.run .newWorker x t) { m with newQueue := rest, newWorker := .dead }
  | newWorkerLock {x t} (i : Context (NewOrderSingle α)) (info : OrderInfo α)
      (pc : m.newWorker = .waiting i info) (can : m.mutex.canLock i.executionId = true) :
      Step m (.run .newWorker x t) { m with mutex := m.mutex.lock, newWorker := .checking i info }
  | newWorkerCheck {x t} (i : Context (NewOrderSingle α)) (info : OrderInfo α)
      (pc : m.newWorker = .checking i info) :
      Step m (.run .newWorker x t) { m with
        ob := (NewOrder.verdict m.ob info).2
        newWorker := .running
          (NewOrder.orderProcessing m.ob.name i info (NewOrder.verdict m.ob info).1) }
  | newWorkerEffect {x t} (e : Effect α) (es : List (Effect α)) (m' : Market α)
      (pc : m.newWorker = .running (e :: es)) (done : m.exec e = .ok m') :
      Step m (.run .newWorker x t) { m' with newWorker := .running es }
  | newWorkerFault {x t} (e : Effect α) (es : List (Effect α)) (f : Fault)
      (pc : m.newWorker = .running (e :: es)) (fault : m.exec e = .error f) :
      Step m (.run .newWorker x t) { m with newWorker := .dead }
  | cancelUnitNoQuantity {x t} (i : Context (OrderCancelRequest α))
      (rest : List (Context (OrderCancelRequest α))) (pc : m.cancelUnit = .running [])
      (input : m.cancelInput = i :: rest) (qty : i.message.orderQty = none) :
      Step m (.run .cancelUnit x t)
        { m with cancelInput := rest, cancelUnit := .running (Cancel.noQuantity i) }
  | cancelUnitThrow {x t} (i : Context (OrderCancelRequest α))
      (rest : List (Context (OrderCancelRequest α))) (pc : m.cancelUnit = .running [])
      (input : m.cancelInput = i :: rest) (qty : i.message.orderQty.isSome = true)
      (side : i.message.side.supported = false) :
      Step m (.run .cancelUnit x t) { m with cancelInput := rest, cancelUnit := .dead }
  | cancelUnitUnknown {x t} (i : Context (OrderCancelRequest α))
      (rest : List (Context (OrderCancelRequest α))) (pc : m.cancelUnit = .running [])
      (input : m.cancelInput = i :: rest) (qty : i.message.orderQty.isSome = true)
      (side : i.message.side.supported = true)
      (no : m.ob.hasSide i.message.origClOrdId i.message.side = false) :
      Step m (.run .cancelUnit x t)
        { m with cancelInput := rest, cancelUnit := .running (Cancel.unknownOrder i) }
  | cancelUnitFound {x t} (i : Context (OrderCancelRequest α))
      (rest : List (Context (OrderCancelRequest α))) (pc : m.cancelUnit = .running [])
      (input : m.cancelInput = i :: rest) (qty : i.message.orderQty.isSome = true)
      (side : i.message.side.supported = true)
      (has : m.ob.hasSide i.message.origClOrdId i.message.side = true) :
      Step m (.run .cancelUnit x t) { m with cancelInput := rest, cancelUnit := .found i }
  | cancelUnitGone {x t} (i : Context (OrderCancelRequest α)) (f : Fault)
      (pc : m.cancelUnit = .found i) (gone : m.ob.getOrder i.message.origClOrdId = .error f) :
      Step m (.run .cancelUnit x t) { m with cancelUnit := .dead }
  | cancelUnitOtherSide {x t} (i : Context (OrderCancelRequest α)) (order : Order α)
      (pc : m.cancelUnit = .found i) (get : m.ob.getOrder i.message.origClOrdId = .ok order)
      (side : order.side ≠ i.message.side) :
      Step m (.run .cancelUnit x t) { m with cancelUnit := .running (Cancel.otherSide i) }
  | cancelUnitVerified {x t} (i : Context (OrderCancelRequest α)) (order : Order α)
      (pc : m.cancelUnit = .found i) (get : m.ob.getOrder i.message.origClOrdId = .ok order)
      (side : order.side = i.message.side) :
      Step m (.run .cancelUnit x t) { m with cancelUnit := .verified i order }
  | cancelUnitAccept {x t} (i : Context (OrderCancelRequest α)) (order : Order α) (busy : Bool)
      (pc : m.cancelUnit = .verified i order)
      (waits : busy = (!m.cancelQueue.isEmpty || m.mutex.queue.head? ≠ some i.executionId)) :
      Step m (.run .cancelUnit x t)
        { m with cancelUnit := .running (Cancel.accept m.ob.name i order busy) }
  | cancelUnitEffect {x t} (e : Effect α) (es : List (Effect α)) (m' : Market α)
      (pc : m.cancelUnit = .running (e :: es)) (done : m.exec e = .ok m') :
      Step m (.run .cancelUnit x t) { m' with cancelUnit := .running es }
  | cancelWorkerPop {x t} (i : Context (OrderCancelRequest α))
      (rest : List (Context (OrderCancelRequest α))) (pc : m.cancelWorker = .running [])
      (queue : m.cancelQueue = i :: rest) :
      Step m (.run .cancelWorker x t) { m with cancelQueue := rest, cancelWorker := .waiting i }
  | cancelWorkerLock {x t} (i : Context (OrderCancelRequest α)) (pc : m.cancelWorker = .waiting i)
      (can : m.mutex.canLock i.executionId = true) :
      Step m (.run .cancelWorker x t) { m with mutex := m.mutex.lock, cancelWorker := .checking i }
  | cancelWorkerCheck {x t} (i : Context (OrderCancelRequest α)) (qty : α)
      (v : Cancel.Refusal ⊕ Order α) (pc : m.cancelWorker = .checking i)
      (value : i.message.orderQty = some qty)
      (check : Cancel.verifyOrderStateWithLock m.ob i.message.origClOrdId qty i.message.side =
        .ok v) :
      Step m (.run .cancelWorker x t)
        { m with cancelWorker := .running (Cancel.orderProcessing m.ob.name i v) }
  | cancelWorkerThrow {x t} (i : Context (OrderCancelRequest α)) (pc : m.cancelWorker = .checking i)
      (bad : ∀ qty, i.message.orderQty = some qty → ∃ f,
        Cancel.verifyOrderStateWithLock m.ob i.message.origClOrdId qty i.message.side = .error f) :
      Step m (.run .cancelWorker x t) { m with cancelWorker := .dead }
  | cancelWorkerEffect {x t} (e : Effect α) (es : List (Effect α)) (m' : Market α)
      (pc : m.cancelWorker = .running (e :: es)) (done : m.exec e = .ok m') :
      Step m (.run .cancelWorker x t) { m' with cancelWorker := .running es }
  | cancelWorkerFault {x t} (e : Effect α) (es : List (Effect α)) (f : Fault)
      (pc : m.cancelWorker = .running (e :: es)) (fault : m.exec e = .error f) :
      Step m (.run .cancelWorker x t) { m with cancelWorker := .dead }
  | eventTake {x t} (e : Event α) (rest : List (Event α)) (pc : m.eventUnit = none)
      (queue : m.ob.eventOutput = e :: rest) :
      Step m (.run .eventUnit x t)
        { m with ob := { m.ob with eventOutput := rest }, eventUnit := some e }
  | eventPass {x t} (e : Event α) (pc : m.eventUnit = some e) :
      Step m (.run .eventUnit x t) { m with eventUnit := none, poolQueue := m.poolQueue ++ [e] }
  | poolTake {x t} (e : Event α) (rest : List (Event α)) (pc : m.poolWorker = none)
      (queue : m.poolQueue = e :: rest) :
      Step m (.run .pool x t) { m with poolQueue := rest, poolWorker := some e }
  | poolDrop {x t} (e : Event α) (pc : m.poolWorker = some e)
      (gone : m.clients.find? (fun c => m.userId c = e.order.userId) = none) :
      Step m (.run .pool x t) { m with poolWorker := none }
  | poolReport {x t} (e : Event α) (client : Client) (pc : m.poolWorker = some e)
      (found : m.clients.find? (fun c => m.userId c = e.order.userId) = some client) :
      Step m (.run .pool x t) { m with
        poolWorker := none
        output := m.output ++ [OBEvent.createEvent m.ob.name client t x e] }

/-- What no effect changes. -/
structure Frame (m m' : Market α) : Prop where
  router : m'.router = m.router
  newInput : m'.newInput = m.newInput
  newUnit : m'.newUnit = m.newUnit
  newWorker : m'.newWorker = m.newWorker
  cancelInput : m'.cancelInput = m.cancelInput
  cancelUnit : m'.cancelUnit = m.cancelUnit
  cancelWorker : m'.cancelWorker = m.cancelWorker
  eventUnit : m'.eventUnit = m.eventUnit
  poolQueue : m'.poolQueue = m.poolQueue
  poolWorker : m'.poolWorker = m.poolWorker
  routedNew : m'.routedNew = m.routedNew
  routedCancel : m'.routedCancel = m.routedCancel

/-- What each effect does. -/
inductive Exec (m : Market α) : Effect α → Market α → Prop
  | finish (id : ExecId) :
      Exec m (.finish id) { m with mutex := m.mutex.finish id, finished := m.finished ++ [id] }
  | finishAgain (id : ExecId) : Exec m (.finishAgain id) { m with mutex := m.mutex.finish id }
  | unlock (id : ExecId) :
      Exec m (.unlock id) { m with
        mutex := m.mutex.unlock, unlocked := m.unlocked ++ [⟨id, m.mutex.queue.head?⟩] }
  | append (out : Output α) : Exec m (.append out) { m with output := m.output ++ [out] }
  | queueNew (i : Context (NewOrderSingle α)) :
      Exec m (.queueNew i)
        { m with newQueue := m.newQueue ++ [i], queued := m.queued ++ [i.executionId] }
  | queueCancel (i : Context (OrderCancelRequest α)) :
      Exec m (.queueCancel i)
        { m with cancelQueue := m.cancelQueue ++ [i], queued := m.queued ++ [i.executionId] }
  | add (info : OrderInfo α) (ob : OrderBook α) (added : m.ob.add info = .ok ob) :
      Exec m (.add info) { m with ob }
  | cancel (i : Context (OrderCancelRequest α)) (ob : OrderBook α)
      (cancelled : m.ob.cancel i.message.origClOrdId i.message.side = .ok ob) :
      Exec m (.cancel i) { m with ob }

theorem exec_sound {m m' : Market α} {e : Effect α} (done : m.exec e = .ok m') : Exec m e m' := by
  cases e with
  | add info =>
    rcases h : m.ob.add info with f | ob <;> simp only [exec, h, Except.map] at done <;> cases done
    exact .add info ob h
  | cancel i =>
    rcases h : m.ob.cancel i.message.origClOrdId i.message.side with f | ob <;>
      simp only [exec, h, Except.map] at done <;> cases done
    exact .cancel i ob h
  | _ =>
    cases done
    constructor

theorem exec_add {m : Market α} {info : OrderInfo α} {ob : OrderBook α}
    (added : m.ob.add info = .ok ob) : m.exec (.add info) = .ok { m with ob } := by
  simp [exec, added, Except.map]

theorem exec_cancel {m : Market α} {i : Context (OrderCancelRequest α)} {ob : OrderBook α}
    (cancelled : m.ob.cancel i.message.origClOrdId i.message.side = .ok ob) :
    m.exec (.cancel i) = .ok { m with ob } := by
  simp [exec, cancelled, Except.map]

theorem exec_frame {m m' : Market α} {e : Effect α} (done : m.exec e = .ok m') : Frame m m' := by
  cases exec_sound done <;> exact ⟨rfl, rfl, rfl, rfl, rfl, rfl, rfl, rfl, rfl, rfl, rfl, rfl⟩

/-- The effects on the book. -/
theorem exec_ob {m m' : Market α} {e : Effect α} (done : m.exec e = .ok m') :
    (∃ info, e = .add info ∧ m.ob.add info = .ok m'.ob) ∨
    (∃ i, e = .cancel i ∧ m.ob.cancel i.message.origClOrdId i.message.side = .ok m'.ob) ∨
    m'.ob = m.ob := by
  cases exec_sound done with
  | add info ob added => exact .inl ⟨info, rfl, added⟩
  | cancel i ob cancelled => exact .inr (.inl ⟨i, rfl, cancelled⟩)
  | _ => exact .inr (.inr rfl)

/-- The effects on the output queue. -/
theorem exec_output {m m' : Market α} {e : Effect α} (done : m.exec e = .ok m') :
    m'.output = m.output ∨ ∃ out, e = .append out ∧ m'.output = m.output ++ [out] := by
  cases exec_sound done with
  | append out => exact .inr ⟨out, rfl, rfl⟩
  | _ => exact .inl rfl

/-- A worker changes by its own steps only. -/
theorem Step.newWorker_eq {m m' : Market α} {a : Action α} (hs : Step m a m')
    (ha : ∀ x t, a ≠ .run .newWorker x t) : m'.newWorker = m.newWorker := by
  cases hs with
  | newWorkerPop | newWorkerThrow | newWorkerLock | newWorkerCheck | newWorkerEffect
  | newWorkerFault => exact absurd rfl (ha _ _)
  | newUnitEffect e es m1 pc done | cancelUnitEffect e es m1 pc done
  | cancelWorkerEffect e es m1 pc done => exact (exec_frame done).newWorker
  | _ => rfl

theorem Step.cancelWorker_eq {m m' : Market α} {a : Action α} (hs : Step m a m')
    (ha : ∀ x t, a ≠ .run .cancelWorker x t) : m'.cancelWorker = m.cancelWorker := by
  cases hs with
  | cancelWorkerPop | cancelWorkerThrow | cancelWorkerLock | cancelWorkerCheck
  | cancelWorkerEffect | cancelWorkerFault => exact absurd rfl (ha _ _)
  | newUnitEffect e es m1 pc done | cancelUnitEffect e es m1 pc done
  | newWorkerEffect e es m1 pc done => exact (exec_frame done).cancelWorker
  | _ => rfl

theorem routerStep_sound {m m' : Market α} {x : ExecId} {t : Int}
    (h : m.routerStep = some m') : Step m (.run .router x t) m' := by
  unfold routerStep at h
  split at h <;> cases h
  · rename_i r pc
    exact .allow r pc
  · rename_i i pc
    exact .handNew i pc
  · rename_i i pc
    exact .handCancel i pc

theorem newUnitStep_sound {m m' : Market α} {x : ExecId} {t : Int}
    (h : m.newUnitStep = some m') : Step m (.run .newUnit x t) m' := by
  unfold newUnitStep at h
  split at h
  · rename_i e es pc
    cases hx : m.exec e with
    | error f => simp [hx, Except.toOption] at h
    | ok m1 =>
      simp only [hx, Except.toOption, Option.map_some, Option.some.injEq] at h
      subst h
      exact .newUnitEffect e es m1 pc hx
  · rename_i pc
    split at h <;> cases h
    rename_i i rest input
    exact .newUnitPop i rest pc input

theorem newWorkerStep_sound {m m' : Market α} {x : ExecId} {t : Int}
    (h : m.newWorkerStep = some m') : Step m (.run .newWorker x t) m' := by
  unfold newWorkerStep at h
  split at h
  · cases h
  · rename_i e es pc
    split at h <;> cases h
    · rename_i m1 done
      exact .newWorkerEffect e es m1 pc done
    · rename_i f fault
      exact .newWorkerFault e es f pc fault
  · rename_i pc
    split at h
    · cases h
    · rename_i i rest queue
      split at h <;> cases h
      · rename_i info value
        exact .newWorkerPop i rest info pc queue value
      · rename_i f value
        exact .newWorkerThrow i rest f pc queue value
  · rename_i i info pc
    split at h <;> cases h
    rename_i can
    exact .newWorkerLock i info pc can
  · rename_i i info pc
    cases h
    exact .newWorkerCheck i info pc

theorem cancelUnitStep_sound {m m' : Market α} {x : ExecId} {t : Int}
    (h : m.cancelUnitStep = some m') : Step m (.run .cancelUnit x t) m' := by
  unfold cancelUnitStep at h
  split at h
  · cases h
  · rename_i e es pc
    cases hx : m.exec e with
    | error f => simp [hx, Except.toOption] at h
    | ok m1 =>
      simp only [hx, Except.toOption, Option.map_some, Option.some.injEq] at h
      subst h
      exact .cancelUnitEffect e es m1 pc hx
  · rename_i pc
    split at h
    · cases h
    · rename_i i rest input
      dsimp only at h
      split at h
      · rename_i qty
        cases h
        exact .cancelUnitNoQuantity i rest pc input (by simpa using qty)
      · rename_i qty
        have qty' : i.message.orderQty.isSome = true := by
          simpa [Option.isSome_iff_ne_none] using qty
        split at h
        · rename_i side
          cases h
          exact .cancelUnitThrow i rest pc input qty' (by simpa using side)
        · rename_i side
          have side' : i.message.side.supported = true := by simpa using side
          split at h
          · rename_i no
            cases h
            exact .cancelUnitUnknown i rest pc input qty' side' (by simpa using no)
          · rename_i has
            cases h
            exact .cancelUnitFound i rest pc input qty' side' (by simpa using has)
  · rename_i i pc
    split at h
    · rename_i f gone
      cases h
      exact .cancelUnitGone i f pc gone
    · rename_i order get
      split at h <;> cases h
      · rename_i side
        exact .cancelUnitOtherSide i order pc get side
      · rename_i side
        exact .cancelUnitVerified i order pc get (not_not.1 side)
  · rename_i i order pc
    cases h
    exact .cancelUnitAccept i order _ pc rfl

theorem cancelWorkerStep_sound {m m' : Market α} {x : ExecId} {t : Int}
    (h : m.cancelWorkerStep = some m') : Step m (.run .cancelWorker x t) m' := by
  unfold cancelWorkerStep at h
  split at h
  · cases h
  · rename_i e es pc
    split at h <;> cases h
    · rename_i m1 done
      exact .cancelWorkerEffect e es m1 pc done
    · rename_i f fault
      exact .cancelWorkerFault e es f pc fault
  · rename_i pc
    split at h <;> cases h
    rename_i i rest queue
    exact .cancelWorkerPop i rest pc queue
  · rename_i i pc
    split at h <;> cases h
    rename_i can
    exact .cancelWorkerLock i pc can
  · rename_i i pc
    split at h
    · rename_i none'
      cases h
      exact .cancelWorkerThrow i pc fun qty hq => by simp [none'] at hq
    · rename_i qty value
      split at h <;> cases h
      · rename_i f check
        refine .cancelWorkerThrow i pc fun qty' hq => ⟨f, ?_⟩
        rw [value, Option.some.injEq] at hq
        exact hq ▸ check
      · rename_i v check
        exact .cancelWorkerCheck i qty v pc value check

theorem eventUnitStep_sound {m m' : Market α} {x : ExecId} {t : Int}
    (h : m.eventUnitStep = some m') : Step m (.run .eventUnit x t) m' := by
  unfold eventUnitStep at h
  split at h
  · rename_i e pc
    cases h
    exact .eventPass e pc
  · rename_i pc
    split at h <;> cases h
    rename_i e rest queue
    exact .eventTake e rest pc queue

theorem poolStep_sound {m m' : Market α} {execId : ExecId} {now : Int}
    (h : m.poolStep execId now = some m') : Step m (.run .pool execId now) m' := by
  unfold poolStep at h
  split at h
  · rename_i e pc
    split at h <;> cases h
    · rename_i gone
      exact .poolDrop e pc gone
    · rename_i client found
      exact .poolReport e client pc found
  · rename_i pc
    split at h <;> cases h
    rename_i e rest queue
    exact .poolTake e rest pc queue

theorem step_sound {m m' : Market α} {a : Action α} (h : m.step a = some m') : Step m a m' := by
  unfold step at h
  split at h
  · cases h
    exact .session _ _
  · split at h
    · rename_i idle
      split at h
      · cases h
      · rename_i r fresh
        split at h <;> cases h
        · rename_i i
          exact .routeNew i idle fresh
        · rename_i i
          exact .routeCancel i idle fresh
    · cases h
  · exact routerStep_sound h
  · exact newUnitStep_sound h
  · exact newWorkerStep_sound h
  · exact cancelUnitStep_sound h
  · exact cancelWorkerStep_sound h
  · exact eventUnitStep_sound h
  · exact poolStep_sound h

end Market

end Fix42
