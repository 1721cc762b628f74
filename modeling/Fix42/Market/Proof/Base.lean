import Fix42.Book.Proof.Rep
import Fix42.Market.Proof.Step

/-!
# The critical sections of a market

`Base m`: the book is indexed, the workers hold the lock one at a time, and what a thread has still
to do is a rest of its unit's program, with the facts its checks established. It holds of every
reachable market (`base_of_run`); in particular neither worker ever throws.
-/

namespace Fix42

open Relation

variable {α : Type*}

/-! ## What is still to do -/

/-- `NewOrder::onInput` queues only requests with a price, a quantity and a traded side. -/
structure NewOrder.Queueable (i : Context (NewOrderSingle α)) : Prop where
  price : i.message.price.isSome = true
  orderQty : i.message.orderQty.isSome = true
  side : i.message.side.supported = true

structure Cancel.Queueable (i : Context (OrderCancelRequest α)) : Prop where
  orderQty : i.message.orderQty.isSome = true
  side : i.message.side.supported = true

/-- The effects `onInput` of a unit can have, with reports as `p` says. -/
def Effect.OfUnit (p : Output α → Prop) : Effect α → Prop
  | .finish _ | .finishAgain _ => True
  | .append out => p out
  | .queueNew i => NewOrder.Queueable i
  | .queueCancel i => Cancel.Queueable i
  | .unlock _ | .add _ | .cancel _ => False

/-- A reject is about no order. -/
def Output.IsReject (out : Output α) : Prop := out.about = none

/-- The Cancel unit rejects, or reports an order as pending. -/
def Output.OfCancelUnit (out : Output α) : Prop :=
  out.IsReject ∨ ∃ r, out.report = .execution r ∧ r.execType = .pendingCancel

/-- The effects the NewOrder worker can have. -/
def Effect.OfNewWorker : Effect α → Prop
  | .append _ | .add _ | .unlock _ => True
  | _ => False

def Effect.OfCancelWorker : Effect α → Prop
  | .append _ | .cancel _ | .unlock _ => True
  | _ => False

def Effect.isUnlock : Effect α → Bool
  | .unlock _ => true
  | _ => false

theorem NewOrder.onInput_ofUnit (i : Context (NewOrderSingle α)) :
    ∀ e ∈ NewOrder.onInput i, e.OfUnit Output.IsReject := by
  unfold NewOrder.onInput
  by_cases hp : i.message.price.isNone = true
  · simp [hp, Effect.OfUnit, NewOrder.reject, businessReject, Output.IsReject]
  by_cases hq : i.message.orderQty.isNone = true
  · simp [hp, hq, Effect.OfUnit, NewOrder.reject, businessReject, Output.IsReject]
  have hi : i.message.side.supported = true → NewOrder.Queueable i := fun hs =>
    ⟨by simpa [Option.isSome_iff_ne_none] using hp, by simpa [Option.isSome_iff_ne_none] using hq, hs⟩
  simp only [hp, hq, Bool.false_eq_true, if_false]
  split <;> split <;> rename_i hs <;>
    simp [Effect.OfUnit, NewOrder.notSupportedSide, NewOrder.notSupportedOrderType, NewOrder.reject,
      businessReject, Output.IsReject]
  · exact hi hs
  · exact hi hs

section
variable [Field α] [LinearOrder α]

/-- `info` is what the NewOrder worker builds from request `i`. -/
def NewOrder.Built (i : Context (NewOrderSingle α)) (info : OrderInfo α) : Prop :=
  i.message.side.supported = true ∧ ∃ userId, NewOrder.orderInfo userId i = .ok info

omit [LinearOrder α] in
theorem NewOrder.Built.eq {i : Context (NewOrderSingle α)} {info : OrderInfo α}
    (h : NewOrder.Built i info) : i.message.side.supported = true ∧ ∃ userId price qty,
      i.message.orderQty = some qty ∧
      info = newOrderInfo userId i.executionId i.message.clOrdId price qty i.message.side := by
  obtain ⟨hs, userId, h⟩ := h
  unfold NewOrder.orderInfo at h
  split at h
  · rename_i price qty _ hqty
    cases h
    exact ⟨hs, userId, price, qty, hqty, rfl⟩
  · cases h

def NewWorkerPc.critical : NewWorkerPc α → Bool
  | .checking _ _ => true
  | .running es => es.any Effect.isUnlock
  | _ => false

def CancelWorkerPc.critical : CancelWorkerPc α → Bool
  | .checking _ => true
  | .running es => es.any Effect.isUnlock
  | _ => false

/-- What the NewOrder worker may have to do. An order to be added has an id the book does not have. -/
def NewWorkerPc.Ok (ob : OrderBook α) : NewWorkerPc α → Prop
  | .dead => False
  | .waiting i info | .checking i info => NewOrder.Built i info
  | .running es => es = [] ∨ ∃ name i info v, NewOrder.Built i info ∧
      es <:+ NewOrder.orderProcessing name i info v ∧
      (.add info ∈ es → ob.has info.order.orderId = false)

def CancelUnitPc.Ok : CancelUnitPc α → Prop
  | .dead => True
  | .running es => ∀ e ∈ es, e.OfUnit Output.OfCancelUnit ∧ ∀ i, e ≠ .queueNew i
  | .found i | .verified i _ => Cancel.Queueable i

/-- What the Cancel worker may have to do. An order to be cancelled is still the one it checked. -/
def CancelWorkerPc.Ok (ob : OrderBook α) : CancelWorkerPc α → Prop
  | .dead => False
  | .waiting i | .checking i => Cancel.Queueable i
  | .running es => es = [] ∨ ∃ name i v, Cancel.Queueable i ∧
      es <:+ Cancel.orderProcessing name i v ∧
      (.cancel i ∈ es → ∃ qty order, i.message.orderQty = some qty ∧ v = .inr order ∧
        Cancel.verifyOrderStateWithLock ob i.message.origClOrdId qty i.message.side =
          .ok (.inr order))

/-! ## Rests of a worker's program -/

omit [LinearOrder α] in
/-- The next effect of the NewOrder worker. -/
theorem NewOrder.next_cases {name : String} {i : Context (NewOrderSingle α)} {info : OrderInfo α}
    {v : Verdict} {e : Effect α} {es : List (Effect α)}
    (h : e :: es <:+ NewOrder.orderProcessing name i info v) :
    (v = .accepted ∧ e = .append (NewOrder.acknowledgement name i info) ∧
      es = [.add info, .unlock i.executionId]) ∨
    (v = .accepted ∧ e = .add info ∧ es = [.unlock i.executionId]) ∨
    (e = .unlock i.executionId ∧ (es = [] ∨ ∃ r : ExecutionReport α, r.execType = .rejected ∧
      es = [.append (NewOrder.answer i info r)])) ∨
    ∃ r : ExecutionReport α, r.execType = .rejected ∧ e = .append (NewOrder.answer i info r) ∧
      es = [] := by
  cases v <;> simp only [NewOrder.orderProcessing, List.suffix_cons_iff, List.cons.injEq,
    List.suffix_nil, reduceCtorEq, or_false] at h
  · rcases h with ⟨rfl, rfl⟩ | ⟨rfl, rfl⟩
    · exact .inr (.inr (.inl ⟨rfl, .inr ⟨_, rfl, rfl⟩⟩))
    · exact .inr (.inr (.inr ⟨_, rfl, rfl, rfl⟩))
  · rcases h with ⟨rfl, rfl⟩ | ⟨rfl, rfl⟩ | ⟨rfl, rfl⟩
    · exact .inl ⟨rfl, rfl, rfl⟩
    · exact .inr (.inl ⟨rfl, rfl, rfl⟩)
    · exact .inr (.inr (.inl ⟨rfl, .inl rfl⟩))
  · rcases h with ⟨rfl, rfl⟩ | ⟨rfl, rfl⟩
    · exact .inr (.inr (.inl ⟨rfl, .inr ⟨_, rfl, rfl⟩⟩))
    · exact .inr (.inr (.inr ⟨_, rfl, rfl, rfl⟩))

omit [LinearOrder α] in
/-- The next effect of the Cancel worker. -/
theorem Cancel.next_cases {name : String} {i : Context (OrderCancelRequest α)}
    {v : Cancel.Refusal ⊕ Order α} {e : Effect α} {es : List (Effect α)}
    (h : e :: es <:+ Cancel.orderProcessing name i v) :
    (∃ order, v = .inr order ∧
      ((e = .cancel i ∧ es = [.unlock i.executionId, .append (Cancel.canceled name i order)]) ∨
      (e = .unlock i.executionId ∧ es = [.append (Cancel.canceled name i order)]) ∨
      (e = .append (Cancel.canceled name i order) ∧ es = []))) ∨
    ∃ r, v = .inl r ∧ ∃ orderId reason text,
      (e = .unlock i.executionId ∧ es = [Cancel.reject i orderId reason text]) ∨
      (e = Cancel.reject i orderId reason text ∧ es = []) := by
  rcases v with (_ | _) | order <;> simp only [Cancel.orderProcessing, List.suffix_cons_iff,
    List.cons.injEq, List.suffix_nil, reduceCtorEq, or_false] at h
  · exact .inr ⟨_, rfl, _, _, _, h⟩
  · exact .inr ⟨_, rfl, _, _, _, h⟩
  · exact .inl ⟨order, rfl, h⟩

/-! ## The invariant -/

namespace Market

/-- The base invariant (module doc). -/
structure Base (m : Market α) : Prop where
  rep : RepInv m.ob
  newUnit : ∀ e ∈ m.newUnit, e.OfUnit Output.IsReject
  newQueue : ∀ i ∈ m.newQueue, NewOrder.Queueable i
  newWorker : m.newWorker.Ok m.ob
  cancelUnit : m.cancelUnit.Ok
  cancelQueue : ∀ i ∈ m.cancelQueue, Cancel.Queueable i
  cancelWorker : m.cancelWorker.Ok m.ob
  exclusive : m.newWorker.critical = true → m.cancelWorker.critical = false
  locked : m.newWorker.critical = true ∨ m.cancelWorker.critical = true → m.mutex.locked = true

theorem Base.new (name : String) : Base (Market.new name : Market α) where
  rep := .new name
  newUnit e he := by cases he
  newQueue i hi := by cases hi
  newWorker := .inl rfl
  cancelUnit e he := by cases he
  cancelQueue i hi := by cases hi
  cancelWorker := .inl rfl
  exclusive h := by cases h
  locked h := by rcases h with h | h <;> cases h

/-- A unit's effect does not fail. -/
theorem exec_ofUnit_ok {m : Market α} {p : Output α → Prop} {e : Effect α} (he : e.OfUnit p) :
    ∃ m', m.exec e = .ok m' := by
  cases e with
  | unlock | add | cancel => cases he
  | _ => exact ⟨_, rfl⟩

/-- What a unit's effect leaves alone. -/
theorem exec_ofUnit {m m' : Market α} {p : Output α → Prop} {e : Effect α} (he : e.OfUnit p)
    (done : m.exec e = .ok m') : m'.ob = m.ob ∧ m'.mutex.locked = m.mutex.locked ∧
    (∀ i ∈ m'.newQueue, i ∈ m.newQueue ∨ NewOrder.Queueable i) ∧
    (∀ i ∈ m'.cancelQueue, i ∈ m.cancelQueue ∨ Cancel.Queueable i) := by
  cases exec_sound done with
  | finish id | finishAgain id | append out =>
    exact ⟨rfl, rfl, fun i hi => .inl hi, fun i hi => .inl hi⟩
  | queueNew i =>
    refine ⟨rfl, rfl, fun j hj => ?_, fun i hi => .inl hi⟩
    rcases List.mem_append.1 hj with hj | hj
    · exact .inl hj
    · rw [List.mem_singleton.1 hj]
      exact .inr he
  | queueCancel i =>
    refine ⟨rfl, rfl, fun i hi => .inl hi, fun j hj => ?_⟩
    rcases List.mem_append.1 hj with hj | hj
    · exact .inl hj
    · rw [List.mem_singleton.1 hj]
      exact .inr he
  | unlock | add | cancel => cases he

theorem Base.unitEffect {m m' : Market α} {p : Output α → Prop} {e : Effect α} (h : Base m)
    (he : e.OfUnit p) (done : m.exec e = .ok m') : Base m' := by
  obtain ⟨hob, hlock, hnq, hcq⟩ := exec_ofUnit he done
  have hf := exec_frame done
  refine ⟨hob ▸ h.rep, hf.newUnit ▸ h.newUnit, fun i hi => (hnq i hi).elim (h.newQueue i) id,
    by rw [hob, hf.newWorker]; exact h.newWorker, hf.cancelUnit ▸ h.cancelUnit,
    fun i hi => (hcq i hi).elim (h.cancelQueue i) id,
    by rw [hob, hf.cancelWorker]; exact h.cancelWorker, ?_, ?_⟩
  · rw [hf.newWorker, hf.cancelWorker]
    exact h.exclusive
  · rw [hf.newWorker, hf.cancelWorker, hlock]
    exact h.locked

/-! ## Steps of the workers -/

/-- A worker outside its critical section has no check to keep. -/
theorem newWorker_ok_of_not_critical {w : NewWorkerPc α} {ob ob' : OrderBook α} (h : w.Ok ob)
    (hc : w.critical = false) : w.Ok ob' := by
  cases w with
  | dead | waiting | checking => exact h
  | running es =>
    rcases h with rfl | ⟨name, i, info, v, hb, hes, -⟩
    · exact .inl rfl
    · refine .inr ⟨name, i, info, v, hb, hes, fun hadd => ?_⟩
      cases es with
      | nil => cases hadd
      | cons e es =>
        rcases NewOrder.next_cases hes with ⟨-, rfl, rfl⟩ | ⟨-, rfl, rfl⟩ | ⟨rfl, -⟩ | ⟨r, -, rfl, rfl⟩
        · simp [NewWorkerPc.critical, Effect.isUnlock] at hc
        · simp [NewWorkerPc.critical, Effect.isUnlock] at hc
        · simp [NewWorkerPc.critical, Effect.isUnlock] at hc
        · simp at hadd

theorem cancelWorker_ok_of_not_critical {w : CancelWorkerPc α} {ob ob' : OrderBook α} (h : w.Ok ob)
    (hc : w.critical = false) : w.Ok ob' := by
  cases w with
  | dead | waiting | checking => exact h
  | running es =>
    rcases h with rfl | ⟨name, i, v, hq, hes, -⟩
    · exact .inl rfl
    · refine .inr ⟨name, i, v, hq, hes, fun hcan => ?_⟩
      cases es with
      | nil => cases hcan
      | cons e es =>
        rcases Cancel.next_cases hes with ⟨order, -, ⟨rfl, rfl⟩ | ⟨rfl, rfl⟩ | ⟨rfl, rfl⟩⟩ |
          ⟨r, -, orderId, reason, text, ⟨rfl, rfl⟩ | ⟨rfl, rfl⟩⟩
        · simp [CancelWorkerPc.critical, Effect.isUnlock] at hc
        · simp [CancelWorkerPc.critical, Effect.isUnlock] at hc
        · simp at hcan
        · simp [CancelWorkerPc.critical, Effect.isUnlock] at hc
        · simp [Cancel.reject] at hcan

/-- The NewOrder worker's next effect, with what is still to do after it. -/
theorem Base.newWorker_next {m : Market α} (h : Base m) {e : Effect α} {es : List (Effect α)}
    (pc : m.newWorker = .running (e :: es)) : ∃ name i info, NewOrder.Built i info ∧
    ((e = .append (NewOrder.acknowledgement name i info) ∧
      es = [.add info, .unlock i.executionId] ∧ m.ob.has info.order.orderId = false) ∨
    (e = .add info ∧ es = [.unlock i.executionId] ∧ m.ob.has info.order.orderId = false) ∨
    (e = .unlock i.executionId ∧ (es = [] ∨ ∃ r : ExecutionReport α, r.execType = .rejected ∧
      es = [.append (NewOrder.answer i info r)])) ∨
    ∃ r : ExecutionReport α, r.execType = .rejected ∧ e = .append (NewOrder.answer i info r) ∧
      es = []) := by
  have hok := h.newWorker
  rw [pc] at hok
  rcases hok with he | ⟨name, i, info, v, hb, hes, hadd⟩
  · cases he
  · refine ⟨name, i, info, hb, ?_⟩
    rcases NewOrder.next_cases hes with ⟨-, rfl, rfl⟩ | ⟨-, rfl, rfl⟩ | hu | hr
    · exact .inl ⟨rfl, rfl, hadd (by simp)⟩
    · exact .inr (.inl ⟨rfl, rfl, hadd (by simp)⟩)
    · exact .inr (.inr (.inl hu))
    · exact .inr (.inr (.inr hr))

/-- The order a worker built can be added under an id the book does not have. -/
theorem Base.add {m : Market α} (h : Base m) {i : Context (NewOrderSingle α)} {info : OrderInfo α}
    (hb : NewOrder.Built i info) (hid : m.ob.has info.order.orderId = false) :
    ∃ ob', m.ob.add info = .ok ob' ∧ RepInv ob' := by
  obtain ⟨hs, userId, price, qty, -, rfl⟩ := hb.eq
  exact h.rep.add hid hs rfl

/-- What the NewOrder worker is about to add is the order of its request, under an id that is free. -/
theorem Base.next_add {m : Market α} (h : Base m) {info : OrderInfo α} {es : List (Effect α)}
    (pc : m.newWorker = .running (.add info :: es)) :
    es = [.unlock info.order.submission] ∧ info.order.side.supported = true ∧
      info.order.remainQty = info.order.originalQty ∧ m.ob.has info.order.orderId = false := by
  obtain ⟨name, i, info', hbuilt, ⟨he, -⟩ | ⟨he, hes, hid⟩ | ⟨he, -⟩ | ⟨r, -, he, -⟩⟩ :=
    h.newWorker_next pc <;> cases he
  obtain ⟨hside, userId, price, qty, -, rfl⟩ := hbuilt.eq
  exact ⟨hes, hside, rfl, hid⟩

theorem Base.newWorker_effect {m : Market α} (h : Base m) {e : Effect α} {es : List (Effect α)}
    (pc : m.newWorker = .running (e :: es)) : e.OfNewWorker := by
  obtain ⟨name, i, info, -, ⟨rfl, -⟩ | ⟨rfl, -⟩ | ⟨rfl, -⟩ | ⟨r, -, rfl, -⟩⟩ :=
    h.newWorker_next pc <;> trivial

theorem Base.newWorker_exec {m : Market α} (h : Base m) {e : Effect α} {es : List (Effect α)}
    (pc : m.newWorker = .running (e :: es)) : ∃ m', m.exec e = .ok m' := by
  obtain ⟨name, i, info, hb, ⟨rfl, -⟩ | ⟨rfl, -, hid⟩ | ⟨rfl, -⟩ | ⟨r, -, rfl, -⟩⟩ :=
    h.newWorker_next pc
  · exact ⟨_, rfl⟩
  · obtain ⟨ob', hok, -⟩ := h.add hb hid
    exact ⟨_, exec_add hok⟩
  · exact ⟨_, rfl⟩
  · exact ⟨_, rfl⟩

theorem Base.newWorkerEffect {m m' : Market α} (h : Base m) {e : Effect α} {es : List (Effect α)}
    (pc : m.newWorker = .running (e :: es)) (done : m.exec e = .ok m') :
    Base { m' with newWorker := .running es } := by
  have hexc := h.exclusive
  have hlock := h.locked
  obtain ⟨name, i, info, hb, ⟨rfl, rfl, hid⟩ | ⟨rfl, rfl, hid⟩ | ⟨rfl, hes⟩ | ⟨r, -, rfl, rfl⟩⟩ :=
    h.newWorker_next pc
  · cases done
    have hcrit : m.newWorker.critical = true := by
      simp [pc, NewWorkerPc.critical, Effect.isUnlock]
    refine { h with
      newWorker := ?_, exclusive := fun _ => hexc hcrit, locked := fun _ => hlock (.inl hcrit) }
    exact .inr ⟨name, i, info, .accepted, hb, List.suffix_cons _ _, fun _ => hid⟩
  · obtain ⟨ob', hok, hrep⟩ := h.add hb hid
    rw [exec_add hok] at done
    cases done
    have hcrit : m.newWorker.critical = true := by
      simp [pc, NewWorkerPc.critical, Effect.isUnlock]
    refine { h with
      rep := hrep, newWorker := ?_,
      cancelWorker := cancelWorker_ok_of_not_critical h.cancelWorker (hexc hcrit)
      exclusive := fun _ => hexc hcrit
      locked := fun _ => hlock (.inl hcrit) }
    exact .inr ⟨name, i, info, .accepted, hb, ⟨[_, _], rfl⟩, by simp⟩
  · cases done
    have hcrit : m.newWorker.critical = true := by
      simp [pc, NewWorkerPc.critical, Effect.isUnlock]
    have hrest : (NewWorkerPc.running es).critical = false ∧ (NewWorkerPc.running es).Ok m.ob := by
      have hok := h.newWorker
      rw [pc] at hok
      rcases hes with rfl | ⟨r, -, rfl⟩
      · exact ⟨rfl, .inl rfl⟩
      · rcases hok with he | ⟨name, i, info, v, hb, hes, -⟩
        · cases he
        · exact ⟨rfl, .inr ⟨name, i, info, v, hb, (List.suffix_cons _ _).trans hes, by simp⟩⟩
    refine { h with
      newWorker := hrest.2
      exclusive := fun hc => by simp [hrest.1] at hc
      locked := fun hc => ?_ }
    have := hexc hcrit
    simp only [hrest.1, Bool.false_eq_true, false_or] at hc
    simp [hc] at this
  · cases done
    have hnew : (NewWorkerPc.running (α := α) []).critical = false := rfl
    refine { h with
      newWorker := .inl rfl
      exclusive := fun hc => by simp [hnew] at hc
      locked := fun hc => hlock (.inr ?_) }
    simpa [hnew] using hc

/-- The Cancel worker's next effect, with what is still to do after it. -/
theorem Base.cancelWorker_next {m : Market α} (h : Base m) {e : Effect α} {es : List (Effect α)}
    (pc : m.cancelWorker = .running (e :: es)) : ∃ name i, Cancel.Queueable i ∧
    ((∃ order qty, e = .cancel i ∧
      es = [.unlock i.executionId, .append (Cancel.canceled name i order)] ∧
      i.message.orderQty = some qty ∧
      Cancel.verifyOrderStateWithLock m.ob i.message.origClOrdId qty i.message.side =
        .ok (.inr order)) ∨
    (∃ order, e = .unlock i.executionId ∧ es = [.append (Cancel.canceled name i order)]) ∨
    (∃ order, e = .append (Cancel.canceled name i order) ∧ es = []) ∨
    ∃ orderId reason text,
      (e = .unlock i.executionId ∧ es = [Cancel.reject i orderId reason text]) ∨
      (e = Cancel.reject i orderId reason text ∧ es = [])) := by
  have hok := h.cancelWorker
  rw [pc] at hok
  rcases hok with he | ⟨name, i, v, hq, hes, hcan⟩
  · cases he
  · refine ⟨name, i, hq, ?_⟩
    rcases Cancel.next_cases hes with ⟨order, rfl, ⟨rfl, rfl⟩ | ⟨rfl, rfl⟩ | ⟨rfl, rfl⟩⟩ |
      ⟨r, -, orderId, reason, text, hr⟩
    · obtain ⟨qty, order', hqty, ho, hv⟩ := hcan (by simp)
      cases ho
      exact .inl ⟨order, qty, rfl, rfl, hqty, hv⟩
    · exact .inr (.inl ⟨order, rfl, rfl⟩)
    · exact .inr (.inr (.inl ⟨order, rfl, rfl⟩))
    · exact .inr (.inr (.inr ⟨orderId, reason, text, hr⟩))

/-- What the Cancel worker is about to cancel is there, with the side and the quantity of its request. -/
theorem Base.next_cancel {m : Market α} (h : Base m) {i : Context (OrderCancelRequest α)}
    {es : List (Effect α)} (pc : m.cancelWorker = .running (.cancel i :: es)) : ∃ ob' order,
      m.ob.cancel i.message.origClOrdId i.message.side = .ok ob' ∧
      i.message.orderQty = some order.remainQty ∧ order.orderId = i.message.origClOrdId ∧
      order.side.isBid = i.message.side.isBid ∧ Removes m.ob ob' order := by
  obtain ⟨name, j, -, ⟨order, qty, he, -, hqty, hv⟩ | ⟨order, he, -⟩ | ⟨order, he, -⟩ |
    ⟨orderId, reason, text, ⟨he, -⟩ | ⟨he, -⟩⟩⟩ := h.cancelWorker_next pc <;> cases he
  obtain ⟨ob', hok, -, rfl, hid, hside, hrem⟩ := h.rep.cancel_verified hv
  exact ⟨ob', order, hok, hqty, hid, hside, hrem⟩

theorem Base.cancelWorker_effect {m : Market α} (h : Base m) {e : Effect α} {es : List (Effect α)}
    (pc : m.cancelWorker = .running (e :: es)) : e.OfCancelWorker := by
  obtain ⟨name, i, -, ⟨order, qty, rfl, -⟩ | ⟨order, rfl, -⟩ | ⟨order, rfl, -⟩ |
    ⟨orderId, reason, text, ⟨rfl, -⟩ | ⟨rfl, -⟩⟩⟩ := h.cancelWorker_next pc <;> trivial

theorem Base.cancelWorker_exec {m : Market α} (h : Base m) {e : Effect α} {es : List (Effect α)}
    (pc : m.cancelWorker = .running (e :: es)) : ∃ m', m.exec e = .ok m' := by
  obtain ⟨name, i, hq, ⟨order, qty, rfl, -, -, hv⟩ | ⟨order, rfl, -⟩ | ⟨order, rfl, -⟩ |
    ⟨orderId, reason, text, ⟨rfl, -⟩ | ⟨rfl, -⟩⟩⟩ := h.cancelWorker_next pc
  · obtain ⟨ob', hok, -⟩ := h.rep.cancel_verified hv
    exact ⟨_, exec_cancel hok⟩
  · exact ⟨_, rfl⟩
  · exact ⟨_, rfl⟩
  · exact ⟨_, rfl⟩
  · exact ⟨_, rfl⟩

theorem Base.cancelWorkerEffect {m m' : Market α} (h : Base m) {e : Effect α} {es : List (Effect α)}
    (pc : m.cancelWorker = .running (e :: es)) (done : m.exec e = .ok m') :
    Base { m' with cancelWorker := .running es } := by
  have hlock := h.locked
  -- the NewOrder worker is outside while this one is in its critical section
  have hexc : m.cancelWorker.critical = true → m.newWorker.critical = false := fun hc => by
    by_contra hn
    rw [Bool.not_eq_false] at hn
    simp [h.exclusive hn] at hc
  have hes : (CancelWorkerPc.running es).Ok m.ob ∨ ∃ i, e = .cancel i := by
    have hok := h.cancelWorker
    rw [pc] at hok
    rcases hok with he | ⟨name, i, v, hq, hes, hcan⟩
    · cases he
    · exact .inl (.inr ⟨name, i, v, hq, (List.suffix_cons _ _).trans hes, fun hm =>
        hcan (List.mem_cons_of_mem _ hm)⟩)
  obtain ⟨name, i, hq, ⟨order, qty, rfl, rfl, hqty, hv⟩ | ⟨order, rfl, rfl⟩ | ⟨order, rfl, rfl⟩ |
    ⟨orderId, reason, text, ⟨rfl, rfl⟩ | ⟨rfl, rfl⟩⟩⟩ := h.cancelWorker_next pc
  · obtain ⟨ob', hok, hrep, -⟩ := h.rep.cancel_verified hv
    rw [exec_cancel hok] at done
    cases done
    have hcrit : m.cancelWorker.critical = true := by
      simp [pc, CancelWorkerPc.critical, Effect.isUnlock]
    refine { h with
      rep := hrep, newWorker := newWorker_ok_of_not_critical h.newWorker (hexc hcrit)
      cancelWorker := .inr ⟨name, i, .inr order, hq, List.suffix_cons _ _, by simp⟩
      exclusive := fun hc => ?_
      locked := fun _ => hlock (.inr hcrit) }
    have hc' : m.newWorker.critical = true := hc
    simp [hexc hcrit] at hc'
  all_goals
    cases done
    have hok := hes.resolve_right (by simp [Cancel.reject])
    refine { h with
      cancelWorker := hok
      exclusive := fun hc => rfl
      locked := fun hc => ?_ }
    have hnew : m.newWorker.critical = true := by
      simpa [CancelWorkerPc.critical, Effect.isUnlock, Cancel.reject] using hc
  · exact absurd (h.exclusive hnew) (by simp [pc, CancelWorkerPc.critical, Effect.isUnlock])
  · exact hlock (.inl hnew)
  · exact absurd (h.exclusive hnew) (by simp [pc, CancelWorkerPc.critical, Effect.isUnlock])
  · exact hlock (.inl hnew)

/-! ## Every step -/

theorem Base.step {m m' : Market α} {a : Action α} (h : Base m) (hs : Step m a m') : Base m' := by
  cases hs with
  | session | routeNew | routeCancel | allow | handNew | handCancel => exact { h with }
  | newUnitPop i rest pc input => exact { h with newUnit := NewOrder.onInput_ofUnit i }
  | newUnitEffect e es m1 pc done =>
    have hes : ∀ e' ∈ e :: es, e'.OfUnit Output.IsReject := pc ▸ h.newUnit
    exact { h.unitEffect (hes e (by simp)) done with
      newUnit := fun e' he' => hes e' (List.mem_cons_of_mem _ he') }
  | newWorkerPop i rest info pc queue value =>
    have hq : ∀ j ∈ i :: rest, NewOrder.Queueable j := queue ▸ h.newQueue
    exact { h with
      newQueue := fun j hj => hq j (List.mem_cons_of_mem _ hj)
      newWorker := ⟨(hq i (by simp)).side, _, value⟩
      exclusive := fun hc => by cases hc
      locked := fun hc => h.locked (hc.imp_left fun hc => by cases hc) }
  | newWorkerThrow i rest f pc queue value =>
    have hq : NewOrder.Queueable i := h.newQueue i (by simp [queue])
    obtain ⟨price, hp⟩ := Option.isSome_iff_exists.1 hq.price
    obtain ⟨qty, hqty⟩ := Option.isSome_iff_exists.1 hq.orderQty
    simp [NewOrder.orderInfo, hp, hqty] at value
  | newWorkerLock i info pc can =>
    have hok := h.newWorker
    rw [pc] at hok
    have hfree := (QueueMutex.canLock_iff.1 can).2
    have hnc : m.cancelWorker.critical = false := by
      by_contra hc
      simp [h.locked (.inr (by simpa using hc))] at hfree
    exact { h with newWorker := hok, exclusive := fun _ => hnc, locked := fun _ => rfl }
  | newWorkerCheck i info pc =>
    have hok : NewOrder.Built i info := by
      have := h.newWorker
      rwa [pc] at this
    have hcrit : m.newWorker.critical = true := by rw [pc]; rfl
    exact { h with
      rep := h.rep.allowTick info.order.side
      newWorker := .inr ⟨m.ob.name, i, info, (NewOrder.verdict m.ob info).1, hok,
        List.suffix_refl _, fun hadd => by
          unfold NewOrder.verdict at hadd ⊢
          dsimp only at hadd ⊢
          split at hadd
          · simp [NewOrder.orderProcessing] at hadd
          · split at hadd
            · rename_i hid
              simpa using hid
            · simp [NewOrder.orderProcessing] at hadd⟩
      cancelWorker := cancelWorker_ok_of_not_critical h.cancelWorker (h.exclusive hcrit)
      exclusive := fun _ => h.exclusive hcrit
      locked := fun _ => h.locked (.inl hcrit) }
  | newWorkerEffect e es m1 pc done => exact h.newWorkerEffect pc done
  | newWorkerFault e es f pc fault =>
    obtain ⟨m1, hok⟩ := h.newWorker_exec pc
    rw [fault] at hok
    cases hok
  | cancelUnitNoQuantity i rest pc input qty =>
    exact { h with
      cancelUnit := by
        simp [CancelUnitPc.Ok, Cancel.noQuantity, Effect.OfUnit, businessReject,
          Output.OfCancelUnit, Output.IsReject] }
  | cancelUnitThrow => exact { h with cancelUnit := trivial }
  | cancelUnitUnknown i =>
    exact { h with
      cancelUnit := by
        simp [CancelUnitPc.Ok, Cancel.unknownOrder, Cancel.reject, Effect.OfUnit,
          Output.OfCancelUnit, Output.IsReject] }
  | cancelUnitFound i rest pc input qty side has => exact { h with cancelUnit := ⟨qty, side⟩ }
  | cancelUnitGone => exact { h with cancelUnit := trivial }
  | cancelUnitOtherSide i =>
    exact { h with
      cancelUnit := by
        simp [CancelUnitPc.Ok, Cancel.otherSide, Cancel.reject, Effect.OfUnit,
          Output.OfCancelUnit, Output.IsReject] }
  | cancelUnitVerified i order pc get side =>
    have hok := h.cancelUnit
    rw [pc] at hok
    exact { h with cancelUnit := hok }
  | cancelUnitAccept i order busy pc =>
    have hok : Cancel.Queueable i := by
      have := h.cancelUnit
      rwa [pc] at this
    exact { h with
      cancelUnit := by
        unfold Cancel.accept
        split <;> simp [CancelUnitPc.Ok, Effect.OfUnit, Output.OfCancelUnit, Cancel.pendingCancel,
          Cancel.answer, Cancel.report, hok] }
  | cancelUnitEffect e es m1 pc done =>
    have hes : (CancelUnitPc.running (e :: es)).Ok := pc ▸ h.cancelUnit
    exact { h.unitEffect (hes e (by simp)).1 done with
      cancelUnit := fun e' he' => hes e' (List.mem_cons_of_mem _ he') }
  | cancelWorkerPop i rest pc queue =>
    have hq : ∀ j ∈ i :: rest, Cancel.Queueable j := queue ▸ h.cancelQueue
    exact { h with
      cancelQueue := fun j hj => hq j (List.mem_cons_of_mem _ hj)
      cancelWorker := hq i (by simp)
      exclusive := fun _ => rfl
      locked := fun hc => h.locked (hc.imp_right fun hc => by cases hc) }
  | cancelWorkerLock i pc can =>
    have hok := h.cancelWorker
    rw [pc] at hok
    have hfree := (QueueMutex.canLock_iff.1 can).2
    refine { h with cancelWorker := hok, exclusive := fun hc => ?_, locked := fun _ => rfl }
    simp [h.locked (.inl hc)] at hfree
  | cancelWorkerCheck i qty v pc value check =>
    have hok : Cancel.Queueable i := by
      have := h.cancelWorker
      rwa [pc] at this
    have hcrit : m.cancelWorker.critical = true := by rw [pc]; rfl
    refine { h with
      cancelWorker := .inr ⟨m.ob.name, i, v, hok, List.suffix_refl _, fun hm => ?_⟩
      exclusive := fun hc => ?_, locked := fun _ => h.locked (.inr hcrit) }
    · rcases v with (_ | _) | order
      · simp [Cancel.orderProcessing, Cancel.reject] at hm
      · simp [Cancel.orderProcessing, Cancel.reject] at hm
      · exact ⟨qty, order, value, rfl, check⟩
    · simp [h.exclusive hc] at hcrit
  | cancelWorkerThrow i pc bad =>
    have hok : Cancel.Queueable i := by
      have := h.cancelWorker
      rwa [pc] at this
    obtain ⟨qty, hqty⟩ := Option.isSome_iff_exists.1 hok.orderQty
    obtain ⟨f, hf⟩ := bad qty hqty
    rcases h.rep.verify i.message.origClOrdId qty i.message.side with ⟨r, hr⟩ | ⟨_, o, ho, -⟩
    · rw [hf] at hr
      cases hr
    · rw [hf] at ho
      cases ho
  | cancelWorkerEffect e es m1 pc done => exact h.cancelWorkerEffect pc done
  | cancelWorkerFault e es f pc fault =>
    obtain ⟨m1, hok⟩ := h.cancelWorker_exec pc
    rw [fault] at hok
    cases hok
  | eventTake e rest pc queue =>
    exact { h with
      rep := ⟨h.rep.ask, h.rep.bid, h.rep.disjoint⟩
      newWorker := h.newWorker
      cancelWorker := h.cancelWorker }
  | eventPass | poolTake | poolDrop | poolReport => exact { h with }

theorem base_of_run {name : String} {C : Market α → Action α → Prop} {m : Market α}
    (h : Trans.Run step C (Market.new name) m) : Base m :=
  h.invariant (.new name) fun _ _ _ hI _ hs => hI.step (step_sound hs)

end Market

end

end Fix42
