import Fix42.Market.Approval
import Fix42.Market.Proof.Ownership
import Fix42.Market.Proof.Serial

/-!
# Which order a cancel removes

`Approvals.Inv`: while no order was added under the id of an approved cancel, the only order the book
can have under it is the one that was approved; afterwards it is another one. `removed_as_approved`
follows, since nothing between the check of the Cancel unit and the step of the Cancel worker looks at
anything but the id. In `removed_unapproved` the order was filled in between and its id used again.
-/

namespace Fix42

open SortedMap

variable {α : Type*}

/-! ## Cancels on their way -/

/-- The cancels a list of effects queues. -/
def queuedCancels (es : List (Effect α)) : List (Context (OrderCancelRequest α)) :=
  es.filterMap fun
    | .queueCancel i => some i
    | _ => none

/-- The cancels a list of effects carries out. -/
def cancelsIn (es : List (Effect α)) : List (Context (OrderCancelRequest α)) :=
  es.filterMap fun
    | .cancel i => some i
    | _ => none

/-- The request the Cancel unit has approved and not passed on yet. -/
def CancelUnitPc.pursued : CancelUnitPc α → List (Context (OrderCancelRequest α))
  | .verified i _ => [i]
  | .running es => queuedCancels es
  | .found _ | .dead => []

def CancelWorkerPc.pursued : CancelWorkerPc α → List (Context (OrderCancelRequest α))
  | .waiting i | .checking i => [i]
  | .running es => cancelsIn es
  | .dead => []

theorem mem_queuedCancels {es : List (Effect α)} {i : Context (OrderCancelRequest α)} :
    i ∈ queuedCancels es ↔ .queueCancel i ∈ es := by
  rw [queuedCancels, List.mem_filterMap]
  constructor
  · rintro ⟨e, he, hi⟩
    cases e <;> cases hi
    exact he
  · exact fun he => ⟨_, he, rfl⟩

theorem mem_cancelsIn {es : List (Effect α)} {i : Context (OrderCancelRequest α)} :
    i ∈ cancelsIn es ↔ .cancel i ∈ es := by
  rw [cancelsIn, List.mem_filterMap]
  constructor
  · rintro ⟨e, he, hi⟩
    cases e <;> cases hi
    exact he
  · exact fun he => ⟨_, he, rfl⟩

theorem queuedCancels_onInput (i : Context (NewOrderSingle α)) :
    queuedCancels (NewOrder.onInput i) = [] := by
  unfold NewOrder.onInput
  split
  · rfl
  · split
    · rfl
    · split <;> split <;> rfl

theorem Cancel.queued_accept [Sub α] {name : String} {i j : Context (OrderCancelRequest α)}
    {order : Order α} {busy : Bool} (h : j ∈ queuedCancels (Cancel.accept name i order busy)) :
    j = i := by
  rw [mem_queuedCancels, Cancel.accept, List.mem_append] at h
  rcases h with h | h
  · split at h <;> simp at h
  · simpa using h

theorem Cancel.carries_out [Sub α] [Zero α] {name : String} {i j : Context (OrderCancelRequest α)}
    {v : Cancel.Refusal ⊕ Order α} (h : .cancel j ∈ Cancel.orderProcessing name i v) : j = i := by
  rcases v with (_ | _) | order
  · simp [Cancel.orderProcessing, Cancel.reject] at h
  · simp [Cancel.orderProcessing, Cancel.reject] at h
  · simpa [Cancel.orderProcessing] using h

namespace Market

/-- The cancels that were approved and are still to be carried out or refused. -/
def pursued [LinearOrder α] (m : Market α) : List (Context (OrderCancelRequest α)) :=
  queuedCancels m.newUnit ++ m.cancelUnit.pursued ++ m.cancelQueue ++ m.cancelWorker.pursued

variable [Field α] [LinearOrder α] {m m' : Market α} {a : Action α}

theorem exec_cancelQueue {m1 : Market α} {e : Effect α} (done : m.exec e = .ok m1)
    {i : Context (OrderCancelRequest α)} (hi : i ∈ m1.cancelQueue) :
    i ∈ m.cancelQueue ∨ e = .queueCancel i := by
  cases exec_sound done with
  | queueCancel j =>
    rcases List.mem_append.1 hi with hi | hi
    · exact .inl hi
    · exact .inr (by rw [List.mem_singleton.1 hi])
  | _ => exact .inl hi

omit [Field α] in
theorem approving_verified {i : Context (OrderCancelRequest α)} {order : Order α}
    (pc : m.cancelUnit = .found i) (get : m.ob.getOrder i.message.origClOrdId = .ok order)
    (side : order.side = i.message.side) : m.approving = some ⟨i, order, false⟩ := by
  simp only [approving, pc, get]
  exact if_pos side

/-- Cancels are pursued from their approval on. -/
theorem pursued_step (hb : Base m) (hs : Step m a m') {i : Context (OrderCancelRequest α)}
    (hi : i ∈ m'.pursued) : i ∈ m.pursued ∨ ∃ x t order, a = .run .cancelUnit x t ∧
      m.approving = some ⟨i, order, false⟩ := by
  have hb' := hb.step hs
  simp only [pursued, List.mem_append] at hi ⊢
  cases hs with
  | session | routeNew | routeCancel | allow | handNew | handCancel | newWorkerPop | newWorkerLock
  | newWorkerCheck | eventTake | eventPass | poolTake | poolDrop | poolReport => exact .inl hi
  | newUnitPop j rest pc input =>
    rw [queuedCancels_onInput] at hi
    left
    simpa [pc, queuedCancels] using hi
  | newUnitEffect e es m1 pc done =>
    left
    have hf := exec_frame done
    have hq := exec_cancelQueue (i := i) done
    simp only [mem_queuedCancels, pc, hf.cancelUnit, hf.cancelWorker, List.mem_cons] at hi ⊢
    tauto
  | newWorkerEffect e es m1 pc done =>
    left
    have hf := exec_frame done
    have hq : i ∈ m1.cancelQueue → i ∈ m.cancelQueue := fun hi => by
      refine (exec_cancelQueue done hi).resolve_right fun he => ?_
      subst he
      exact hb.newWorker_effect pc
    simp only [hf.newUnit, hf.cancelUnit, hf.cancelWorker] at hi
    tauto
  | cancelUnitNoQuantity j rest pc =>
    left
    simpa [pc, CancelUnitPc.pursued, Cancel.noQuantity, queuedCancels] using hi
  | cancelUnitUnknown j rest pc =>
    left
    simpa [pc, CancelUnitPc.pursued, Cancel.unknownOrder, Cancel.reject, queuedCancels] using hi
  | cancelUnitThrow j rest pc | cancelUnitFound j rest pc =>
    left
    simpa [pc, CancelUnitPc.pursued, queuedCancels] using hi
  | cancelUnitGone j f pc =>
    left
    simpa [pc, CancelUnitPc.pursued] using hi
  | cancelUnitOtherSide j order pc =>
    left
    simpa [pc, CancelUnitPc.pursued, Cancel.otherSide, Cancel.reject, queuedCancels] using hi
  | @cancelUnitVerified x t j order pc get side =>
    by_cases hj : i = j
    · exact .inr ⟨x, t, order, rfl, hj ▸ approving_verified pc get side⟩
    · left
      simpa [pc, CancelUnitPc.pursued, hj] using hi
  | cancelUnitAccept j order busy pc =>
    left
    have hj : i ∈ queuedCancels (Cancel.accept m.ob.name j order busy) → i = j :=
      Cancel.queued_accept
    simp only [pc, CancelUnitPc.pursued, List.mem_singleton] at hi ⊢
    tauto
  | cancelUnitEffect e es m1 pc done =>
    left
    have hf := exec_frame done
    have hq := exec_cancelQueue (i := i) done
    simp only [pc, CancelUnitPc.pursued, mem_queuedCancels, hf.newUnit, hf.cancelWorker,
      List.mem_cons] at hi ⊢
    tauto
  | cancelWorkerPop j rest pc queue =>
    left
    simp only [pc, queue, CancelWorkerPc.pursued, List.mem_cons] at hi ⊢
    tauto
  | cancelWorkerLock j pc =>
    left
    simpa only [pc, CancelWorkerPc.pursued] using hi
  | cancelWorkerCheck j qty v pc =>
    left
    have hj : .cancel i ∈ Cancel.orderProcessing m.ob.name j v → i = j := Cancel.carries_out
    simp only [pc, CancelWorkerPc.pursued, mem_cancelsIn, List.mem_singleton] at hi ⊢
    tauto
  | cancelWorkerEffect e es m1 pc done =>
    left
    have hf := exec_frame done
    have hq : i ∈ m1.cancelQueue → i ∈ m.cancelQueue := fun hi => by
      refine (exec_cancelQueue done hi).resolve_right fun he => ?_
      subst he
      exact hb.cancelWorker_effect pc
    simp only [pc, CancelWorkerPc.pursued, mem_cancelsIn, hf.newUnit, hf.cancelUnit,
      List.mem_cons] at hi ⊢
    tauto
  | newWorkerThrow | newWorkerFault => exact hb'.newWorker.elim
  | cancelWorkerThrow | cancelWorkerFault => exact hb'.cancelWorker.elim

/-! ## Submissions the NewOrder worker has done with -/

/-- The order of request `id` has been added or refused. -/
def Spent (m : Market α) (id : ExecId) : Prop :=
  id ∈ m.unlocked.map Unlock.worker ∨ m.newWorker = .running [.unlock id]

theorem exec_unlocked {m1 : Market α} {e : Effect α} (done : m.exec e = .ok m1) :
    m.unlocked ⊆ m1.unlocked ∧ ∀ id, e = .unlock id → id ∈ m1.unlocked.map Unlock.worker := by
  cases exec_sound done with
  | unlock id =>
    refine ⟨List.subset_append_left _ _, fun id' he => ?_⟩
    cases he
    simp
  | _ => exact ⟨List.Subset.refl _, fun id he => by cases he⟩

theorem unlocked_mono (hs : Step m a m') : m.unlocked ⊆ m'.unlocked := by
  cases hs with
  | newUnitEffect e es m1 pc done | newWorkerEffect e es m1 pc done
  | cancelUnitEffect e es m1 pc done | cancelWorkerEffect e es m1 pc done =>
    exact (exec_unlocked done).1
  | _ => exact List.Subset.refl _

theorem Spent.step {id : ExecId} (h : m.Spent id) (hs : Step m a m') : m'.Spent id := by
  rcases h with h | pc
  · exact .inl (List.map_subset _ (unlocked_mono hs) h)
  · by_cases ha : ∃ x t, a = .run .newWorker x t
    · obtain ⟨x, t, rfl⟩ := ha
      cases hs with
      | newWorkerEffect e es m1 pc' done =>
        cases pc.symm.trans pc'
        exact .inl ((exec_unlocked done).2 id rfl)
      | newWorkerFault e es f pc' fault =>
        cases pc.symm.trans pc'
        cases fault
      | newWorkerPop i rest info pc' | newWorkerThrow i rest f pc' | newWorkerLock i info pc'
      | newWorkerCheck i info pc' => cases pc.symm.trans pc'
    · push Not at ha
      exact .inr ((hs.newWorker_eq ha).trans pc)

/-- A submission is added once. -/
theorem Serial.fresh (h : Serial m) (hb : Base m) {info : OrderInfo α} {es : List (Effect α)}
    (pc : m.newWorker = .running (.add info :: es)) : ¬ m.Spent info.order.submission := by
  obtain ⟨rfl, -⟩ := hb.next_add pc
  rintro (hu | pc')
  · have hc := h.placed_count info.order.submission
    have hu := List.count_pos_iff.2 hu
    simp only [Market.placed, pc, NewWorkerPc.stage, stageOf, List.findSome?_cons, Effect.ticket,
      TicketLock.Worker.tickets, List.count_append, List.count_singleton_self] at hc
    omega
  · cases pc.symm.trans pc'

/-! ## The steps that change the book -/

/-- The order under an id that the book does not have is not at rest. -/
theorem Base.not_resting (hb : Base m) {id : OrderId} (hid : m.ob.has id = false)
    {x : α × Node α} (hx : x ∈ m.ob.resting) : x.2.order.orderId ≠ id := by
  rintro rfl
  have hget := (hb.rep.getOrder_resting hx).1
  simp only [OrderBook.has, Bool.or_eq_false_iff, Option.isSome_eq_false_iff,
    Option.isNone_iff_eq_none] at hid
  simp [OrderBook.getOrder, hid.1, hid.2] at hget

theorem newWorker_book (hb : Base m) {x : ExecId} {t : Int} (hs : Step m (.run .newWorker x t) m') :
    (m.adding = none ∧ m.ob.SameOrders m'.ob) ∨
    ∃ info es, m.newWorker = .running (.add info :: es) ∧ m'.newWorker = .running es ∧
      m.ob.add info = .ok m'.ob := by
  have hb' := hb.step hs
  cases hs with
  | newWorkerPop i rest info pc | newWorkerLock i info pc | newWorkerCheck i info pc =>
    exact .inl ⟨by simp [adding, pc], ⟨rfl, rfl, rfl, rfl⟩⟩
  | newWorkerEffect e es m1 pc done =>
    cases exec_sound done with
    | add info ob added => exact .inr ⟨info, es, pc, rfl, added⟩
    | cancel => exact (hb.newWorker_effect pc).elim
    | _ => exact .inl ⟨by simp [adding, pc], .refl _⟩
  | newWorkerThrow | newWorkerFault => exact hb'.newWorker.elim

theorem cancelWorker_book (hb : Base m) {x : ExecId} {t : Int}
    (hs : Step m (.run .cancelWorker x t) m') :
    (m.removing = none ∧ m.ob.SameOrders m'.ob) ∨
    ∃ i order, i ∈ m.pursued ∧ m.removing = some (i, order) ∧ Cancel.Names i order ∧
      Removes m.ob m'.ob order := by
  have hb' := hb.step hs
  cases hs with
  | cancelWorkerPop i rest pc | cancelWorkerLock i pc | cancelWorkerCheck i qty v pc =>
    exact .inl ⟨by simp [removing, pc], ⟨rfl, rfl, rfl, rfl⟩⟩
  | cancelWorkerEffect e es m1 pc done =>
    cases exec_sound done with
    | add => exact (hb.cancelWorker_effect pc).elim
    | cancel i ob cancelled =>
      obtain ⟨ob', order, hok, hqty, hid, hside, hrem⟩ := hb.next_cancel pc
      cases cancelled.symm.trans hok
      obtain ⟨y, hy, rfl⟩ := hrem.mem_resting
      have hget := (hb.rep.getOrder_resting hy).1
      rw [hid] at hget
      refine .inr ⟨i, y.2.order, ?_, ?_, ⟨hid, hside, hqty⟩, hrem⟩
      · simp [pursued, pc, CancelWorkerPc.pursued, mem_cancelsIn]
      · simp [removing, pc, hget, Except.toOption]
    | _ => exact .inl ⟨by simp [removing, pc], .refl _⟩
  | cancelWorkerThrow | cancelWorkerFault => exact hb'.cancelWorker.elim

/-- The other threads leave the orders alone. -/
theorem other_book (hb : Base m) (hs : Step m a m') (hn : ∀ x t, a ≠ .run .newWorker x t)
    (hc : ∀ x t, a ≠ .run .cancelWorker x t) : m.ob.SameOrders m'.ob := by
  have hnew := hs.newWorker_eq hn
  have hcancel := hs.cancelWorker_eq hc
  rcases hb.book_changes hs with h | ⟨info, es, pc, pc', -⟩ | ⟨i, es, order, pc, pc', -⟩
  · exact h
  · rw [hnew, pc, NewWorkerPc.running.injEq] at pc'
    exact absurd pc' (List.cons_ne_self _ _)
  · rw [hcancel, pc, CancelWorkerPc.running.injEq] at pc'
    exact absurd pc' (List.cons_ne_self _ _)

end Market

/-! ## The invariant -/

theorem OrderBook.SameOrders.resting [LinearOrder α] {ob ob' : OrderBook α}
    (h : ob.SameOrders ob') : ob'.resting = ob.resting := by
  rw [OrderBook.resting, h.askBook, h.bidBook, OrderBook.resting]

namespace Approvals

open Market

section
variable [LinearOrder α]

/-- What an approval says of the book: the order under its id is the approved one, or, once the id
was used again, another one. -/
structure Holds (m : Market α) (p : Approval α) : Prop where
  spent : m.Spent p.order.submission
  same : p.reused = false → ∀ x ∈ m.ob.resting,
    x.2.order.orderId = p.request.message.origClOrdId → x.2.order.SameAs p.order
  other : p.reused = true → ∀ x ∈ m.ob.resting,
    x.2.order.orderId = p.request.message.origClOrdId → x.2.order.submission ≠ p.order.submission

/-- The invariant (module doc). -/
structure Inv (s : Approvals α) : Prop where
  spent : ∀ x ∈ s.market.ob.resting, s.market.Spent x.2.order.submission
  holds : ∀ p ∈ s.approved, Holds s.market p
  pursued : ∀ i ∈ s.market.pursued, ∃ p ∈ s.approved, p.request = i
  removed : ∀ r ∈ s.removed, r.Aimed ↔ ∀ p ∈ r.approvals, p.reused = false

end

variable [Field α] [LinearOrder α] {s s' : Approvals α} {m' : Market α} {a : Action α}

theorem Inv.new (name : String) : Inv (Approvals.new name : Approvals α) where
  spent x hx := by cases hx
  holds p hp := by cases hp
  pursued i hi := by cases hi
  removed r hr := by cases hr

/-- A step that adds no order. -/
theorem Holds.keep {m : Market α} {p : Approval α} (h : Holds m p) (hs : Step m a m')
    (hsub : m'.ob.resting ⊆ m.ob.resting) : Holds m' p where
  spent := h.spent.step hs
  same hp x hx := h.same hp x (hsub hx)
  other hp x hx := h.other hp x (hsub hx)

/-- The order is added that `p` may be about. -/
theorem Holds.add {m : Market α} {p : Approval α} (h : Holds m p) (hb : Base m) (hser : Serial m)
    (hs : Step m a m') {info : OrderInfo α} {es : List (Effect α)}
    (pc : m.newWorker = .running (.add info :: es)) (hadd : m.ob.add info = .ok m'.ob) :
    Holds m' (p.reuse info) := by
  obtain ⟨-, hside, hqty, hfree⟩ := hb.next_add pc
  have hold : ∀ x ∈ m'.ob.resting, (∃ y ∈ m.ob.resting, x.2.order.SameAs y.2.order) ∨
      x.2.order.SameAs info.order := fun x hx => add_resting_sameAs hside hqty hadd hx
  refine ⟨h.spent.step hs, fun hp x hx hid => ?_, fun hp x hx hid => ?_⟩
  · simp only [Approval.reuse, Bool.or_eq_false_iff, decide_eq_false_iff_not] at hp hid
    rcases hold x hx with ⟨y, hy, hxy⟩ | hxi
    · exact hxy.trans (h.same hp.1 y hy (hxy.orderId ▸ hid))
    · exact absurd (hid.symm.trans hxi.orderId) hp.2
  · simp only [Approval.reuse, Bool.or_eq_true, decide_eq_true_eq] at hp hid
    rcases hold x hx with ⟨y, hy, hxy⟩ | hxi
    · rw [hxy.orderId] at hid
      rw [hxy.submission]
      refine h.other (hp.resolve_right fun he => ?_) y hy hid
      exact hb.not_resting hfree hy (hid.trans he)
    · rw [hxi.submission]
      intro he
      exact hser.fresh hb pc (he ▸ h.spent)

/-- What the Cancel unit approves is at rest. -/
theorem Holds.approving {m : Market α} {p : Approval α} (hb : Base m) (hs : Step m a m')
    (hresting : m'.ob.resting = m.ob.resting)
    (hspent : ∀ x ∈ m.ob.resting, m.Spent x.2.order.submission) (hp : m.approving = some p) :
    Holds m' p := by
  unfold Market.approving at hp
  split at hp
  · rename_i i pc
    split at hp
    · rename_i order get
      split at hp <;> cases hp
      obtain ⟨y, hy, rfl⟩ := mem_resting_of_getOrder hb.rep get
      refine ⟨(hspent y hy).step hs, fun _ x hx hid => ?_, fun hr => by cases hr⟩
      rw [hresting] at hx
      have hget := (hb.rep.getOrder_resting hx).1
      rw [hid] at hget
      rw [Except.ok.inj (hget.symm.trans get)]
      exact .refl _
    · cases hp
  · cases hp

omit [Field α] in
theorem mem_of {i : Context (OrderCancelRequest α)} {p : Approval α} :
    p ∈ s.of i ↔ p ∈ s.approved ∧ p.request = i := by simp [of]

omit [Field α] in
/-- A removal is of the approved order exactly if its id was not used again. -/
theorem Inv.aimed (h : Inv s) {i : Context (OrderCancelRequest α)} {order : Order α}
    {ob' : OrderBook α} (hi : i ∈ s.market.pursued) (hn : Cancel.Names i order)
    (hrem : Removes s.market.ob ob' order) :
    Cancellation.Aimed ⟨i, order, s.of i⟩ ↔ ∀ p ∈ s.of i, p.reused = false := by
  obtain ⟨x, hx, rfl⟩ := hrem.mem_resting
  constructor
  · rintro ⟨-, hall⟩ p hp
    obtain ⟨hmem, rfl⟩ := mem_of.1 hp
    by_contra hr
    rw [Bool.not_eq_false] at hr
    exact (h.holds p hmem).other hr x hx hn.id (hall p hp).submission
  · intro hall
    obtain ⟨p, hmem, hp⟩ := h.pursued i hi
    refine ⟨List.ne_nil_of_mem (mem_of.2 ⟨hmem, hp⟩), fun q hq => ?_⟩
    obtain ⟨hmem', rfl⟩ := mem_of.1 hq
    exact (h.holds q hmem').same (hall q hq) x hx hn.id

/-- Steps of the market that change neither the orders at rest nor the records. -/
theorem Inv.quiet (h : Inv s) (hb : Base s.market) (hs : Step s.market a m')
    (hresting : m'.ob.resting = s.market.ob.resting) (ha : ∀ x t, a ≠ .run .cancelUnit x t) :
    Inv { s with market := m' } where
  spent x hx := (h.spent x (hresting ▸ hx)).step hs
  holds p hp := (h.holds p hp).keep hs (hresting ▸ List.Subset.refl _)
  pursued i hi := by
    rcases pursued_step hb hs hi with hi | ⟨x, t, order, rfl, -⟩
    · exact h.pursued i hi
    · exact absurd rfl (ha x t)
  removed := h.removed

theorem Inv.cancelUnit (h : Inv s) (hb : Base s.market) {x : ExecId} {t : Int}
    (hs : Step s.market (.run .cancelUnit x t) m') :
    Inv { s with market := m', approved := s.approved ++ s.market.approving.toList } := by
  have hresting := (other_book hb hs (by simp) (by simp)).resting
  refine ⟨fun x hx => (h.spent x (hresting ▸ hx)).step hs, fun p hp => ?_, fun i hi => ?_,
    h.removed⟩
  · rcases List.mem_append.1 hp with hp | hp
    · exact (h.holds p hp).keep hs (hresting ▸ List.Subset.refl _)
    · exact .approving hb hs hresting h.spent (Option.mem_toList.1 hp)
  · rcases pursued_step hb hs hi with hi | ⟨-, -, order, -, happ⟩
    · obtain ⟨p, hp, hpi⟩ := h.pursued i hi
      exact ⟨p, List.mem_append_left _ hp, hpi⟩
    · exact ⟨⟨i, order, false⟩, by simp [happ], rfl⟩

theorem Inv.newWorker (h : Inv s) (hb : Base s.market) (hser : Serial s.market) {x : ExecId}
    {t : Int} (hs : Step s.market (.run .newWorker x t) m') :
    Inv { s with
      market := m', approved := s.approved.map fun p => s.market.adding.elim p p.reuse } := by
  rcases newWorker_book hb hs with ⟨hnone, hob⟩ | ⟨info, es, pc, pc', hadd⟩
  · simp only [hnone, Option.elim_none, List.map_id']
    exact h.quiet hb hs hob.resting (by simp)
  · have hadding : s.market.adding = some info := by simp [adding, pc]
    obtain ⟨rfl, hside, hqty, -⟩ := hb.next_add pc
    simp only [hadding, Option.elim_some]
    refine ⟨fun x hx => ?_, fun p hp => ?_, fun i hi => ?_, h.removed⟩
    · rcases add_resting_sameAs hside hqty hadd hx with ⟨y, hy, hxy⟩ | hxi
      · rw [hxy.submission]
        exact (h.spent y hy).step hs
      · rw [hxi.submission]
        exact .inr pc'
    · obtain ⟨q, hq, rfl⟩ := List.mem_map.1 hp
      exact (h.holds q hq).add hb hser hs pc hadd
    · rcases pursued_step hb hs hi with hi | ⟨_, _, _, he, _⟩
      · obtain ⟨p, hp, hpi⟩ := h.pursued i hi
        exact ⟨p.reuse info, List.mem_map_of_mem hp, hpi⟩
      · cases he

theorem Inv.cancelWorker (h : Inv s) (hb : Base s.market) {x : ExecId} {t : Int}
    (hs : Step s.market (.run .cancelWorker x t) m') :
    Inv { s with market := m', removed := s.removed ++
      (s.market.removing.map fun x => (⟨x.1, x.2, s.of x.1⟩ : Cancellation α)).toList } := by
  rcases cancelWorker_book hb hs with ⟨hnone, hob⟩ | ⟨i, order, hi, hrm, hn, hrem⟩
  · simp only [hnone, Option.map_none, Option.toList_none, List.append_nil]
    exact h.quiet hb hs hob.resting (by simp)
  · simp only [hrm, Option.map_some, Option.toList_some]
    refine ⟨fun x hx => (h.spent x (hrem.subset hx)).step hs,
      fun p hp => (h.holds p hp).keep hs hrem.subset, fun j hj => ?_, fun r hr => ?_⟩
    · rcases pursued_step hb hs hj with hj | ⟨_, _, _, he, _⟩
      · exact h.pursued j hj
      · cases he
    · rcases List.mem_append.1 hr with hr | hr
      · exact h.removed r hr
      · rw [List.mem_singleton.1 hr]
        exact h.aimed hi hn hrem

theorem step_market (hs : s.step a = some s') : s.market.step a = some s'.market := by
  obtain ⟨m, hm, rfl⟩ := Option.map_eq_some_iff.1 hs
  rw [hm]
  split <;> rfl

theorem Inv.step (h : Inv s) (hb : Base s.market) (hser : Serial s.market)
    (hs : s.step a = some s') : Inv s' := by
  obtain ⟨m, hm, rfl⟩ := Option.map_eq_some_iff.1 hs
  have hst := step_sound hm
  split
  · exact h.cancelUnit hb hst
  · exact h.newWorker hb hser hst
  · exact h.cancelWorker hb hst
  · rename_i hu hn hc
    have hob := other_book hb hst (fun x t he => hn x t he) fun x t he => hc x t he
    exact h.quiet hb hst hob.resting fun x t he => hu x t he

theorem Reachable.market {name : String} (h : Reachable name s) :
    Market.Reachable name s.market :=
  h.invariant (I := fun s => Market.Reachable name s.market) .start
    fun _ _ _ hr _ hs => hr.next trivial (step_market hs)

theorem inv_of_reachable {name : String} (h : Reachable name s) : Inv s :=
  h.invariant_with (J := fun s => Market.Reachable name s.market) (.new name)
    (fun _ hr => Reachable.market hr)
    fun _ _ _ hI hr _ hs => hI.step (base_of_run hr) (serial_of_reachable hr) hs

/-! ## Removals -/

/-- What is recorded as removed is what leaves the book through cancels. -/
theorem step_removed (hb : Base s.market) (hs : s.step a = some s') :
    (s'.removed = s.removed ∧ (s.market.ob.SameOrders s'.market.ob ∨
      ∃ info, s.market.ob.add info = .ok s'.market.ob)) ∨
    ∃ r, s'.removed = s.removed ++ [r] ∧ r.approvals = s.of r.request ∧
      Cancel.Names r.request r.order ∧ Removes s.market.ob s'.market.ob r.order := by
  obtain ⟨m, hm, rfl⟩ := Option.map_eq_some_iff.1 hs
  have hst := step_sound hm
  split
  · exact .inl ⟨rfl, .inl (other_book hb hst (by simp) (by simp))⟩
  · rcases newWorker_book hb hst with ⟨-, hob⟩ | ⟨info, es, -, -, hadd⟩
    · exact .inl ⟨rfl, .inl hob⟩
    · exact .inl ⟨rfl, .inr ⟨info, hadd⟩⟩
  · rcases cancelWorker_book hb hst with ⟨hnone, hob⟩ | ⟨i, order, -, hrm, hn, hrem⟩
    · exact .inl ⟨by simp [hnone], .inl hob⟩
    · exact .inr ⟨⟨i, order, s.of i⟩, by simp [hrm], rfl, hn, hrem⟩
  · rename_i hu hn hc
    exact .inl ⟨rfl, .inl (other_book hb hst (fun x t he => hn x t he) fun x t he => hc x t he)⟩

/-- Under the condition no id of an approved cancel was used again when its order was removed. -/
theorem unreused_of_run {name : String} (h : Trans.Run step Unreused (Approvals.new name) s) :
    ∀ r ∈ s.removed, ∀ p ∈ r.approvals, p.reused = false := by
  refine h.invariant (I := fun s => ∀ r ∈ s.removed, ∀ p ∈ r.approvals, p.reused = false)
    (by simp [Approvals.new]) fun s a s' hI hc hs => ?_
  obtain ⟨m, hm, rfl⟩ := Option.map_eq_some_iff.1 hs
  split
  · exact hI
  · exact hI
  · intro r hr
    rcases List.mem_append.1 hr with hr | hr
    · exact hI r hr
    · obtain ⟨x, hx, rfl⟩ := Option.mem_map.1 (Option.mem_toList.1 hr)
      exact hc x hx
  · exact hI

/-- **A cancel removes what it was checked against.** An order removed for a cancel is the very order
that was approved for it exactly if no order was added under its id in between. So a run in which the
Cancel worker carries out only cancels whose id was not used again removes approved orders only. What
is recorded as removed is all that leaves the book through cancels. -/
theorem removed_as_approved {name : String} (h : Reachable name s) :
    (∀ r ∈ s.removed, r.Aimed ↔ ∀ p ∈ r.approvals, p.reused = false) ∧
    (Trans.Run step Unreused (Approvals.new name) s → ∀ r ∈ s.removed, r.Aimed) ∧
    ∀ a s', s.step a = some s' →
      (s'.removed = s.removed ∧ (s.market.ob.SameOrders s'.market.ob ∨
        ∃ info, s.market.ob.add info = .ok s'.market.ob)) ∨
      ∃ r, s'.removed = s.removed ++ [r] ∧ r.approvals = s.of r.request ∧
        Cancel.Names r.request r.order ∧ Removes s.market.ob s'.market.ob r.order := by
  have haimed := (inv_of_reachable h).removed
  refine ⟨haimed, fun hrun r hr => ?_, fun a s' hs => ?_⟩
  · exact (haimed r hr).2 (unreused_of_run hrun r hr)
  · exact step_removed (base_of_run h.market) hs

/-! ## Runs -/

/-- A new order goes from its client to the queue of the NewOrder worker. -/
def queueOrder (client : Client) (id : ExecId) (order : NewOrderSingle ℚ) :
    List (Action ℚ) :=
  .route (.newOrder ⟨client, 0, id, ⟨1, 'D'⟩, order⟩) :: (runs .router 2 ++ runs .newUnit 2)

/-- Client 0 is logged in as `A`, client 1 as `B`, client 2 as `C`. -/
def threeUsers : Action ℚ :=
  .session [0, 1, 2] fun c => if c = 0 then "A" else if c = 1 then "B" else "C"

/-- A cancel by `A` of its sell `s1` reaches the Cancel unit, which takes `n` steps. -/
def checkCancel (n : Nat) : List (Action ℚ) :=
  .route (.cancel ⟨0, 0, "c1", ⟨2, 'F'⟩, ⟨"s1", "x1", .sell, some 10⟩⟩) ::
    (runs .router 2 ++ runs .cancelUnit n)

/-- A sell of `A` rests and is cancelled. -/
def cancelledRun : List (Action ℚ) :=
  threeUsers :: queueOrder 0 "n1" ⟨"s1", .sell, some 10, .limit, some 5⟩ ++ runs .newWorker 6 ++
    checkCancel 4 ++ runs .cancelWorker 4

/-- After a trade at 6 the sell of `A` rests at 5. A buy of `B` and a `SellPlus` of `C` under the id
of that sell wait for the NewOrder worker when the cancel of `A` is checked. -/
def reusedRun : List (Action ℚ) :=
  threeUsers :: queueOrder 2 "n1" ⟨"s0", .sell, some 10, .limit, some 6⟩ ++
    queueOrder 1 "n2" ⟨"b0", .buy, some 10, .limit, some 6⟩ ++
    queueOrder 0 "n3" ⟨"s1", .sell, some 10, .limit, some 5⟩ ++ runs .newWorker 18 ++
    queueOrder 1 "n4" ⟨"b1", .buy, some 10, .limit, some 5⟩ ++
    queueOrder 2 "n5" ⟨"s1", .sellPlus, some 10, .limit, some 5⟩ ++
    checkCancel 5 ++ runs .newWorker 12 ++ runs .cancelWorker 4

/-- The cancel of `A` removes the order of `C`. -/
theorem removed_unapproved : ∃ s : Approvals ℚ, ∃ r, Reachable "AAPL" s ∧ s.removed = [r] ∧
    r.order = ⟨"C", "s1", 10, 10, 0, .sellPlus, .newOrder, "n5"⟩ ∧
    r.approvals.map Approval.order = [⟨"A", "s1", 10, 10, 0, .sell, .newOrder, "n3"⟩] ∧
    ¬ r.Aimed := by
  have h : (Trans.exec step (fun _ _ => True) (Approvals.new "AAPL") reusedRun).map
      (fun s => s.removed.map fun r => (r.order, r.approvals.map Approval.order)) =
      some [(⟨"C", "s1", 10, 10, 0, .sellPlus, .newOrder, "n5"⟩,
        [⟨"A", "s1", 10, 10, 0, .sell, .newOrder, "n3"⟩])] := by decide +kernel
  obtain ⟨s, hs, h⟩ := Option.map_eq_some_iff.1 h
  obtain ⟨r, hr, h⟩ := List.map_eq_singleton_iff.1 h
  obtain ⟨horder, happ⟩ := Prod.mk.inj h
  refine ⟨s, r, .of_exec .start hs, hr, horder, happ, fun aimed => ?_⟩
  obtain ⟨p, hp, hpo⟩ := List.map_eq_singleton_iff.1 happ
  have hside := (aimed.2 p (by simp [hp])).side
  rw [horder, hpo] at hside
  cases hside

/-- The cancel of `A` removes the order of `A`. -/
theorem removed_as_approved_run : ∃ s : Approvals ℚ, ∃ r ∈ s.removed,
    r.order.userId = "A" ∧ r.Aimed := by
  have h : (Trans.exec step Unreused (Approvals.new "AAPL") cancelledRun).map
      (fun s => s.removed.map fun r => r.order.userId) = some ["A"] := by decide +kernel
  obtain ⟨s, hs, h⟩ := Option.map_eq_some_iff.1 h
  obtain ⟨r, hr, huser⟩ := List.map_eq_singleton_iff.1 h
  have hrun : Trans.Run step Unreused (Approvals.new "AAPL") s := .of_exec .start hs
  have hmem : r ∈ s.removed := by simp [hr]
  exact ⟨s, r, hmem, huser, (removed_as_approved hrun.reach).2.1 hrun r hmem⟩

end Approvals

end Fix42
