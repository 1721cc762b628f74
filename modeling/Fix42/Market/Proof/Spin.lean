import Fix42.Market.Proof.Serial

/-!
# Book mutations follow the router

The runs of `SpinMarket` project to runs of the market (`SpinMarket.Inv`): a worker past the loop of
`lock` still has its ticket at the front and finds the lock free. So the critical sections of the two
workers exclude each other and follow the router's order (`serialized`).
-/

namespace Fix42

variable {α : Type*}

def NewWorkerPc.unlocking : NewWorkerPc α → Bool
  | .running (.unlock _ :: _) => true
  | _ => false

def CancelWorkerPc.unlocking : CancelWorkerPc α → Bool
  | .running (.unlock _ :: _) => true
  | _ => false

theorem stageOf_ne_waiting (es : List (Effect α)) (id : ExecId) : stageOf es ≠ .waiting id := by
  unfold stageOf
  split <;> simp

theorem NewWorkerPc.away {w : NewWorkerPc α} (hwait : ∀ i info, w ≠ .waiting i info)
    (hunlock : ∀ id es, w ≠ .running (.unlock id :: es)) :
    w.unlocking = false ∧ ∀ id, w.stage ≠ .waiting id := by
  cases w with
  | waiting i info => exact absurd rfl (hwait i info)
  | dead | checking => exact ⟨rfl, fun id h => by cases h⟩
  | running es =>
    refine ⟨?_, stageOf_ne_waiting es⟩
    unfold NewWorkerPc.unlocking
    split
    · exact absurd ‹_› (hunlock _ _)
    · rfl

theorem CancelWorkerPc.away {w : CancelWorkerPc α} (hwait : ∀ i, w ≠ .waiting i)
    (hunlock : ∀ id es, w ≠ .running (.unlock id :: es)) :
    w.unlocking = false ∧ ∀ id, w.stage ≠ .waiting id := by
  cases w with
  | waiting i => exact absurd rfl (hwait i)
  | dead | checking => exact ⟨rfl, fun id h => by cases h⟩
  | running es =>
    refine ⟨?_, stageOf_ne_waiting es⟩
    unfold CancelWorkerPc.unlocking
    split
    · exact absurd ‹_› (hunlock _ _)
    · rfl

/-- What a worker's place in `lock` or `unlock` says about it: `w` and `unlocking` are the worker's. -/
def LockPc.Ok [LinearOrder α] (m : Market α) (w : TicketLock.Worker ExecId) (unlocking : Bool) :
    LockPc → Prop
  | .empty => True
  | .front => ∃ id, w = .waiting id
  | .locked | .acquire => ∃ id, w = .waiting id ∧ m.mutex.queue.head? = some id
  | .undefined => ∃ id, w = .waiting id ∧ id ∈ m.finished
  | .pop => unlocking = true

section
variable [Field α] [LinearOrder α] {m m' : Market α} {w : TicketLock.Worker ExecId} {unlocking : Bool}
  {pc : LockPc} {id : ExecId}

omit [Field α] in
/-- A worker at neither call is at the start of both. -/
theorem LockPc.Ok.eq_empty (h : pc.Ok m w false) (hw : ∀ id, w ≠ .waiting id) : pc = .empty := by
  cases pc with
  | empty => rfl
  | front =>
    obtain ⟨id, rfl⟩ := h
    exact absurd rfl (hw id)
  | locked | acquire | undefined =>
    obtain ⟨id, rfl, -⟩ := h
    exact absurd rfl (hw id)
  | pop => cases h

omit [Field α] in
theorem LockPc.Ok.read (hs : m.Serial) (h : pc.Ok m (.waiting id) false)
    (hw : m.newWorker.stage = .waiting id ∨ m.cancelWorker.stage = .waiting id) (lock : Bool) :
    (pc.read m.mutex.queue lock id).Ok m (.waiting id) false := by
  cases pc with
  | empty =>
    simp only [LockPc.read]
    split
    · trivial
    · exact ⟨id, rfl⟩
  | front =>
    simp only [LockPc.read]
    split
    · rename_i hq
      obtain ⟨hal, hun, -⟩ := hs.waiting_alone hw
      refine ⟨id, rfl, hs.lock.finished_of_not_mem hal ?_ ?_⟩
      · simp [Market.queueLock, hq]
      · simpa [Market.queueLock, Function.comp_def] using hun
    · rename_i first rest hq
      split
      · trivial
      · rename_i he
        have he : first = id := by simpa using he
        exact ⟨id, rfl, by rw [hq, he]; rfl⟩
  | locked =>
    simp only [LockPc.read]
    split
    · trivial
    · exact h
  | acquire | undefined | pop => exact h

/-- Another thread's step. -/
theorem LockPc.Ok.step {a : Action α} (hb : m.Base) (hs : m.Serial) (ht : Market.Step m a m')
    (h : pc.Ok m w unlocking)
    (hw : m.newWorker.stage = w ∧ m'.newWorker = m.newWorker ∨
      m.cancelWorker.stage = w ∧ m'.cancelWorker = m.cancelWorker) : pc.Ok m' w unlocking := by
  cases pc with
  | empty | front | pop => exact h
  | locked | acquire =>
    obtain ⟨id, rfl, front⟩ := h
    exact ⟨id, rfl, hs.front_step hb ht hw front⟩
  | undefined =>
    obtain ⟨id, rfl, hf⟩ := h
    exact ⟨id, rfl, Market.finished_mono ht hf⟩

end

namespace SpinMarket

variable [Field α] [LinearOrder α]

structure Inv (name : String) (s : SpinMarket α) : Prop where
  market : Market.Reachable name s.market
  newPc : s.newPc.Ok s.market s.market.newWorker.stage s.market.newWorker.unlocking
  cancelPc : s.cancelPc.Ok s.market s.market.cancelWorker.stage s.market.cancelWorker.unlocking

variable {s s' : SpinMarket α} {name : String}

theorem Inv.new (name : String) : Inv name (SpinMarket.new name : SpinMarket α) :=
  ⟨.start, trivial, trivial⟩

theorem Inv.newPc_step (h : Inv name s) {a : Action α} {m : Market α}
    (hm : s.market.step a = some m) (ha : ∀ x t, a ≠ .run .newWorker x t) :
    s.newPc.Ok m m.newWorker.stage m.newWorker.unlocking := by
  have ht := Market.step_sound hm
  have he := ht.newWorker_eq ha
  rw [he]
  exact h.newPc.step (Market.base_of_run h.market) (Market.serial_of_reachable h.market) ht
    (.inl ⟨rfl, he⟩)

theorem Inv.cancelPc_step (h : Inv name s) {a : Action α} {m : Market α}
    (hm : s.market.step a = some m) (ha : ∀ x t, a ≠ .run .cancelWorker x t) :
    s.cancelPc.Ok m m.cancelWorker.stage m.cancelWorker.unlocking := by
  have ht := Market.step_sound hm
  have he := ht.cancelWorker_eq ha
  rw [he]
  exact h.cancelPc.step (Market.base_of_run h.market) (Market.serial_of_reachable h.market) ht
    (.inr ⟨rfl, he⟩)

theorem Inv.newWorkerStep (h : Inv name s) (hs : s.newWorkerStep = some s') (x : ExecId) (t : Int) :
    Inv name s' ∧
      (s'.market = s.market ∨ s.market.step (.run .newWorker x t) = some s'.market) := by
  have hser := Market.serial_of_reachable h.market
  have hmove : ∀ {m : Market α}, s.market.newWorkerStep = some m →
      m.Reachable name ∧ s.cancelPc.Ok m m.cancelWorker.stage m.cancelWorker.unlocking :=
    fun hm => ⟨h.market.next (i := .run .newWorker x t) trivial hm,
      h.cancelPc_step (a := .run .newWorker x t) hm (by simp)⟩
  have hok := h.newPc
  unfold SpinMarket.newWorkerStep at hs
  split at hs
  · rename_i i info pc
    have hw : s.market.newWorker.stage = .waiting i.executionId := by rw [pc]; rfl
    split at hs
    · rename_i hpc
      cases hs
      rw [pc, hpc] at hok
      obtain ⟨id, hid, front⟩ := hok
      cases hid
      have hm : s.market.newWorkerStep =
          some { s.market with mutex := s.market.mutex.lock, newWorker := .checking i info } := by
        simp only [Market.newWorkerStep, pc, hser.canLock (.inl hw) front, if_true]
      exact ⟨⟨(hmove hm).1, trivial, (hmove hm).2⟩, .inr hm⟩
    · cases hs
    · cases hs
      refine ⟨⟨h.market, ?_, h.cancelPc⟩, .inl rfl⟩
      rw [pc] at hok ⊢
      exact hok.read hser (.inl hw) _
  · rename_i id es pc
    split at hs
    · obtain ⟨m, hm, rfl⟩ := Option.map_eq_some_iff.1 hs
      exact ⟨⟨(hmove hm).1, trivial, (hmove hm).2⟩, .inr hm⟩
    · cases hs
      refine ⟨⟨h.market, ?_, h.cancelPc⟩, .inl rfl⟩
      rw [pc]
      exact rfl
  · rename_i hwait hunlock
    obtain ⟨m, hm, rfl⟩ := Option.map_eq_some_iff.1 hs
    obtain ⟨hun, hstage⟩ := NewWorkerPc.away hwait hunlock
    rw [hun] at hok
    refine ⟨⟨(hmove hm).1, ?_, (hmove hm).2⟩, .inr hm⟩
    rw [hok.eq_empty hstage]
    trivial

theorem Inv.cancelWorkerStep (h : Inv name s) (hs : s.cancelWorkerStep = some s') (x : ExecId)
    (t : Int) : Inv name s' ∧
      (s'.market = s.market ∨ s.market.step (.run .cancelWorker x t) = some s'.market) := by
  have hser := Market.serial_of_reachable h.market
  have hmove : ∀ {m : Market α}, s.market.cancelWorkerStep = some m →
      m.Reachable name ∧ s.newPc.Ok m m.newWorker.stage m.newWorker.unlocking :=
    fun hm => ⟨h.market.next (i := .run .cancelWorker x t) trivial hm,
      h.newPc_step (a := .run .cancelWorker x t) hm (by simp)⟩
  have hok := h.cancelPc
  unfold SpinMarket.cancelWorkerStep at hs
  split at hs
  · rename_i i pc
    have hw : s.market.cancelWorker.stage = .waiting i.executionId := by rw [pc]; rfl
    split at hs
    · rename_i hpc
      cases hs
      rw [pc, hpc] at hok
      obtain ⟨id, hid, front⟩ := hok
      cases hid
      have hm : s.market.cancelWorkerStep =
          some { s.market with mutex := s.market.mutex.lock, cancelWorker := .checking i } := by
        simp only [Market.cancelWorkerStep, pc, hser.canLock (.inr hw) front, if_true]
      exact ⟨⟨(hmove hm).1, (hmove hm).2, trivial⟩, .inr hm⟩
    · cases hs
    · cases hs
      refine ⟨⟨h.market, h.newPc, ?_⟩, .inl rfl⟩
      rw [pc] at hok ⊢
      exact hok.read hser (.inr hw) _
  · rename_i id es pc
    split at hs
    · obtain ⟨m, hm, rfl⟩ := Option.map_eq_some_iff.1 hs
      exact ⟨⟨(hmove hm).1, (hmove hm).2, trivial⟩, .inr hm⟩
    · cases hs
      refine ⟨⟨h.market, h.newPc, ?_⟩, .inl rfl⟩
      rw [pc]
      exact rfl
  · rename_i hwait hunlock
    obtain ⟨m, hm, rfl⟩ := Option.map_eq_some_iff.1 hs
    obtain ⟨hun, hstage⟩ := CancelWorkerPc.away hwait hunlock
    rw [hun] at hok
    refine ⟨⟨(hmove hm).1, (hmove hm).2, ?_⟩, .inr hm⟩
    rw [hok.eq_empty hstage]
    trivial

theorem Inv.step (h : Inv name s) {a : Action α} (hs : s.step a = some s') :
    Inv name s' ∧ (s'.market = s.market ∨ s.market.step a = some s'.market) := by
  have hother : ∀ {a : Action α}, (∀ x t, a ≠ .run .newWorker x t) →
      (∀ x t, a ≠ .run .cancelWorker x t) →
      (s.market.step a).map (fun market => { s with market }) = some s' →
      Inv name s' ∧ (s'.market = s.market ∨ s.market.step a = some s'.market) := by
    intro a hn hc hs
    obtain ⟨m, hm, rfl⟩ := Option.map_eq_some_iff.1 hs
    exact ⟨⟨h.market.next trivial hm, h.newPc_step hm hn, h.cancelPc_step hm hc⟩, .inr hm⟩
  cases a with
  | session | route => exact hother (by simp) (by simp) hs
  | run thread x t =>
    cases thread with
    | newWorker => exact h.newWorkerStep hs x t
    | cancelWorker => exact h.cancelWorkerStep hs x t
    | _ => exact hother (by simp) (by simp) hs

theorem inv_of_reachable (h : Reachable name s) : Inv name s :=
  h.invariant (.new name) fun _ _ _ hI _ hs => (hI.step hs).1

end SpinMarket

/-! ## Sections -/

namespace Market

variable [Field α] [LinearOrder α] {m m' : Market α} {id : ExecId} {x : ExecId} {now : Int}

/-- The NewOrder worker enters with its ticket at the front, and changes the book only inside. -/
theorem newWorker_section (hb : Base m) (hs : Step m (.run .newWorker x now) m') :
    (∀ id, m'.critical .newWorker = some id → m.critical .newWorker = some id ∨
      m.mutex.queue.head? = some id ∧ m.holder = none) ∧
    (m'.ob ≠ m.ob → ∃ id, m.critical .newWorker = some id) := by
  have hb' := hb.step hs
  cases hs with
  | newWorkerPop i rest info pc queue value =>
    exact ⟨fun id h => (by cases h), fun h => absurd rfl h⟩
  | newWorkerLock i info pc can =>
    obtain ⟨front, free⟩ := QueueMutex.canLock_iff.1 can
    refine ⟨fun id h => ?_, fun h => absurd rfl h⟩
    cases h
    exact .inr ⟨front, hb.holder_none free⟩
  | newWorkerCheck i info pc =>
    refine ⟨fun id h => .inl ?_, fun _ => ⟨i.executionId, by simp only [critical, pc]; rfl⟩⟩
    simp only [critical, pc, NewWorkerPc.stage, NewOrder.stageOf_orderProcessing] at h ⊢
    exact h
  | newWorkerEffect e es m1 pc done =>
    have hc : m.critical .newWorker = held (stageOf (e :: es)) := by
      simp only [critical, pc]
      rfl
    rw [hc]
    obtain ⟨name, i, info, -, ⟨rfl, rfl, -⟩ | ⟨rfl, rfl, -⟩ | ⟨rfl, hes⟩ | ⟨r, -, rfl, rfl⟩⟩ :=
      hb.newWorker_next pc
    · cases done
      exact ⟨fun id h => .inl h, fun h => absurd rfl h⟩
    · exact ⟨fun id h => .inl h, fun _ => ⟨i.executionId, rfl⟩⟩
    · cases done
      refine ⟨fun id h => ?_, fun h => absurd rfl h⟩
      rcases hes with rfl | ⟨r, -, rfl⟩ <;> cases h
    · cases done
      exact ⟨fun id h => .inl h, fun h => absurd rfl h⟩
  | newWorkerThrow | newWorkerFault => exact hb'.newWorker.elim

theorem cancelWorker_section (hb : Base m) (hs : Step m (.run .cancelWorker x now) m') :
    (∀ id, m'.critical .cancelWorker = some id → m.critical .cancelWorker = some id ∨
      m.mutex.queue.head? = some id ∧ m.holder = none) ∧
    (m'.ob ≠ m.ob → ∃ id, m.critical .cancelWorker = some id) := by
  have hb' := hb.step hs
  cases hs with
  | cancelWorkerPop i rest pc queue => exact ⟨fun id h => (by cases h), fun h => absurd rfl h⟩
  | cancelWorkerLock i pc can =>
    obtain ⟨front, free⟩ := QueueMutex.canLock_iff.1 can
    refine ⟨fun id h => ?_, fun h => absurd rfl h⟩
    cases h
    exact .inr ⟨front, hb.holder_none free⟩
  | cancelWorkerCheck i qty v pc value check =>
    refine ⟨fun id h => .inl ?_, fun h => absurd rfl h⟩
    simp only [critical, pc, CancelWorkerPc.stage, Cancel.stageOf_orderProcessing] at h ⊢
    exact h
  | cancelWorkerEffect e es m1 pc done =>
    have hc : m.critical .cancelWorker = held (stageOf (e :: es)) := by
      simp only [critical, pc]
      rfl
    rw [hc]
    obtain ⟨name, i, -, ⟨order, qty, rfl, rfl, -, -⟩ | ⟨order, rfl, rfl⟩ | ⟨order, rfl, rfl⟩ |
      ⟨orderId, reason, text, ⟨rfl, rfl⟩ | ⟨rfl, rfl⟩⟩⟩ := hb.cancelWorker_next pc
    · exact ⟨fun id h => .inl h, fun _ => ⟨i.executionId, rfl⟩⟩
    all_goals
      cases done
      refine ⟨fun id h => ?_, fun h => absurd rfl h⟩
      first
        | exact .inl h
        | cases h
  | cancelWorkerThrow | cancelWorkerFault => exact hb'.cancelWorker.elim

theorem section_step (hb : Base m) {a : Action α} (hs : Step m a m') :
    (∀ t id, m'.critical t = some id → m.critical t = some id ∨
      m.mutex.queue.head? = some id ∧ m.holder = none) ∧
    ∀ t x now, a = .run t x now → t = .newWorker ∨ t = .cancelWorker → m'.ob ≠ m.ob →
      ∃ id, m.critical t = some id := by
  refine ⟨fun t id h => ?_, ?_⟩
  · cases t with
    | newWorker =>
      by_cases ha : ∃ x t, a = .run .newWorker x t
      · obtain ⟨x, t, rfl⟩ := ha
        exact (newWorker_section hb hs).1 id h
      · left
        simp only [critical] at h ⊢
        rwa [hs.newWorker_eq fun x t he => ha ⟨x, t, he⟩] at h
    | cancelWorker =>
      by_cases ha : ∃ x t, a = .run .cancelWorker x t
      · obtain ⟨x, t, rfl⟩ := ha
        exact (cancelWorker_section hb hs).1 id h
      · left
        simp only [critical] at h ⊢
        rwa [hs.cancelWorker_eq fun x t he => ha ⟨x, t, he⟩] at h
    | _ => cases h
  · rintro t x now rfl (rfl | rfl) hob
    · exact (newWorker_section hb hs).2 hob
    · exact (cancelWorker_section hb hs).2 hob

end Market

namespace SpinMarket

variable [Field α] [LinearOrder α]

/-- **Serialization.** The critical sections of the two workers exclude each other and come in the
order of the allowed tickets, none missing but finished ones. An unlock pops the ticket of its worker,
a finish takes out its own ticket only. A step is one of `QueueLock` or leaves the lock alone, a
worker enters its section with its ticket at the front and nobody in a section, and changes the book
only inside. A worker that reads the front of an empty queue waits with a finished ticket. -/
theorem serialized {name : String} {s : SpinMarket α} (h : Reachable name s) :
    (∀ t t' id id', s.market.critical t = some id → s.market.critical t' = some id' → t = t') ∧
    s.market.sections <+: s.market.allowed.filter (· ∉ s.market.finished) ∧
    (∀ u ∈ s.market.unlocked, u.popped = some u.worker) ∧
    (∀ id, (s.market.mutex.finish id).queue = s.market.mutex.queue.filter (· ≠ id)) ∧
    (s.newPc = .undefined → ∃ id, s.market.newWorker.stage = .waiting id ∧ id ∈ s.market.finished) ∧
    (s.cancelPc = .undefined →
      ∃ id, s.market.cancelWorker.stage = .waiting id ∧ id ∈ s.market.finished) ∧
    ∀ a s', s.step a = some s' →
      (s'.market.queueLock = s.market.queueLock ∨
        QueueLock.Step s.market.queueLock s'.market.queueLock) ∧
      (∀ t id, s'.market.critical t = some id → s.market.critical t = some id ∨
        s.market.mutex.queue.head? = some id ∧ s.market.holder = none) ∧
      ∀ t x now, a = .run t x now → t = .newWorker ∨ t = .cancelWorker →
        s'.market.ob ≠ s.market.ob → ∃ id, s.market.critical t = some id := by
  have hinv := inv_of_reachable h
  have hb := Market.base_of_run hinv.market
  have hser := Market.serial_of_reachable hinv.market
  refine ⟨?_, ?_, ?_, ?_, ?_, ?_, ?_⟩
  · intro t t' id id' ht ht'
    rcases hb.alone with hn | hn <;> cases t <;> cases t' <;>
      first
        | rfl
        | cases ht
        | cases ht'
        | simp [hn] at ht
        | simp [hn] at ht'
  · rw [← Market.Serial.sections_eq]
    exact hser.lock.sections_prefix
  · intro u hu
    exact hser.lock.own (u.worker, u.popped) (List.mem_map.2 ⟨u, hu, rfl⟩)
  · exact fun id => QueueMutex.finish_queue hser.lock.queue_nodup
  · intro hpc
    have hok := hinv.newPc
    rwa [hpc] at hok
  · intro hpc
    have hok := hinv.cancelPc
    rwa [hpc] at hok
  · intro a s' hs
    rcases (hinv.step hs).2 with he | hm
    · rw [he]
      exact ⟨.inl rfl, fun t id h => .inl h, fun t x now _ _ hob => absurd rfl hob⟩
    · have ht := Market.step_sound hm
      exact ⟨hser.queueLock_step hb ht, Market.section_step hb ht⟩

/-- A sell order and its cancel: the Cancel worker spins while the NewOrder worker is in its section,
and then enters its own. -/
def serialRun : List (Action ℚ) :=
  [.session [0] fun _ => "A",
    .route (.newOrder ⟨0, 0, "n1", ⟨1, 'D'⟩, ⟨"s1", .sell, some 10, .limit, some 5⟩⟩)] ++
  Market.runs .router 2 ++ Market.runs .newUnit 2 ++ Market.runs .newWorker 6 ++
  [.route (.cancel ⟨0, 0, "c1", ⟨2, 'F'⟩, ⟨"s1", "x1", .sell, some 5⟩⟩)] ++ Market.runs .router 2 ++
  Market.runs .newWorker 2 ++ Market.runs .cancelUnit 5 ++ Market.runs .cancelWorker 4 ++
  Market.runs .newWorker 2 ++ Market.runs .cancelWorker 4

theorem serialized_run : ∃ s : SpinMarket ℚ,
    s.market.sections = ["n1", "c1"] ∧ s.market.finished = [] ∧
    s.market.critical .cancelWorker = some "c1" ∧
    (∀ t id, s.market.critical t = some id → t = .cancelWorker) ∧
    s.market.sections <+: s.market.allowed := by
  have h : (Trans.exec step (fun _ _ => True) (SpinMarket.new "AAPL") serialRun).map (fun s =>
      (s.market.sections, s.market.finished, s.market.critical .cancelWorker)) =
      some (["n1", "c1"], [], some "c1") := by decide +kernel
  obtain ⟨s, hs, h⟩ := Option.map_eq_some_iff.1 h
  simp only [Prod.mk.injEq] at h
  obtain ⟨hsec, hfin, hcrit⟩ := h
  obtain ⟨hex, hpre, -⟩ := serialized (.of_exec .start hs)
  exact ⟨s, hsec, hfin, hcrit, fun t id ht => hex t _ id _ ht hcrit, by simpa [hfin] using hpre⟩

end SpinMarket

end Fix42
