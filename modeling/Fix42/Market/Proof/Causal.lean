import Fix42.Market.Proof.Base
import Fix42.Market.Proof.Life

/-!
# Reports in causal order

`Causal m`: the life of all orders as far as it has been or will be told, the submissions still to be
answered, and the shape of the reports about each. It is kept by every step when no order of negative
quantity is routed (`Causal.step`), and gives `reports_in_order`. `reports_disordered` shows what the
queues allow: fills reported after the cancel.
-/

namespace Fix42

variable {α : Type*}

/-- A report after the answer to the submission. -/
def OrderStatus.isLater (s : OrderStatus) : Bool := s.isFill || s.isPending || s.isCanceled

theorem OrderStatus.isFill.later {s : OrderStatus} (h : s.isFill = true) :
    s.isLater = true ∧ s.isPending = false ∧ s.isCanceled = false := by
  cases s <;> first | exact ⟨rfl, rfl, rfl⟩ | cases h

/-- The order has been acknowledged. -/
def Acked (rs : List (ExecutionReport α)) : Prop := ∃ r ∈ rs, r.execType = .newOrder

/-- Nothing, a rejection, or an acknowledgement followed by later reports. -/
def Shape [Zero α] (rs : List (ExecutionReport α)) : Prop :=
  rs = [] ∨ (∃ r, rs = [r] ∧ r.execType = .rejected) ∨
    ∃ ack rest, rs = ack :: rest ∧ ack.execType = .newOrder ∧ ack.cumQty = 0 ∧
      ∀ r ∈ rest, r.execType.isLater = true

theorem Shape.later [Zero α] {rs : List (ExecutionReport α)} {r : ExecutionReport α} (h : Shape rs)
    (ha : Acked rs) (hr : r.execType.isLater = true) : Shape (rs ++ [r]) := by
  obtain ⟨a, ha, hnew⟩ := ha
  rcases h with rfl | ⟨r', rfl, hrej⟩ | ⟨ack, rest, rfl, hack, hcum, hrest⟩
  · cases ha
  · rw [List.mem_singleton.1 ha, hrej] at hnew
    cases hnew
  · refine .inr (.inr ⟨ack, rest ++ [r], rfl, hack, hcum, fun r' hr' => ?_⟩)
    rcases List.mem_append.1 hr' with hr' | hr'
    · exact hrest r' hr'
    · exact List.mem_singleton.1 hr' ▸ hr

theorem Acked.ne_nil {rs : List (ExecutionReport α)} (h : Acked rs) : rs ≠ [] := by
  rintro rfl
  obtain ⟨r, hr, -⟩ := h
  cases hr

theorem Acked.append {rs rs' : List (ExecutionReport α)} (h : Acked rs) : Acked (rs ++ rs') := by
  obtain ⟨r, hr, hnew⟩ := h
  exact ⟨r, List.mem_append_left _ hr, hnew⟩

/-! ## One report -/

theorem Output.mark_execution {p : OrderStatus → Bool} {out : Output α} {s : ExecId}
    {r : ExecutionReport α} (about : out.about = some s) (report : out.report = .execution r) :
    out.mark p = if p r.execType then some ⟨s, r.cumQty, r.leavesQty⟩ else none := by
  simp [Output.mark, about, report]

theorem Output.reportAbout_execution {out : Output α} {s : ExecId} {r : ExecutionReport α}
    (about : out.about = some s) (report : out.report = .execution r) (s' : ExecId) :
    out.reportAbout s' = if s = s' then some r else none := by
  simp [Output.reportAbout, about, report]

theorem Output.of_reportAbout {out : Output α} {s : ExecId} {r : ExecutionReport α}
    (h : out.reportAbout s = some r) : out.report = .execution r ∧ out.about = some s := by
  unfold Output.reportAbout at h
  split at h
  · rename_i r' hr
    split at h
    · rename_i ha
      exact ⟨by rw [hr, Option.some.inj h], ha⟩
    · cases h
  · cases h

theorem Output.IsReject.mark {out : Output α} (h : out.IsReject) (p : OrderStatus → Bool) :
    out.mark p = none := by
  have ha : out.about = none := h
  simp [Output.mark, ha]

theorem Output.IsReject.reportAbout {out : Output α} (h : out.IsReject) (s : ExecId) :
    out.reportAbout s = none := by
  have ha : out.about = none := h
  unfold Output.reportAbout
  split <;> simp [ha]

namespace Market

variable [Field α] [LinearOrder α]

/-- What is known of the orders of a market. -/
def known (m : Market α) : List ExecId := touched m.ob.resting m.fills m.snaps m.cancels

/-- The invariant (module doc). -/
structure Causal (m : Market α) : Prop where
  life : Life m.ob.resting m.fills m.snaps m.cancels
  kinds : ∀ e ∈ m.events, e.execStatus.isFill = true
  acked : ∀ s ∈ m.known, Acked (m.reportsAbout s)
  infos : ∀ info ∈ m.newWorker.infos, 0 ≤ info.order.originalQty ∧ info.order.submission ∉ m.known ∧
    (Acked (m.reportsAbout info.order.submission) ∨
      info.order.submission ∈ m.newWorker.unanswered)
  nodup : m.unanswered.Nodup
  silent : ∀ s ∈ m.unanswered, s ∈ m.routedNew ∧ m.reportsAbout s = []
  routed : ∀ s, m.reportsAbout s ≠ [] → s ∈ m.routedNew
  quantities : ∀ i ∈ m.newRequests, ∀ qty ∈ i.message.orderQty, 0 ≤ qty
  shape : ∀ s, Shape (m.reportsAbout s)

/-- Steps that tell no news of unknown orders. -/
theorem Causal.keep {m m' : Market α} (h : Causal m)
    (reports : ∀ s, m'.reportsAbout s = m.reportsAbout s ∨
      ∃ r, m'.reportsAbout s = m.reportsAbout s ++ [r] ∧ r.execType.isLater = true ∧ s ∈ m.known)
    (resting : m'.ob.resting = m.ob.resting) (fills : m'.fills.Sublist m.fills)
    (snaps : m'.snaps ⊆ m.snaps) (cancels : m'.cancels = m.cancels) (events : m'.events ⊆ m.events)
    (infos : m'.newWorker.infos ⊆ m.newWorker.infos)
    (worker : m'.newWorker.unanswered = m.newWorker.unanswered)
    (requests : m'.newRequests.Sublist m.newRequests) (routed : m'.routedNew = m.routedNew) :
    Causal m' := by
  have hknown : m'.known ⊆ m.known := fun s hs => by
    simp only [known, touched, List.map_append, List.mem_append, resting, cancels] at hs ⊢
    rcases hs with hs | (hs | hs) | hs
    · exact .inl hs
    · exact .inr (.inl (.inl ((fills.map _).subset hs)))
    · obtain ⟨a, ha, rfl⟩ := List.mem_map.1 hs
      exact .inr (.inl (.inr (List.mem_map.2 ⟨a, snaps ha, rfl⟩)))
    · exact .inr (.inr hs)
  have hacked : ∀ s, Acked (m.reportsAbout s) → Acked (m'.reportsAbout s) := fun s ha => by
    rcases reports s with he | ⟨r, he, -⟩
    · rw [he]
      exact ha
    · rw [he]
      exact ha.append
  have hun : m'.unanswered.Sublist m.unanswered := by
    rw [unanswered, unanswered, worker]
    exact (requests.map _).append_left _
  refine ⟨?_, fun e he => h.kinds e (events he), fun s hs => hacked s (h.acked s (hknown hs)),
    fun info hi => ?_, h.nodup.sublist hun, fun s hs => ?_, fun s hs => ?_,
    fun i hi => h.quantities i (requests.subset hi), fun s => ?_⟩
  · rw [resting, cancels]
    exact h.life.sublist fills snaps
  · obtain ⟨h1, h2, h3⟩ := h.infos info (infos hi)
    exact ⟨h1, fun hk => h2 (hknown hk), worker ▸ h3.imp_left (hacked _)⟩
  · obtain ⟨h1, h2⟩ := h.silent s (hun.subset hs)
    refine ⟨routed ▸ h1, ?_⟩
    rcases reports s with he | ⟨r, -, -, hk⟩
    · rw [he, h2]
    · exact absurd h2 (h.acked s hk).ne_nil
  · rw [routed]
    rcases reports s with he | ⟨r, -, -, hk⟩
    · exact h.routed s (he ▸ hs)
    · exact h.routed s (h.acked s hk).ne_nil
  · rcases reports s with he | ⟨r, he, hr, hk⟩
    · rw [he]
      exact h.shape s
    · rw [he]
      exact (h.shape s).later (h.acked s hk) hr

/-- The NewOrder worker's answer to a submission. -/
theorem Causal.answer {m m' : Market α} {s : ExecId} {r : ExecutionReport α} (h : Causal m)
    (worker : m.newWorker.unanswered = [s]) (worker' : m'.newWorker.unanswered = [])
    (kind : r.execType = .newOrder ∧ r.cumQty = 0 ∨ r.execType = .rejected)
    (infos : ∀ info ∈ m'.newWorker.infos,
      info ∈ m.newWorker.infos ∧ info.order.submission = s ∧ r.execType = .newOrder)
    (self : m'.reportsAbout s = m.reportsAbout s ++ [r])
    (others : ∀ s' ≠ s, m'.reportsAbout s' = m.reportsAbout s')
    (resting : m'.ob.resting = m.ob.resting) (fills : m'.fills = m.fills)
    (snaps : m'.snaps = m.snaps) (cancels : m'.cancels = m.cancels) (events : m'.events = m.events)
    (requests : m'.newRequests = m.newRequests) (routed : m'.routedNew = m.routedNew) :
    Causal m' := by
  have hknown : m'.known = m.known := by rw [known, known, resting, fills, snaps, cancels]
  have hnd := h.nodup
  have hsil : ∀ s' ∈ m.unanswered, _ := h.silent
  simp only [unanswered, worker, List.singleton_append] at hnd hsil
  obtain ⟨hs, hnd⟩ := List.nodup_cons.1 hnd
  obtain ⟨hrouted, hself⟩ := hsil s (by simp)
  rw [hself, List.nil_append] at self
  have hun : m'.unanswered = m.newRequests.map Context.executionId := by
    rw [unanswered, worker', requests, List.nil_append]
  refine ⟨?_, fun e he => h.kinds e (events ▸ he), fun s' hs' => ?_, fun info hi => ?_, hun ▸ hnd,
    fun s' hs' => ?_, fun s' hs' => ?_, fun i hi => h.quantities i (requests ▸ hi), fun s' => ?_⟩
  · rw [resting, fills, snaps, cancels]
    exact h.life
  · rw [hknown] at hs'
    have ha := h.acked s' hs'
    rw [others s' fun he => ha.ne_nil (he ▸ hself)]
    exact ha
  · obtain ⟨hm, rfl, hnew⟩ := infos info hi
    obtain ⟨h1, h2, -⟩ := h.infos info hm
    exact ⟨h1, hknown ▸ h2, .inl ⟨r, by simp [self], hnew⟩⟩
  · rw [hun] at hs'
    rw [others s' fun he => hs (he ▸ hs'), routed]
    exact hsil s' (List.mem_cons_of_mem _ hs')
  · rw [routed]
    by_cases he : s' = s
    · exact he ▸ hrouted
    · exact h.routed s' (others s' he ▸ hs')
  · by_cases he : s' = s
    · rw [he, self]
      rcases kind with ⟨hnew, hcum⟩ | hrej
      · exact .inr (.inr ⟨r, [], rfl, hnew, hcum, by simp⟩)
      · exact .inr (.inl ⟨r, rfl, hrej⟩)
    · rw [others s' he]
      exact h.shape s'

/-- The NewOrder worker adds an order it has acknowledged. -/
theorem Causal.add [IsStrictOrderedRing α] {m m' : Market α} {info : OrderInfo α} {ob' : OrderBook α}
    (h : Causal m) (worker : m.newWorker.unanswered = []) (worker' : m'.newWorker.unanswered = [])
    (infos : info ∈ m.newWorker.infos) (infos' : m'.newWorker.infos = [])
    (hs : info.order.side.supported = true) (hq : info.order.remainQty = info.order.originalQty)
    (hadd : m.ob.add info = .ok ob') (ob : m'.ob = ob') (output : m'.output = m.output)
    (snaps : m'.snaps = m.snaps) (cancels : m'.cancels = m.cancels)
    (queues : m'.poolWorker = m.poolWorker ∧ m'.poolQueue = m.poolQueue ∧ m'.eventUnit = m.eventUnit)
    (requests : m'.newRequests = m.newRequests) (routed : m'.routedNew = m.routedNew) :
    Causal m' := by
  subst ob
  obtain ⟨h0, hnew, hacked⟩ := h.infos info infos
  rw [worker] at hacked
  obtain ⟨hq1, hq2, hq3⟩ := queues
  -- everything told so far but the book's own queue
  have hfills : ∀ n : Market α, n.fills = (n.output.filterMap (Output.mark OrderStatus.isFill) ++
      (n.poolWorker.toList ++ n.poolQueue ++ n.eventUnit.toList).map fun e => e.order.mark) ++
        n.ob.eventOutput.map fun e => e.order.mark := fun n => by
    simp only [Market.fills, events, List.map_append, List.append_assoc]
  have hlife := h.life
  have hold := hnew
  rw [known] at hold
  rw [hfills] at hlife hold
  obtain ⟨hlife', hsub, hkinds⟩ := hlife.add hs hq h0 hold hadd
  have hreports : ∀ s, m'.reportsAbout s = m.reportsAbout s := fun s => by
    rw [reportsAbout, output, reportsAbout]
  have hknown : m'.known ⊆ info.order.submission :: m.known := by
    rw [known, known, hfills m', hfills m, output, hq1, hq2, hq3, snaps, cancels]
    exact hsub
  have hun : m'.unanswered = m.unanswered := by
    rw [unanswered, unanswered, worker', worker, requests]
  refine ⟨?_, fun e he => ?_, fun s hs => ?_, by simp [infos'], hun ▸ h.nodup, fun s hs => ?_,
    fun s hs => ?_, fun i hi => h.quantities i (requests ▸ hi), fun s => hreports s ▸ h.shape s⟩
  · rw [hfills m', output, hq1, hq2, hq3, snaps, cancels]
    exact hlife'
  · have hmem : ∀ e' ∈ m.events, e'.execStatus.isFill = true := h.kinds
    rw [events, hq1, hq2, hq3] at he
    rcases List.mem_append.1 he with he | he
    · exact hmem e (List.mem_append_left _ he)
    · rcases hkinds e he with he | he
      · exact hmem e (List.mem_append_right _ he)
      · exact he
  · rw [hreports]
    rcases List.mem_cons.1 (hknown hs) with rfl | hs
    · exact hacked.resolve_right (by simp)
    · exact h.acked s hs
  · rw [hreports, routed]
    exact h.silent s (hun ▸ hs)
  · rw [routed]
    exact h.routed s (hreports s ▸ hs)

/-! ## Steps that tell nothing -/

omit [Field α] in
theorem reportsAbout_append {m m' : Market α} {out : Output α} (h : m'.output = m.output ++ [out])
    (s : ExecId) : m'.reportsAbout s = m.reportsAbout s ++ (out.reportAbout s).toList := by
  rw [reportsAbout, h, List.filterMap_append, reportsAbout]
  cases hr : out.reportAbout s <;> simp [hr]

omit [Field α] [LinearOrder α] in
theorem marks_append {out : Output α} {l l' : List (Output α)} (p : OrderStatus → Bool)
    (h : l' = l ++ [out]) :
    l'.filterMap (Output.mark p) = l.filterMap (Output.mark p) ++ (out.mark p).toList := by
  rw [h, List.filterMap_append]
  cases hr : out.mark p <;> simp [hr]

/-- A step that reports at most a reject. -/
theorem Causal.quiet {m m' : Market α} (h : Causal m)
    (output : m'.output = m.output ∨ ∃ out, out.IsReject ∧ m'.output = m.output ++ [out])
    (resting : m'.ob.resting = m.ob.resting) (events : m'.events.Sublist m.events)
    (snaps : m'.cancelUnit.snaps ⊆ m.cancelUnit.snaps)
    (cancels : m'.cancelWorker.cancels = m.cancelWorker.cancels)
    (infos : m'.newWorker.infos ⊆ m.newWorker.infos)
    (worker : m'.newWorker.unanswered = m.newWorker.unanswered)
    (requests : m'.newRequests.Sublist m.newRequests) (routed : m'.routedNew = m.routedNew) :
    Causal m' := by
  have hmarks : ∀ p, m'.output.filterMap (Output.mark p) = m.output.filterMap (Output.mark p) := by
    rcases output with he | ⟨out, hrej, he⟩
    · exact fun p => by rw [he]
    · exact fun p => by rw [marks_append p he, hrej.mark, Option.toList_none, List.append_nil]
  refine h.keep (fun s => .inl ?_) resting ?_ ?_ ?_ events.subset infos worker requests routed
  · rcases output with he | ⟨out, hrej, he⟩
    · rw [reportsAbout, he, reportsAbout]
    · rw [reportsAbout_append he, hrej.reportAbout, Option.toList_none, List.append_nil]
  · rw [fills, fills, hmarks]
    exact (events.map _).append_left _
  · rw [Market.snaps, Market.snaps, hmarks]
    exact List.append_subset.2 ⟨List.subset_append_left _ _,
      List.Subset.trans snaps (List.subset_append_right _ _)⟩
  · rw [Market.cancels, Market.cancels, hmarks, cancels]

/-- A later report about an order that is known, where its mark was already counted. -/
theorem Causal.tell {m m' : Market α} (h : Causal m) {out : Output α} {s : ExecId}
    {r : ExecutionReport α} (output : m'.output = m.output ++ [out]) (about : out.about = some s)
    (report : out.report = .execution r) (later : r.execType.isLater = true) (hs : s ∈ m.known)
    (ob : m'.ob.resting = m.ob.resting) (fills : m'.fills = m.fills) (snaps : m'.snaps = m.snaps)
    (cancels : m'.cancels = m.cancels) (events : m'.events ⊆ m.events)
    (worker : m'.newWorker = m.newWorker) (requests : m'.newRequests = m.newRequests)
    (routed : m'.routedNew = m.routedNew) : Causal m' := by
  refine h.keep (fun s' => ?_) ob (fills ▸ .refl _) (snaps ▸ List.Subset.refl _) cancels events
    (worker ▸ List.Subset.refl _) (by rw [worker]) (requests ▸ .refl _) routed
  rw [reportsAbout_append output, Output.reportAbout_execution about report]
  by_cases he : s = s'
  · exact .inr ⟨r, by simp [he], later, he ▸ hs⟩
  · exact .inl (by simp [he])

/-! ## Steps that learn something -/

/-- A step that reports nothing and learns only of known orders. -/
theorem Causal.learn {m m' : Market α} (h : Causal m) (output : m'.output = m.output)
    (life : Life m'.ob.resting m'.fills m'.snaps m'.cancels) (known : m'.known ⊆ m.known)
    (events : m'.events = m.events) (worker : m'.newWorker = m.newWorker)
    (requests : m'.newRequests = m.newRequests) (routed : m'.routedNew = m.routedNew) :
    Causal m' := by
  have hreports : ∀ s, m'.reportsAbout s = m.reportsAbout s := fun s => by
    rw [reportsAbout, output, reportsAbout]
  have hun : m'.unanswered = m.unanswered := by rw [unanswered, unanswered, worker, requests]
  refine ⟨life, fun e he => h.kinds e (events ▸ he), fun s hs => ?_, fun info hi => ?_, hun ▸ h.nodup,
    fun s hs => ?_, fun s hs => ?_, fun i hi => h.quantities i (requests ▸ hi),
    fun s => hreports s ▸ h.shape s⟩
  · rw [hreports]
    exact h.acked s (known hs)
  · rw [worker] at hi
    obtain ⟨h1, h2, h3⟩ := h.infos info hi
    exact ⟨h1, fun hk => h2 (known hk), by rwa [hreports, worker]⟩
  · rw [hreports, routed]
    exact h.silent s (hun ▸ hs)
  · rw [routed]
    exact h.routed s (hreports s ▸ hs)

/-- The Cancel unit reads an order. -/
theorem Causal.snap {m m' : Market α} (h : Causal m) {x : α × Node α} (hx : x ∈ m.ob.resting)
    (output : m'.output = m.output) (ob : m'.ob = m.ob) (fills : m'.fills = m.fills)
    (snaps : m'.snaps = m.snaps ++ [x.2.order.mark]) (cancels : m'.cancels = m.cancels)
    (events : m'.events = m.events) (worker : m'.newWorker = m.newWorker)
    (requests : m'.newRequests = m.newRequests) (routed : m'.routedNew = m.routedNew) :
    Causal m' := by
  refine h.learn output ?_ (fun s hs => ?_) events worker requests routed
  · rw [ob, fills, snaps, cancels]
    exact h.life.snap hx
  · simp only [known, touched, ob, fills, snaps, cancels, List.map_append, List.mem_append,
      List.map_cons, List.map_nil, List.mem_singleton] at hs ⊢
    rcases hs with hs | (hs | hs | hs) | hs
    · exact .inl hs
    · exact .inr (.inl (.inl hs))
    · exact .inr (.inl (.inr hs))
    · exact .inl (List.mem_map.2 ⟨x, hx, hs.symm⟩)
    · exact .inr (.inr hs)

/-- The Cancel worker removes an order. -/
theorem Causal.cancel {m m' : Market α} (h : Causal m) {order : Order α}
    (hrem : Removes m.ob m'.ob order) (output : m'.output = m.output) (snaps : m'.snaps = m.snaps)
    (cancels : m'.cancels = m.cancels ++ [⟨order.submission, order.cumQty, 0⟩])
    (queues : m'.poolWorker = m.poolWorker ∧ m'.poolQueue = m.poolQueue ∧ m'.eventUnit = m.eventUnit)
    (worker : m'.newWorker = m.newWorker) (requests : m'.newRequests = m.newRequests)
    (routed : m'.routedNew = m.routedNew) : Causal m' := by
  obtain ⟨l, r, x, hbefore, hafter, rfl, hev⟩ := hrem.resting
  obtain ⟨hq1, hq2, hq3⟩ := queues
  have hevents : m'.events = m.events := by rw [events, events, hq1, hq2, hq3, hev]
  have hfills : m'.fills = m.fills := by rw [fills, fills, output, hevents]
  refine h.learn output ?_ (fun s hs => ?_) hevents worker requests routed
  · have hlife := h.life
    rw [hbefore] at hlife
    rw [hafter, hfills, snaps, cancels]
    exact hlife.cancel
  · simp only [known, touched, submissions, hbefore, hafter, hfills, snaps, cancels, List.map_append,
      List.map_cons, List.map_nil, List.mem_append, List.mem_cons, List.not_mem_nil, or_false]
      at hs ⊢
    tauto

/-- A new order is routed. -/
theorem Causal.route {m m' : Market α} (h : Causal m) {i : Context (NewOrderSingle α)}
    (fresh : i.executionId ∉ m.routedNew) (nonneg : ∀ qty ∈ i.message.orderQty, 0 ≤ qty)
    (output : m'.output = m.output) (ob : m'.ob = m.ob) (fills : m'.fills = m.fills)
    (snaps : m'.snaps = m.snaps) (cancels : m'.cancels = m.cancels) (events : m'.events = m.events)
    (worker : m'.newWorker = m.newWorker) (requests : m'.newRequests = m.newRequests ++ [i])
    (routed : m'.routedNew = m.routedNew ++ [i.executionId]) : Causal m' := by
  have hreports : ∀ s, m'.reportsAbout s = m.reportsAbout s := fun s => by
    rw [reportsAbout, output, reportsAbout]
  have hun : m'.unanswered = m.unanswered ++ [i.executionId] := by
    simp only [unanswered, worker, requests, List.map_append, List.map_cons, List.map_nil,
      List.append_assoc]
  have hknown : m'.known = m.known := by rw [known, known, ob, fills, snaps, cancels]
  refine ⟨?_, fun e he => h.kinds e (events ▸ he), fun s hs => ?_, fun info hi => ?_, ?_,
    fun s hs => ?_, fun s hs => ?_, fun j hj => ?_, fun s => hreports s ▸ h.shape s⟩
  · rw [ob, fills, snaps, cancels]
    exact h.life
  · rw [hreports]
    exact h.acked s (hknown ▸ hs)
  · rw [worker] at hi ⊢
    rw [hreports, hknown]
    exact h.infos info hi
  · rw [hun, List.nodup_append]
    refine ⟨h.nodup, List.nodup_singleton _, fun a ha b hb hab => fresh ?_⟩
    rw [List.mem_singleton.1 hb] at hab
    exact hab ▸ (h.silent a ha).1
  · rw [hreports, routed]
    rcases List.mem_append.1 (hun ▸ hs) with hs | hs
    · exact ⟨List.mem_append_left _ (h.silent s hs).1, (h.silent s hs).2⟩
    · rw [List.mem_singleton.1 hs]
      refine ⟨by simp, ?_⟩
      by_contra hne
      exact fresh (h.routed _ hne)
  · rw [routed]
    exact List.mem_append_left _ (h.routed s (hreports s ▸ hs))
  · rcases List.mem_append.1 (requests ▸ hj) with hj | hj
    · exact h.quantities j hj
    · exact List.mem_singleton.1 hj ▸ nonneg

/-! ## Every step -/

omit [LinearOrder α] [Field α] in
theorem queuedNew_onInput (i : Context (NewOrderSingle α)) :
    (queuedNew (NewOrder.onInput i)).Sublist [i] := by
  unfold NewOrder.onInput
  split
  · exact List.nil_sublist _
  · split
    · exact List.nil_sublist _
    · split <;> split <;>
        simp [queuedNew, NewOrder.notSupportedSide, NewOrder.notSupportedOrderType, NewOrder.reject]

omit [LinearOrder α] in
/-- What the NewOrder worker's program answers and adds. -/
theorem orderProcessing_view (name : String) {i : Context (NewOrderSingle α)} {info : OrderInfo α}
    (hb : NewOrder.Built i info) (v : Verdict) :
    (NewWorkerPc.running (NewOrder.orderProcessing name i info v)).unanswered = [i.executionId] ∧
      (NewWorkerPc.running (NewOrder.orderProcessing name i info v)).infos ⊆ [info] := by
  obtain ⟨-, userId, price, qty, -, rfl⟩ := hb.eq
  cases v with
  | accepted => exact ⟨rfl, List.Subset.refl _⟩
  | tickRefused | duplicate => exact ⟨rfl, List.nil_subset _⟩

/-- The NewOrder worker takes up a request. -/
theorem Causal.pop {m : Market α} (h : Causal m) {i : Context (NewOrderSingle α)}
    {rest : List (Context (NewOrderSingle α))} {info : OrderInfo α}
    (pc : m.newWorker = .running []) (queue : m.newQueue = i :: rest)
    (hb : NewOrder.Built i info) :
    Causal ({ m with newQueue := rest, newWorker := .waiting i info } : Market α) := by
  obtain ⟨-, userId, price, qty, hqty, rfl⟩ := hb.eq
  have hreq : m.newRequests = i :: ({ m with
      newQueue := rest
      newWorker := .waiting i
        (newOrderInfo userId i.executionId i.message.clOrdId price qty i.message.side) } :
      Market α).newRequests := by
    simp only [newRequests, queue, List.cons_append]
  have hun : ({ m with
      newQueue := rest
      newWorker := .waiting i
        (newOrderInfo userId i.executionId i.message.clOrdId price qty i.message.side) } :
      Market α).unanswered = m.unanswered := by
    simp only [unanswered, hreq, pc, List.map_cons]
    rfl
  have hsil : m.reportsAbout i.executionId = [] :=
    (h.silent _ (by rw [← hun]; exact List.mem_append_left _ (List.mem_singleton_self _))).2
  refine ⟨h.life, h.kinds, h.acked, fun info hi => ?_, hun ▸ h.nodup, hun ▸ h.silent, h.routed,
    fun j hj => h.quantities j (hreq ▸ List.mem_cons_of_mem _ hj), h.shape⟩
  rw [List.mem_singleton.1 hi]
  refine ⟨?_, fun hk => (h.acked _ hk).ne_nil hsil, .inr (List.mem_singleton_self _)⟩
  exact h.quantities i (by simp [hreq]) qty (by simp [hqty])

theorem Causal.newUnitEffect {m m1 : Market α} (h : Causal m) {e : Effect α} {es : List (Effect α)}
    (he : e.OfUnit Output.IsReject) (pc : m.newUnit = e :: es) (done : m.exec e = .ok m1) :
    Causal ({ m1 with newUnit := es } : Market α) := by
  have hreq : ∀ q : List (Context (NewOrderSingle α)), m.newRequests =
      m.newQueue ++ queuedNew (e :: es) ++ m.newInput ++ m.router.newOrders := fun _ => by
    rw [newRequests, pc]
  cases e with
  | finish id | finishAgain id | queueCancel i =>
    cases done
    refine h.quiet (.inl rfl) rfl (.refl _) (List.Subset.refl _) rfl (List.Subset.refl _) rfl ?_ rfl
    rw [hreq []]
    exact .refl _
  | append out =>
    cases done
    refine h.quiet (.inr ⟨out, he, rfl⟩) rfl (.refl _) (List.Subset.refl _) rfl (List.Subset.refl _)
      rfl ?_ rfl
    rw [hreq []]
    exact .refl _
  | queueNew i =>
    cases done
    refine h.quiet (.inl rfl) rfl (.refl _) (List.Subset.refl _) rfl (List.Subset.refl _) rfl ?_ rfl
    rw [hreq []]
    simp [newRequests, queuedNew]
  | unlock | add | cancel => cases he

theorem Causal.cancelUnitEffect {m m1 : Market α} (h : Causal m) {e : Effect α}
    {es : List (Effect α)} (he : e.OfUnit Output.OfCancelUnit) (hno : ∀ i, e ≠ .queueNew i)
    (pc : m.cancelUnit = .running (e :: es)) (done : m.exec e = .ok m1) :
    Causal ({ m1 with cancelUnit := .running es } : Market α) := by
  cases e with
  | finish id | finishAgain id | queueCancel i =>
    cases done
    refine h.quiet (.inl rfl) rfl (.refl _) ?_ rfl (List.Subset.refl _) rfl (.refl _) rfl
    rw [pc]
    exact List.Subset.refl _
  | append out =>
    cases done
    have hsnaps : m.snaps = m.output.filterMap (Output.mark OrderStatus.isPending) ++
        ((out.mark OrderStatus.isPending).toList ++ appended OrderStatus.isPending es) := by
      rw [snaps, pc]
      cases hm : out.mark OrderStatus.isPending <;> simp [CancelUnitPc.snaps, appended, hm]
    by_cases hrej : out.IsReject
    · refine h.quiet (.inr ⟨out, hrej, rfl⟩) rfl (.refl _) ?_ rfl (List.Subset.refl _) rfl (.refl _)
        rfl
      rw [pc]
      simp [CancelUnitPc.snaps, appended, hrej.mark]
    · obtain ⟨s, hs⟩ := Option.ne_none_iff_exists'.1 hrej
      obtain ⟨r, hr, hpend⟩ := he.resolve_left hrej
      have hmark : ∀ p, out.mark p = if p r.execType then some ⟨s, r.cumQty, r.leavesQty⟩ else none :=
        fun p => Output.mark_execution hs hr
      have hnone : ∀ p, p .pendingCancel = false → out.mark p = none := fun p hp => by
        rw [hmark, hpend, hp]
        rfl
      refine h.tell rfl hs hr (by rw [hpend]; rfl) ?_ rfl ?_ ?_ ?_
        (List.Subset.refl _) rfl rfl rfl
      · have hmem : (⟨s, r.cumQty, r.leavesQty⟩ : Mark α) ∈ m.snaps := by
          rw [hsnaps, hmark, hpend]
          simp [OrderStatus.isPending]
        simp only [known, touched, List.map_append, List.mem_append]
        exact .inr (.inl (.inr (List.mem_map.2 ⟨_, hmem, rfl⟩)))
      · simp only [fills, marks_append OrderStatus.isFill rfl, hnone OrderStatus.isFill rfl,
          Option.toList_none, List.append_nil]
        rfl
      · rw [hsnaps, snaps]
        simp only [marks_append OrderStatus.isPending rfl, List.append_assoc]
        rfl
      · simp only [cancels, marks_append OrderStatus.isCanceled rfl, hnone OrderStatus.isCanceled rfl,
          Option.toList_none, List.append_nil]
  | queueNew i => exact absurd rfl (hno i)
  | unlock | add | cancel => cases he

omit [Field α] [LinearOrder α] in
theorem answer_reportAbout (i : Context (NewOrderSingle α)) (info : OrderInfo α)
    (r : ExecutionReport α) (s : ExecId) :
    ((NewOrder.answer i info r).reportAbout s).toList =
      if info.order.submission = s then [r] else [] := by
  rw [Output.reportAbout_execution (s := info.order.submission) (r := r) rfl rfl]
  split <;> rfl

theorem Causal.newWorkerEffect [IsStrictOrderedRing α] {m m1 : Market α} (h : Causal m)
    (hb : Base m) {e : Effect α} {es : List (Effect α)} (pc : m.newWorker = .running (e :: es))
    (done : m.exec e = .ok m1) : Causal ({ m1 with newWorker := .running es } : Market α) := by
  have answered : ∀ {i : Context (NewOrderSingle α)} {info : OrderInfo α} {r : ExecutionReport α}
      {m' : Market α}, m.newWorker.unanswered = [info.order.submission] →
      m'.newWorker.unanswered = [] →
      (r.execType = .newOrder ∧ r.cumQty = 0 ∨ r.execType = .rejected) →
      (∀ info' ∈ m'.newWorker.infos, info' ∈ m.newWorker.infos ∧
        info'.order.submission = info.order.submission ∧ r.execType = .newOrder) →
      m'.output = m.output ++ [NewOrder.answer i info r] → m'.ob = m.ob → m'.events = m.events →
      m'.cancelUnit = m.cancelUnit → m'.cancelWorker = m.cancelWorker →
      m'.newRequests = m.newRequests → m'.routedNew = m.routedNew → Causal m' := by
    intro i info r m' hun hun' kind hinfos hout hob hev hcu hcw hreq hrouted
    have hmarks : ∀ p, p r.execType = false →
        m'.output.filterMap (Output.mark p) = m.output.filterMap (Output.mark p) := fun p hp => by
      rw [marks_append p hout, Output.mark_execution (s := info.order.submission) (r := r) rfl rfl, hp]
      simp
    have hkind : ∀ p : OrderStatus → Bool, p .newOrder = false → p .rejected = false →
        p r.execType = false := fun p h1 h2 => by
      rcases kind with ⟨hk, -⟩ | hk <;> rw [hk]
      · exact h1
      · exact h2
    refine h.answer hun hun' kind hinfos ?_ (fun s hs => ?_) (by rw [hob]) ?_ ?_ ?_ hev hreq hrouted
    · rw [reportsAbout_append hout, answer_reportAbout, if_pos rfl]
    · rw [reportsAbout_append hout, answer_reportAbout, if_neg (Ne.symm hs), List.append_nil]
    · rw [fills, fills, hev, hmarks _ (hkind _ rfl rfl)]
    · rw [snaps, snaps, hcu, hmarks _ (hkind _ rfl rfl)]
    · rw [cancels, cancels, hcw, hmarks _ (hkind _ rfl rfl)]
  obtain ⟨name, i, info, hbuilt, ⟨rfl, rfl, -⟩ | ⟨rfl, rfl, hid⟩ | ⟨rfl, hes⟩ | ⟨r, hrej, rfl, rfl⟩⟩ :=
    hb.newWorker_next pc
  · cases done
    refine answered (by rw [pc]; rfl) rfl (.inl ⟨rfl, rfl⟩) (fun info' hi => ?_) rfl rfl rfl rfl rfl
      rfl rfl
    rw [pc]
    obtain rfl := List.mem_singleton.1 hi
    exact ⟨hi, rfl, rfl⟩
  · obtain ⟨hs, userId, price, qty, -, hinfo⟩ := hbuilt.eq
    obtain ⟨ob', hok, -⟩ := hb.add hbuilt hid
    rw [exec_add hok] at done
    cases done
    exact h.add (by rw [pc]; rfl) rfl (by rw [pc]; exact List.mem_singleton_self _) rfl
      (hinfo ▸ hs) (by rw [hinfo]; rfl) hok rfl rfl rfl rfl ⟨rfl, rfl, rfl⟩ rfl rfl
  · cases done
    refine h.quiet (.inl rfl) rfl (.refl _) (List.Subset.refl _) rfl ?_ ?_ (.refl _) rfl
    · rw [pc]
      exact List.Subset.refl _
    · rw [pc]
      rfl
  · cases done
    exact answered (by rw [pc]; rfl) rfl (.inr hrej) (fun info' hi => by cases hi) rfl rfl rfl rfl rfl
      rfl rfl

theorem Causal.cancelWorkerEffect {m m1 : Market α} (h : Causal m) (hb : Base m) {e : Effect α}
    {es : List (Effect α)} (pc : m.cancelWorker = .running (e :: es)) (done : m.exec e = .ok m1) :
    Causal ({ m1 with cancelWorker := .running es } : Market α) := by
  obtain ⟨name, i, -, ⟨order, qty, rfl, rfl, -, hv⟩ | ⟨order, rfl, rfl⟩ | ⟨order, rfl, rfl⟩ |
    ⟨orderId, reason, text, ⟨rfl, rfl⟩ | ⟨rfl, rfl⟩⟩⟩ := hb.cancelWorker_next pc
  · obtain ⟨ob', hok, -, -, -, -, hrem⟩ := hb.rep.cancel_verified hv
    rw [exec_cancel hok] at done
    cases done
    refine h.cancel hrem rfl rfl ?_ ⟨rfl, rfl, rfl⟩ rfl rfl rfl
    rw [cancels, cancels, pc]
    simp [CancelWorkerPc.cancels, appended, Output.mark, Cancel.canceled, Cancel.answer,
      Cancel.report, OrderStatus.isCanceled]
  · cases done
    refine h.quiet (.inl rfl) rfl (.refl _) (List.Subset.refl _) ?_ (List.Subset.refl _) rfl (.refl _)
      rfl
    rw [pc]
    rfl
  · cases done
    have hmark : ∀ p, (Cancel.canceled name i order).mark p =
        if p .canceled then some ⟨order.submission, order.cumQty, 0⟩ else none := fun p => by
      simp [Output.mark, Cancel.canceled, Cancel.answer, Cancel.report]
    have hcancels : m.cancels = m.output.filterMap (Output.mark OrderStatus.isCanceled) ++
        [⟨order.submission, order.cumQty, 0⟩] := by
      rw [cancels, pc]
      simp [CancelWorkerPc.cancels, appended, hmark, OrderStatus.isCanceled]
    refine h.tell (s := order.submission) rfl rfl rfl rfl ?_ rfl ?_ ?_ ?_ (List.Subset.refl _) rfl rfl
      rfl
    · simp only [known, touched, List.map_append, List.mem_append, hcancels]
      exact .inr (.inr (.inr (List.mem_singleton_self _)))
    · rw [fills, marks_append _ rfl, hmark]
      simp [fills, OrderStatus.isFill, events]
    · rw [snaps, marks_append _ rfl, hmark]
      simp [snaps, OrderStatus.isPending]
    · rw [hcancels, cancels, marks_append _ rfl, hmark]
      simp [CancelWorkerPc.cancels, appended, OrderStatus.isCanceled]
  · cases done
    refine h.quiet (.inl rfl) rfl (.refl _) (List.Subset.refl _) ?_ (List.Subset.refl _) rfl (.refl _)
      rfl
    rw [pc]
    rfl
  · cases done
    refine h.quiet (.inr ⟨_, show _ = none from rfl, rfl⟩) rfl (.refl _) (List.Subset.refl _) ?_
      (List.Subset.refl _) rfl (.refl _) rfl
    rw [pc]
    rfl

theorem Causal.step [IsStrictOrderedRing α] {m m' : Market α} {a : Action α} (h : Causal m)
    (hb : Base m) (ha : NonNeg a) (hs : Step m a m') : Causal m' := by
  have hb' := hb.step hs
  cases hs with
  | session =>
    exact h.quiet (.inl rfl) rfl (.refl _) (List.Subset.refl _) rfl (List.Subset.refl _) rfl (.refl _)
      rfl
  | routeNew i idle fresh =>
    refine h.route (fun hi => fresh (List.mem_append_left _ hi)) ha rfl rfl rfl rfl rfl rfl rfl ?_ rfl
    simp [newRequests, idle, RouterPc.newOrders]
  | routeCancel i idle fresh =>
    refine h.quiet (.inl rfl) rfl (.refl _) (List.Subset.refl _) rfl (List.Subset.refl _) rfl ?_ rfl
    simp [newRequests, idle, RouterPc.newOrders]
  | allow r pc =>
    refine h.quiet (.inl rfl) rfl (.refl _) (List.Subset.refl _) rfl (List.Subset.refl _) rfl ?_ rfl
    rw [newRequests, newRequests, pc]
    cases r <;> exact .refl _
  | handNew i pc =>
    refine h.quiet (.inl rfl) rfl (.refl _) (List.Subset.refl _) rfl (List.Subset.refl _) rfl ?_ rfl
    simp [newRequests, pc, RouterPc.newOrders]
  | handCancel i pc =>
    refine h.quiet (.inl rfl) rfl (.refl _) (List.Subset.refl _) rfl (List.Subset.refl _) rfl ?_ rfl
    simp [newRequests, pc, RouterPc.newOrders]
  | newUnitPop i rest pc input =>
    refine h.quiet (.inl rfl) rfl (.refl _) (List.Subset.refl _) rfl (List.Subset.refl _) rfl ?_ rfl
    have hsub := queuedNew_onInput i
    simp only [newRequests, pc, input]
    refine List.Sublist.append_right ?_ _
    simpa [queuedNew, List.append_assoc] using
      (hsub.append_right rest).append_left m.newQueue
  | newUnitEffect e es m1 pc done =>
    exact h.newUnitEffect (hb.newUnit e (by simp [pc])) pc done
  | newWorkerPop i rest info pc queue value =>
    exact h.pop pc queue ⟨(hb.newQueue i (by simp [queue])).side, _, value⟩
  | newWorkerThrow | newWorkerFault => exact hb'.newWorker.elim
  | newWorkerLock i info pc can =>
    refine h.quiet (.inl rfl) rfl (.refl _) (List.Subset.refl _) rfl ?_ ?_ (.refl _) rfl <;> rw [pc]
    · exact List.Subset.refl _
    · rfl
  | newWorkerCheck i info pc =>
    have hbuilt : NewOrder.Built i info := by
      have := hb.newWorker
      rwa [pc] at this
    obtain ⟨hun, hinfos⟩ := orderProcessing_view m.ob.name hbuilt (NewOrder.verdict m.ob info).1
    refine h.quiet (.inl rfl) rfl (.refl _) (List.Subset.refl _) rfl ?_ ?_ (.refl _) rfl <;> rw [pc]
    · exact hinfos
    · exact hun
  | newWorkerEffect e es m1 pc done => exact h.newWorkerEffect hb pc done
  | cancelUnitVerified i order pc get side =>
    obtain ⟨x, hx, rfl⟩ := mem_resting_of_getOrder hb.rep get
    refine h.snap hx rfl rfl rfl ?_ rfl rfl rfl rfl rfl
    simp [snaps, pc, CancelUnitPc.snaps]
  | cancelUnitAccept i order busy pc =>
    refine h.quiet (.inl rfl) rfl (.refl _) ?_ rfl (List.Subset.refl _) rfl (.refl _) rfl
    rw [pc]
    cases busy <;> simp [CancelUnitPc.snaps, Cancel.accept, appended, Output.mark,
      Cancel.pendingCancel, Cancel.answer, Cancel.report, Order.mark, OrderStatus.isPending]
  | cancelUnitNoQuantity | cancelUnitUnknown | cancelUnitOtherSide =>
    refine h.quiet (.inl rfl) rfl (.refl _) ?_ rfl (List.Subset.refl _) rfl (.refl _) rfl
    simp [CancelUnitPc.snaps, appended, Cancel.noQuantity, Cancel.unknownOrder, Cancel.otherSide,
      Cancel.reject, businessReject, Output.mark]
  | cancelUnitThrow | cancelUnitFound | cancelUnitGone =>
    exact h.quiet (.inl rfl) rfl (.refl _) (List.nil_subset _) rfl (List.Subset.refl _) rfl
      (.refl _) rfl
  | cancelUnitEffect e es m1 pc done =>
    have hok : (CancelUnitPc.running (e :: es)).Ok := pc ▸ hb.cancelUnit
    obtain ⟨he, hno⟩ := hok e (by simp)
    exact h.cancelUnitEffect he hno pc done
  | cancelWorkerPop i rest pc queue | cancelWorkerLock i pc can =>
    refine h.quiet (.inl rfl) rfl (.refl _) (List.Subset.refl _) ?_ (List.Subset.refl _) rfl (.refl _)
      rfl
    rw [pc]
    rfl
  | cancelWorkerCheck i qty v pc value check =>
    refine h.quiet (.inl rfl) rfl (.refl _) (List.Subset.refl _) ?_ (List.Subset.refl _) rfl (.refl _)
      rfl
    rw [pc]
    rcases v with (_ | _) | order <;> rfl
  | cancelWorkerThrow | cancelWorkerFault => exact hb'.cancelWorker.elim
  | cancelWorkerEffect e es m1 pc done => exact h.cancelWorkerEffect hb pc done
  | eventTake e rest pc queue =>
    refine h.quiet (.inl rfl) rfl ?_ (List.Subset.refl _) rfl (List.Subset.refl _) rfl (.refl _) rfl
    simp [events, pc, queue]
  | eventPass e pc =>
    refine h.quiet (.inl rfl) rfl ?_ (List.Subset.refl _) rfl (List.Subset.refl _) rfl (.refl _) rfl
    simp [events, pc]
  | poolTake e rest pc queue =>
    refine h.quiet (.inl rfl) rfl ?_ (List.Subset.refl _) rfl (List.Subset.refl _) rfl (.refl _) rfl
    simp [events, pc, queue]
  | poolDrop e pc =>
    refine h.quiet (.inl rfl) rfl ?_ (List.Subset.refl _) rfl (List.Subset.refl _) rfl (.refl _) rfl
    simp [events, pc]
  | @poolReport x t e client pc =>
    have hkind : e.execStatus.isFill = true := h.kinds e (by simp [events, pc])
    have hmark : ∀ p, (OBEvent.createEvent m.ob.name client t x e).mark p =
        if p e.execStatus then some e.order.mark else none := fun p => by
      simp [OBEvent.createEvent, Output.mark, Order.mark]
    obtain ⟨hlater, hpend, hcan⟩ := OrderStatus.isFill.later hkind
    refine h.tell (s := e.order.submission) rfl rfl rfl hlater ?_ rfl ?_ ?_ ?_ ?_ rfl rfl rfl
    · simp [known, touched, fills, events, pc, Order.mark]
    · rw [fills, marks_append _ rfl, hmark, if_pos hkind]
      simp [fills, events, pc]
    · rw [snaps, marks_append _ rfl, hmark, hpend]
      simp [snaps]
    · rw [cancels, marks_append _ rfl, hmark, hcan]
      simp [cancels]
    · simp [events, pc]

theorem Causal.new (name : String) : Causal (Market.new name : Market α) where
  life := .empty
  kinds e he := by cases he
  acked s hs := by cases hs
  infos info hi := by cases hi
  nodup := List.nodup_nil
  silent s hs := by cases hs
  routed s hs := absurd rfl hs
  quantities i hi := by cases hi
  shape s := .inl rfl

theorem causal_of_run [IsStrictOrderedRing α] {name : String} {m : Market α}
    (h : Trans.Run step (fun _ a => NonNeg a) (Market.new name) m) : Causal m :=
  h.invariant_with (.new name) (fun _ hr => base_of_run hr) fun _ _ _ hI hb ha hs =>
    hI.step hb ha (step_sound hs)

/-! ## The reports of one order -/

omit [Field α] in
theorem mark_of_report {m : Market α} {s : ExecId} {r : ExecutionReport α}
    (hr : r ∈ m.reportsAbout s) {p : OrderStatus → Bool} (hp : p r.execType = true) :
    (⟨s, r.cumQty, r.leavesQty⟩ : Mark α) ∈ m.output.filterMap (Output.mark p) := by
  obtain ⟨out, hout, hr⟩ := List.mem_filterMap.1 hr
  obtain ⟨hreport, habout⟩ := Output.of_reportAbout hr
  refine List.mem_filterMap.2 ⟨out, hout, ?_⟩
  rw [Output.mark_execution habout hreport, if_pos hp]

omit [Field α] in
/-- What holds of the marks of a kind pairwise, holds of the reports of this kind about one order. -/
theorem reports_pairwise {m : Market α} {p : OrderStatus → Bool} {R : Mark α → Mark α → Prop}
    (h : (m.output.filterMap (Output.mark p)).Pairwise R) (s : ExecId) :
    (m.reportsAbout s).Pairwise fun r r' => p r.execType = true → p r'.execType = true →
      R ⟨s, r.cumQty, r.leavesQty⟩ ⟨s, r'.cumQty, r'.leavesQty⟩ := by
  rw [reportsAbout, List.pairwise_filterMap]
  refine (List.pairwise_filterMap.1 h).imp fun {out out'} hR r hr r' hr' hp hp' => ?_
  obtain ⟨hreport, habout⟩ := Output.of_reportAbout hr
  obtain ⟨hreport', habout'⟩ := Output.of_reportAbout hr'
  exact hR _ (by rw [Output.mark_execution habout hreport, if_pos hp]) _
    (by rw [Output.mark_execution habout' hreport', if_pos hp'])

theorem Causal.inOrder {m : Market α} (h : Causal m) {s : ExecId} {ack : ExecutionReport α}
    {rest : List (ExecutionReport α)} (hrs : m.reportsAbout s = ack :: rest)
    (hack : ack.execType = .newOrder) (hcum : ack.cumQty = 0)
    (hrest : ∀ r ∈ rest, r.execType.isLater = true) : InOrder (m.reportsAbout s) := by
  have hkind : ∀ r ∈ m.reportsAbout s, r.execType = .newOrder ∧ r.cumQty = 0 ∨
      r.execType.isFill = true ∨ r.execType.isPending = true ∨ r.execType.isCanceled = true := by
    rw [hrs]
    refine List.forall_mem_cons.2 ⟨.inl ⟨hack, hcum⟩, fun r hr => .inr ?_⟩
    simpa [OrderStatus.isLater, or_assoc] using hrest r hr
  have hfill : ∀ r ∈ m.reportsAbout s, r.execType.isFill = true →
      (⟨s, r.cumQty, r.leavesQty⟩ : Mark α) ∈ m.fills := fun r hr hp =>
    List.mem_append_left _ (mark_of_report hr hp)
  have hsnap : ∀ r ∈ m.reportsAbout s, r.execType.isPending = true →
      (⟨s, r.cumQty, r.leavesQty⟩ : Mark α) ∈ m.snaps := fun r hr hp =>
    List.mem_append_left _ (mark_of_report hr hp)
  have hcancel : ∀ r ∈ m.reportsAbout s, r.execType.isCanceled = true →
      (⟨s, r.cumQty, r.leavesQty⟩ : Mark α) ∈ m.cancels := fun r hr hp =>
    List.mem_append_left _ (mark_of_report hr hp)
  have hnonneg : ∀ r ∈ m.reportsAbout s, 0 ≤ r.cumQty := fun r hr => by
    rcases hkind r hr with ⟨-, h0⟩ | hp | hp | hp
    · exact h0.ge
    · exact h.life.nonneg.2 _ (List.mem_append_left _ (List.mem_append_left _ (hfill r hr hp)))
    · exact h.life.nonneg.2 _ (List.mem_append_left _ (List.mem_append_right _ (hsnap r hr hp)))
    · exact h.life.nonneg.2 _ (List.mem_append_right _ (hcancel r hr hp))
  refine ⟨⟨ack, rest, hrs, hack, hcum, fun r hr => ?_⟩, hnonneg, ?_, ?_, fun c hc hcan r hr => ?_⟩
  · simpa [OrderStatus.isLater, or_assoc] using hrest r hr
  · have hchain := h.life.chain
    rw [fills, List.pairwise_append] at hchain
    exact (reports_pairwise hchain.1 s).imp fun hR hp hp' => hR hp hp' rfl
  · have honce := h.life.once
    rw [cancels, List.map_append, List.nodup_append, List.Nodup, List.pairwise_map] at honce
    exact (reports_pairwise honce.1 s).imp fun hR hp => hR hp.1 hp.2 rfl
  · have hk := hcancel c hc hcan
    rcases hkind r hr with ⟨hnew, h0⟩ | hp | hp | hp
    · refine ⟨h0 ▸ hnonneg c hc, fun hp => ?_⟩
      rw [hnew] at hp
      cases hp
    · obtain ⟨h1, h2⟩ := h.life.canceled _ hk _ (List.mem_append_left _ (hfill r hr hp)) rfl
      exact ⟨h2, fun _ => h1⟩
    · obtain ⟨h1, h2⟩ := h.life.canceled _ hk _ (List.mem_append_right _ (hsnap r hr hp)) rfl
      exact ⟨h2, fun _ => h1⟩
    · have he := List.inj_on_of_nodup_map h.life.once (hcancel r hr hp) hk rfl
      refine ⟨(congrArg Mark.cumQty he).le, fun hf => ?_⟩
      rw [(OrderStatus.isFill.later hf).2.2] at hp
      cases hp

/-! ## Two runs -/

/-- A sell of 10 rests, and a buy of the given quantity is matched with it. -/
def fillRun (qty : ℚ) : List (Action ℚ) :=
  [.session [0, 1] fun c => if c = 0 then "A" else "B",
    .route (.newOrder ⟨0, 0, "n1", ⟨1, 'D'⟩, ⟨"s1", .sell, some 10, .limit, some 5⟩⟩)] ++
  runs .router 2 ++ runs .newUnit 2 ++ runs .newWorker 6 ++
  [.route (.newOrder ⟨1, 0, "n2", ⟨1, 'D'⟩, ⟨"b1", .buy, some qty, .limit, some 5⟩⟩)] ++
  runs .router 2 ++ runs .newUnit 2 ++ runs .newWorker 6

/-- The sell is partly filled, then cancelled, and only then the event unit goes on. -/
def cancelThenFill : List (Action ℚ) :=
  fillRun 4 ++ [.route (.cancel ⟨0, 0, "c1", ⟨2, 'F'⟩, ⟨"s1", "x1", .sell, some 6⟩⟩)] ++
  runs .router 2 ++ runs .cancelUnit 4 ++ runs .cancelWorker 6 ++ runs .eventUnit 4 ++ runs .pool 2

/-- The kinds and quantities of the reports about a submission. -/
def told (m : Market α) (id : ExecId) : List (ExecutionStatus × α × α) :=
  (m.reportsAbout id).map fun r => (r.execType, r.cumQty, r.leavesQty)

end Market

end Fix42
