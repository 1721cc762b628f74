import Fix42.Client.Execution
import Fix42.Market.CancelUnit
import Fix42.Market.Proof.Base
import Fix42.Market.Reports

/-!
# What the client makes of the server's reports

`Sends P m`: every report a market has sent, or a thread is about to send, satisfies `P`; kept by
every step whose own reports do (`Sends.step`). With `P` the kinds of report and their fields it
gives `reports_decodable`: the client accepts a report unless it is a fill event (no price) or a
pending cancel (no side), so all reports of a run without these.
-/

namespace Fix42

variable {α : Type*}

/-! ## Reports, as the client sees them -/

namespace Client

theorem accepts_of_ignored {r : ExecutionReport α} (hs : r.side.isSome = true)
    (h : r.execTransType ≠ .new ∨ r.execType = .rejected) : Accepts r := fun msgSeqNum => by
  obtain ⟨side, hside⟩ := Option.isSome_iff_exists.1 hs
  refine ⟨.ignored, ?_, fun reject h => by cases h⟩
  simp only [onInput, parseExecutionReport, hside, sideFromFix, Except.map]
  rcases h with h | h
  · split
    · rename_i hnew
      exact absurd hnew h
    · rfl
  · split
    · simp [treatNewOrder, h]
    · rfl

theorem accepts_of_priced {r : ExecutionReport α} (hs : r.side.isSome = true)
    (ht : r.execType = .newOrder) (hp : r.price.isSome = true) (hq : r.orderQty.isSome = true) :
    Accepts r := fun msgSeqNum => by
  obtain ⟨side, hside⟩ := Option.isSome_iff_exists.1 hs
  obtain ⟨price, hprice⟩ := Option.isSome_iff_exists.1 hp
  obtain ⟨qty, hqty⟩ := Option.isSome_iff_exists.1 hq
  simp only [onInput, parseExecutionReport, hside, sideFromFix, Except.map]
  split
  · refine ⟨_, by simp [treatNewOrder, sendNotificationNew, ht, hprice, hqty, Except.map]; rfl, ?_⟩
    intro reject h
    cases h
  · exact ⟨_, rfl, fun reject h => by cases h⟩

/-- Without a side the report is refused. -/
theorem not_accepts_of_sideless {r : ExecutionReport α} (hs : r.side = none) : ¬Accepts r :=
  fun h => by
    obtain ⟨done, hok, hno⟩ := h 0
    simp only [onInput, parseExecutionReport, hs, sideFromFix, Except.map, Except.ok.injEq] at hok
    exact hno _ hok.symm

/-- The report of a fill without a price makes the unit throw. -/
theorem not_accepts_of_priceless {r : ExecutionReport α} (ht : r.execTransType = .new)
    (hf : r.execType.isFill = true) (hp : r.price = none) : ¬Accepts r := fun h => by
  obtain ⟨done, hok, hno⟩ := h 0
  cases hs : r.side with
  | none => exact not_accepts_of_sideless hs h
  | some side =>
    have hk : r.execType = .filled ∨ r.execType = .partiallyFilled := by
      simpa [OrderStatus.isFill] using hf
    rcases hk with hk | hk <;>
      simp [onInput, parseExecutionReport, hs, sideFromFix, Except.map, ht, treatNewOrder, hk,
        sendNotificationNew, hp] at hok

end Client

/-- An acknowledgement, a rejection or the report of a done cancel, or no execution report. -/
def Output.Plain (out : Output α) : Prop :=
  ∀ r, out.report = .execution r → Client.Accepts r ∧ r.execType.isFill = false ∧
    r.execType.isPending = false

/-- A fill event or a pending cancel, with the field it lacks. -/
inductive Output.Lacks (out : Output α) : Prop
  | price (r : ExecutionReport α) (report : out.report = .execution r)
      (trans : r.execTransType = .new) (kind : r.execType.isFill = true) (price : r.price = none)
  | side (r : ExecutionReport α) (report : out.report = .execution r)
      (kind : r.execType.isPending = true) (side : r.side = none)

theorem Output.Lacks.not_accepts {out : Output α} (h : out.Lacks) {r : ExecutionReport α}
    (hr : out.report = .execution r) :
    ¬Client.Accepts r ∧ (r.execType.isFill = true ∨ r.execType.isPending = true) := by
  rcases h with ⟨r', report, trans, kind, price⟩ | ⟨r', report, kind, side⟩
  · rw [hr] at report
    cases report
    exact ⟨Client.not_accepts_of_priceless trans kind price, .inl kind⟩
  · rw [hr] at report
    cases report
    exact ⟨Client.not_accepts_of_sideless side, .inr kind⟩

/-! ## What the units send -/

def Effect.Sends (P : Output α → Prop) : Effect α → Prop
  | .append out => P out
  | _ => True

section
variable {P : Output α → Prop}

@[simp] theorem Effect.sends_append (out : Output α) : (append out).Sends P ↔ P out := .rfl

@[simp] theorem Effect.sends_finish (id : ExecId) : (finish id).Sends P := trivial

@[simp] theorem Effect.sends_finishAgain (id : ExecId) : (finishAgain id).Sends P := trivial

@[simp] theorem Effect.sends_unlock (id : ExecId) : (unlock id).Sends P := trivial

@[simp] theorem Effect.sends_queueNew (i : Context (NewOrderSingle α)) : (queueNew i).Sends P :=
  trivial

@[simp] theorem Effect.sends_queueCancel (i : Context (OrderCancelRequest α)) :
    (queueCancel i).Sends P := trivial

@[simp] theorem Effect.sends_add (info : OrderInfo α) : (add info).Sends P := trivial

@[simp] theorem Effect.sends_cancel (i : Context (OrderCancelRequest α)) : (cancel i).Sends P :=
  trivial

end

theorem businessReject_plain {μ : Type*} (i : Context μ) (refId : OrderId)
    (reason : RejectReasonBusiness) (text : String) :
    (businessReject i refId reason text : Output α).Plain := fun r hr => by cases hr

theorem NewOrder.onInput_plain (i : Context (NewOrderSingle α)) :
    ∀ e ∈ NewOrder.onInput i, e.Sends Output.Plain := by
  unfold NewOrder.onInput
  dsimp only
  split
  · simp [businessReject_plain, NewOrder.reject]
  · split
    · simp [businessReject_plain, NewOrder.reject]
    · split <;> split <;>
        simp [businessReject_plain, NewOrder.notSupportedSide,
          NewOrder.notSupportedOrderType, NewOrder.reject]

theorem Cancel.reject_plain (i : Context (OrderCancelRequest α)) (orderId : OrderId)
    (reason : CancelRejectReason) (text : String) :
    (Cancel.reject i orderId reason text).Sends Output.Plain := fun r hr => by cases hr

theorem Cancel.noQuantity_plain (i : Context (OrderCancelRequest α)) :
    ∀ e ∈ Cancel.noQuantity i, e.Sends Output.Plain := by
  simp [Cancel.noQuantity, businessReject_plain]

theorem Cancel.unknownOrder_plain (i : Context (OrderCancelRequest α)) :
    ∀ e ∈ Cancel.unknownOrder i, e.Sends Output.Plain := by
  simp [Cancel.unknownOrder, Cancel.reject_plain]

theorem Cancel.otherSide_plain (i : Context (OrderCancelRequest α)) :
    ∀ e ∈ Cancel.otherSide i, e.Sends Output.Plain := by
  simp [Cancel.otherSide, Cancel.reject_plain]

section
variable [Field α]

/-- The worker's answers have every field, and the client reads a price only from the
acknowledgement. -/
theorem NewOrder.orderProcessing_plain (name : String) (i : Context (NewOrderSingle α))
    (info : OrderInfo α) (v : Verdict) :
    ∀ e ∈ NewOrder.orderProcessing name i info v, e.Sends Output.Plain := by
  have hack : (NewOrder.acknowledgement name i info).Plain := fun r hr => by
    cases hr
    exact ⟨Client.accepts_of_priced rfl rfl rfl rfl, rfl, rfl⟩
  have hrej : ∀ r : ExecutionReport α, r.side.isSome = true → r.execType = .rejected →
      (NewOrder.answer i info r).Plain := fun r hs ht r' hr => by
    cases hr
    exact ⟨Client.accepts_of_ignored hs (.inr ht), by simp [ht, OrderStatus.isFill],
      by simp [ht, OrderStatus.isPending]⟩
  cases v with
  | tickRefused => simp [NewOrder.orderProcessing, hrej, NewOrder.report]
  | accepted => simp [NewOrder.orderProcessing, hack]
  | duplicate => simp [NewOrder.orderProcessing, hrej, NewOrder.report]

theorem Cancel.orderProcessing_plain (name : String) (i : Context (OrderCancelRequest α))
    (v : Cancel.Refusal ⊕ Order α) :
    ∀ e ∈ Cancel.orderProcessing name i v, e.Sends Output.Plain := by
  have hdone : ∀ order, (Cancel.canceled name i order).Plain := fun order r hr => by
    cases hr
    exact ⟨Client.accepts_of_ignored rfl (.inl (by simp [Cancel.report])), rfl, rfl⟩
  rcases v with (_ | _) | order
  · simp [Cancel.orderProcessing, Cancel.reject_plain]
  · simp [Cancel.orderProcessing, Cancel.reject_plain]
  · simp [Cancel.orderProcessing, hdone]

theorem pendingCancel_lacks (name : String) (i : Context (OrderCancelRequest α)) (order : Order α) :
    (Cancel.pendingCancel name i order).Lacks := .side _ rfl rfl rfl

theorem createEvent_lacks (name : String) (client : Client) (now : Int) (execId : ExecId)
    {e : Event α} (he : e.execStatus.isFill = true) :
    (OBEvent.createEvent name client now execId e).Lacks := .price _ rfl rfl he rfl

/-! ## Events are fills -/

variable [LinearOrder α]

theorem FillStep.kinds {c c' : List (α × Node α)} {st st' : FillState α}
    (h : FillStep (c, st) (c', st')) (hst : ∀ e ∈ st.events, e.execStatus.isFill = true) :
    ∀ e ∈ st'.events, e.execStatus.isFill = true := by
  cases h with
  | tick | note => exact hst
  | @fill l r price n st other active =>
    intro e he
    rcases List.mem_append.1 he with he | he
    · exact hst e he
    · simp only [fillOrder, other, if_false, List.mem_singleton] at he
      subst he
      split <;> rfl

theorem Outcome.kinds {info : OrderInfo α} {st : FillState α} {reports : List (Event α)}
    {left : α × α} {exit : Exit} (h : Outcome info st reports left exit) :
    ∀ e ∈ reports, e.execStatus.isFill = true := fun e he => by
  cases exit with
  | filled =>
    rw [(h.filled rfl).2, List.mem_singleton] at he
    subst he
    rfl
  | tickRefused =>
    rw [h.silent rfl] at he
    cases he
  | priceLimit | exhausted =>
    rw [h.partly (by simp)] at he
    split at he
    · rw [List.mem_singleton.1 he]
      rfl
    · cases he

/-- `add` queues events of fills only. -/
theorem add_kinds {ob ob' : OrderBook α} {info : OrderInfo α}
    (hs : info.order.side.supported = true) (hq : info.order.remainQty = info.order.originalQty)
    (h : ob.add info = .ok ob') (hob : ∀ e ∈ ob.eventOutput, e.execStatus.isFill = true) :
    ∀ e ∈ ob'.eventOutput, e.execStatus.isFill = true := by
  obtain ⟨idmap, c, st, reports, left, hsteps, hev, hout, -⟩ := add_spec hs hq h
  have hst : ∀ e ∈ st.events, e.execStatus.isFill = true :=
    hsteps.invariant (I := fun _ st => ∀ e ∈ st.events, e.execStatus.isFill = true) hob
      fun _ _ _ _ hI hstep => hstep.kinds hI
  intro e he
  rw [hev] at he
  rcases List.mem_append.1 he with he | he
  · exact hst e he
  · exact hout.kinds e he

/-! ## The reports of a market -/

def NewWorkerPc.effects : NewWorkerPc α → List (Effect α)
  | .running es => es
  | _ => []

def CancelUnitPc.effects : CancelUnitPc α → List (Effect α)
  | .running es => es
  | _ => []

def CancelWorkerPc.effects : CancelWorkerPc α → List (Effect α)
  | .running es => es
  | _ => []

namespace Market

/-- Every report that is sent, or that a thread has in hand, satisfies `P`, and every event is the
event of a fill. -/
structure Sends (P : Output α → Prop) (m : Market α) : Prop where
  output : ∀ out ∈ m.output, P out
  newUnit : ∀ e ∈ m.newUnit, e.Sends P
  newWorker : ∀ e ∈ m.newWorker.effects, e.Sends P
  cancelUnit : ∀ e ∈ m.cancelUnit.effects, e.Sends P
  cancelWorker : ∀ e ∈ m.cancelWorker.effects, e.Sends P
  events : ∀ e ∈ m.events, e.execStatus.isFill = true

theorem Sends.new (P : Output α → Prop) (name : String) : Sends P (Market.new name : Market α) := by
  constructor <;> intro e he <;> cases he

omit [Field α] in
theorem cancel_eventOutput {ob ob' : OrderBook α} {id : OrderId} {side : Side}
    (h : ob.cancel id side = .ok ob') : ob'.eventOutput = ob.eventOutput := by
  obtain ⟨info, -, ⟨-, askBook, -, rfl⟩ | ⟨-, bidBook, -, rfl⟩⟩ := cancel_cases h
  · rfl
  · rfl

/-- An effect whose report satisfies `P`. -/
theorem Sends.effect {P : Output α → Prop} {m m' : Market α} {e : Effect α} (h : Sends P m)
    (he : e.Sends P) (hadd : ∀ info, e = .add info → info.order.side.supported = true ∧
      info.order.remainQty = info.order.originalQty)
    (done : m.exec e = .ok m') : Sends P m' := by
  have hf := exec_frame done
  refine ⟨?_, by rw [hf.newUnit]; exact h.newUnit, by rw [hf.newWorker]; exact h.newWorker,
    by rw [hf.cancelUnit]; exact h.cancelUnit, by rw [hf.cancelWorker]; exact h.cancelWorker, ?_⟩
  · rcases exec_output done with hout | ⟨out, rfl, hout⟩
    · rw [hout]
      exact h.output
    · rw [hout]
      intro o ho
      rcases List.mem_append.1 ho with ho | ho
      · exact h.output o ho
      · rw [List.mem_singleton.1 ho]
        exact he
  · have hob : ∀ e' ∈ m'.ob.eventOutput, e'.execStatus.isFill = true := by
      have hold : ∀ e' ∈ m.ob.eventOutput, e'.execStatus.isFill = true := fun e' he' =>
        h.events e' (List.mem_append_right _ he')
      rcases exec_ob done with ⟨info, rfl, hok⟩ | ⟨i, -, hok⟩ | hob
      · exact add_kinds (hadd info rfl).1 (hadd info rfl).2 hok hold
      · rw [cancel_eventOutput hok]
        exact hold
      · rw [hob]
        exact hold
    intro e' he'
    rw [Market.events, hf.poolWorker, hf.poolQueue, hf.eventUnit] at he'
    rcases List.mem_append.1 he' with he' | he'
    · exact h.events e' (List.mem_append_left _ he')
    · exact hob e' he'

theorem Sends.step {P : Output α → Prop} {m m' : Market α} {a : Action α} (h : Sends P m)
    (hb : Base m) (hs : Step m a m') (plain : ∀ out, out.Plain → P out)
    (pending : ∀ x t i order, a = .run .cancelUnit x t → m.cancelUnit = .verified i order →
      Cancel.busy m i = true → P (Cancel.pendingCancel m.ob.name i order))
    (event : ∀ x t e client, a = .run .pool x t → m.poolWorker = some e →
      m.clients.find? (fun c => m.userId c = e.order.userId) = some client →
      e.execStatus.isFill = true → P (OBEvent.createEvent m.ob.name client t x e)) :
    Sends P m' := by
  have hplain : ∀ es : List (Effect α), (∀ e ∈ es, e.Sends Output.Plain) → ∀ e ∈ es, e.Sends P :=
    fun es hes e he => by
      have := hes e he
      cases e with
      | append out => exact plain out this
      | _ => trivial
  cases hs with
  | session | routeNew | routeCancel | allow | handNew | handCancel => exact { h with }
  | newUnitPop i rest pc input =>
    exact { h with newUnit := hplain _ (NewOrder.onInput_plain i) }
  | newUnitEffect e es m1 pc done =>
    have hes : ∀ e' ∈ e :: es, e'.Sends P := pc ▸ h.newUnit
    have hu : e.OfUnit Output.IsReject := hb.newUnit e (by simp [pc])
    exact { h.effect (hes e (by simp)) (fun info he => by subst he; cases hu) done with
      newUnit := fun e' he' => hes e' (List.mem_cons_of_mem _ he') }
  | newWorkerPop | newWorkerThrow | newWorkerLock | newWorkerFault =>
    exact { h with newWorker := fun e he => by cases he }
  | newWorkerCheck i info pc =>
    exact { h with
      newWorker := hplain _ (NewOrder.orderProcessing_plain _ i info _) }
  | newWorkerEffect e es m1 pc done =>
    have hes : ∀ e' ∈ e :: es, e'.Sends P := fun e' he' => h.newWorker e' (by rwa [pc])
    refine { h.effect (hes e (by simp)) (fun info he => ?_) done with
      newWorker := fun e' he' => hes e' (List.mem_cons_of_mem _ he') }
    subst he
    obtain ⟨-, hside, hqty, -⟩ := hb.next_add pc
    exact ⟨hside, hqty⟩
  | cancelUnitNoQuantity i =>
    exact { h with cancelUnit := hplain _ (Cancel.noQuantity_plain i) }
  | cancelUnitUnknown i =>
    exact { h with cancelUnit := hplain _ (Cancel.unknownOrder_plain i) }
  | cancelUnitOtherSide i =>
    exact { h with cancelUnit := hplain _ (Cancel.otherSide_plain i) }
  | cancelUnitThrow | cancelUnitFound | cancelUnitGone | cancelUnitVerified =>
    exact { h with cancelUnit := fun e he => by cases he }
  | cancelUnitAccept i order busy pc waits =>
    refine { h with cancelUnit := ?_ }
    cases hbusy : busy with
    | false => simp [CancelUnitPc.effects, Cancel.accept]
    | true =>
      have hp := pending _ _ i order rfl pc (waits.symm.trans hbusy)
      simpa [CancelUnitPc.effects, Cancel.accept] using hp
  | cancelUnitEffect e es m1 pc done =>
    have hes : ∀ e' ∈ e :: es, e'.Sends P := fun e' he' => h.cancelUnit e' (by rwa [pc])
    have hu : (CancelUnitPc.running (e :: es)).Ok := pc ▸ hb.cancelUnit
    have hadd : ∀ info, e = .add info → info.order.side.supported = true ∧
        info.order.remainQty = info.order.originalQty := fun info he => by
      subst he
      cases (hu (.add info) (by simp)).1
    exact { h.effect (hes e (by simp)) hadd done with
      cancelUnit := fun e' he' => hes e' (List.mem_cons_of_mem _ he') }
  | cancelWorkerPop | cancelWorkerLock | cancelWorkerThrow | cancelWorkerFault =>
    exact { h with cancelWorker := fun e he => by cases he }
  | cancelWorkerCheck i qty v pc =>
    exact { h with cancelWorker := hplain _ (Cancel.orderProcessing_plain _ i v) }
  | cancelWorkerEffect e es m1 pc done =>
    have hes : ∀ e' ∈ e :: es, e'.Sends P := fun e' he' => h.cancelWorker e' (by rwa [pc])
    refine { h.effect (hes e (by simp)) (fun info he => ?_) done with
      cancelWorker := fun e' he' => hes e' (List.mem_cons_of_mem _ he') }
    subst he
    exact (hb.cancelWorker_effect pc).elim
  | eventTake e rest pc queue =>
    exact { h with events := fun e' he' => h.events e' (by simpa [Market.events, pc, queue] using he') }
  | eventPass e pc =>
    exact { h with events := fun e' he' => h.events e' (by simpa [Market.events, pc] using he') }
  | poolTake e rest pc queue =>
    exact { h with events := fun e' he' => h.events e' (by simpa [Market.events, pc, queue] using he') }
  | poolDrop e pc =>
    exact { h with
      events := fun e' he' => h.events e' (by
        rw [Market.events, pc]
        exact List.mem_cons_of_mem _ he') }
  | poolReport e client pc found =>
    have hk : e.execStatus.isFill = true := h.events e (by simp [Market.events, pc])
    refine { h with
      output := fun out ho => ?_
      events := fun e' he' => h.events e' (by
        rw [Market.events, pc]
        exact List.mem_cons_of_mem _ he') }
    rcases List.mem_append.1 ho with ho | ho
    · exact h.output out ho
    · rw [List.mem_singleton.1 ho]
      exact event _ _ e client rfl pc found hk

/-! ## Runs -/

/-- Every report a market sends is plain or lacks a field. -/
theorem sends_of_reachable {name : String} {m : Market α} (h : Reachable name m) :
    Sends (fun out => out.Plain ∨ out.Lacks) m :=
  h.invariant_with (J := Base) (.new _ name) (fun _ => base_of_run) fun m _ _ hI hb _ hs =>
    hI.step hb (step_sound hs) (fun _ hp => .inl hp)
      (fun _ _ i order _ _ _ => .inr (pendingCancel_lacks m.ob.name i order))
      fun x t _ client _ _ _ hk => .inr (createEvent_lacks m.ob.name client t x hk)

theorem sends_of_quiet {name : String} {m : Market α}
    (h : Trans.Run step Quiet (Market.new name) m) : Sends Output.Plain m := by
  refine h.invariant_with (J := Base) (.new _ name) (fun _ => base_of_run)
    fun m a m' hI hb hc hs => hI.step hb (step_sound hs) (fun _ hp => hp) ?_ ?_
  · rintro x t i order rfl pc hbusy
    simp [Quiet, pc, hbusy] at hc
  · rintro x t e client rfl pc found -
    rw [hc e pc] at found
    cases found

/-- **Reports the client accepts.** Of the reports a market sends in any run, the client accepts
those that are neither a fill event nor a pending cancel; in a run of quiet steps, all. -/
theorem reports_decodable {name : String} {m : Market α} (h : Reachable name m) :
    (∀ out ∈ m.output, ∀ r, out.report = .execution r →
      (Client.Accepts r ↔ r.execType.isFill = false ∧ r.execType.isPending = false)) ∧
    (Trans.Run step Quiet (Market.new name) m →
      ∀ out ∈ m.output, ∀ r, out.report = .execution r → Client.Accepts r) := by
  refine ⟨fun out ho r hr => ?_, fun hq out ho r hr => ((sends_of_quiet hq).output out ho r hr).1⟩
  rcases (sends_of_reachable h).output out ho with hp | hl
  · exact ⟨fun _ => (hp r hr).2, fun _ => (hp r hr).1⟩
  · obtain ⟨hno, hk⟩ := hl.not_accepts hr
    refine ⟨fun ha => absurd ha hno, fun hkind => ?_⟩
    simp [hkind] at hk

/-- A sell of ten at five, and its reports. -/
def sellRun : List (Action ℚ) :=
  [.session [0, 1] fun c => if c = 0 then "A" else "B",
    .route (.newOrder ⟨0, 0, "n1", ⟨1, 'D'⟩, ⟨"s1", .sell, some 10, .limit, some 5⟩⟩)] ++
  runs .router 2 ++ runs .newUnit 2 ++ runs .newWorker 6

/-- A buy of another user that trades with it. -/
def tradeRun : List (Action ℚ) :=
  sellRun ++
  [.route (.newOrder ⟨1, 0, "n2", ⟨1, 'D'⟩, ⟨"b1", .buy, some 10, .limit, some 5⟩⟩)] ++
  runs .router 2 ++ runs .newUnit 2 ++ runs .newWorker 6 ++ runs .eventUnit 2 ++ runs .pool 2

/-- The report of an ordinary fill makes the client's unit throw. -/
theorem fill_not_decodable : ∃ m : Market ℚ, Reachable "AAPL" m ∧
    ∃ out ∈ m.output, ∃ r, out.report = .execution r ∧ r.execType = .filled ∧
      Client.onInput 0 r = .error (.thrown "bad optional access") ∧ ¬Client.Accepts r := by
  have h : (Trans.exec step (fun _ _ => True) (Market.new "AAPL") tradeRun).map
      (fun m => m.output.filterMap fun out => out.report.execution?.map fun r =>
        (r.execType, r.execTransType, r.side, r.price)) =
      some [(.newOrder, .new, some .sell, some 5), (.newOrder, .new, some .buy, some 5),
        (.filled, .new, some .sell, none)] := by decide +kernel
  obtain ⟨m, hm, hout⟩ := Option.map_eq_some_iff.1 h
  have hmem : (.filled, .new, some .sell, none) ∈ m.output.filterMap fun out =>
      out.report.execution?.map fun r => (r.execType, r.execTransType, r.side, r.price) := by
    simp [hout]
  obtain ⟨out, ho, hr⟩ := List.mem_filterMap.1 hmem
  obtain ⟨r, hreport, hr⟩ := Option.map_eq_some_iff.1 hr
  simp only [Prod.mk.injEq] at hr
  obtain ⟨hk, ht, hs, hp⟩ := hr
  exact ⟨m, .of_exec .start hm, out, ho, r, Report.execution?_eq_some hreport, hk,
    by simp [Client.onInput, Client.parseExecutionReport, hs, Client.sideFromFix, Except.map, ht,
      Client.treatNewOrder, hk, Client.sendNotificationNew, hp],
    Client.not_accepts_of_priceless ht (by rw [hk]; rfl) hp⟩

/-- The sell is acknowledged in a quiet run, and the client accepts that. -/
theorem reports_decodable_run : ∃ m : Market ℚ, Reachable "AAPL" m ∧
    Trans.Run step Quiet (Market.new "AAPL") m ∧ m.output ≠ [] ∧
    ∀ out ∈ m.output, ∀ r, out.report = .execution r → Client.Accepts r := by
  have h : (Trans.exec step Quiet (Market.new "AAPL") sellRun).map (fun m => m.output.length) =
      some 1 := by decide +kernel
  obtain ⟨m, hm, hlen⟩ := Option.map_eq_some_iff.1 h
  have hq : Trans.Run step Quiet (Market.new "AAPL") m := .of_exec .start hm
  exact ⟨m, hq.reach, hq, fun h0 => by simp [h0] at hlen, (reports_decodable hq.reach).2 hq⟩

end Market

end

end Fix42
