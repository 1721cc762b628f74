import Fix42.Lib.Fallible
import Fix42.Market.CancelUnit
import Fix42.Market.Proof.Base

/-!
# How a call of `Cancel::onInput` ends

`cancel_outcome`: on every reachable market a call returns with exactly one outcome, unless the
request has a quantity and names a side the market does not trade; then `lockReadOrder` throws and
nothing catches it (`onInput_throws`). `onInput_steps` ties the call to the interleaved market: it
is what the unit's thread does when no other thread moves, and a call that throws ends that thread.
-/

namespace Fix42

open Relation

open Fallible (bind_eq_ok)

variable {α : Type*} [Field α] [LinearOrder α]

namespace Cancel

/-! ## The ways a call can end -/

theorem rejected_noQuantity (m : Market α) (i : Context (OrderCancelRequest α)) :
    ∃ m', m.execAll (noQuantity i) = .ok m' ∧ Rejected i m m' :=
  ⟨_, rfl, rfl, rfl, rfl, _, rfl, rfl, rfl⟩

theorem rejected_unknownOrder (m : Market α) (i : Context (OrderCancelRequest α)) :
    ∃ m', m.execAll (unknownOrder i) = .ok m' ∧ Rejected i m m' :=
  ⟨_, rfl, rfl, rfl, rfl, _, rfl, rfl, rfl⟩

theorem rejected_otherSide (m : Market α) (i : Context (OrderCancelRequest α)) :
    ∃ m', m.execAll (otherSide i) = .ok m' ∧ Rejected i m m' :=
  ⟨_, rfl, rfl, rfl, rfl, _, rfl, rfl, rfl⟩

theorem accepted_accept (m : Market α) (i : Context (OrderCancelRequest α)) {order : Order α}
    (get : m.ob.getOrder i.message.origClOrdId = .ok order) (busy : Bool) :
    ∃ m', m.execAll (accept m.ob.name i order busy) = .ok m' ∧ Accepted i m m' := by
  cases busy with
  | false => exact ⟨_, rfl, rfl, rfl, rfl, .inl rfl⟩
  | true => exact ⟨_, rfl, rfl, rfl, rfl, .inr ⟨order, get, rfl⟩⟩

/-- No call is both: one leaves the unit's queue as it is, the other lengthens it. -/
theorem Rejected.not_accepted {i : Context (OrderCancelRequest α)} {m m' : Market α}
    (hr : Rejected i m m') : ¬Accepted i m m' := fun ha => by
  have h := ha.queue
  rw [hr.queue] at h
  simpa using congrArg List.length h

/-! ## The calls that return -/

omit [Field α] in
theorem hasSide_has {ob : OrderBook α} {id : OrderId} {side : Side}
    (h : ob.hasSide id side = true) : ob.has id = true := by
  unfold OrderBook.hasSide at h
  unfold OrderBook.has
  split at h
  · simp [h]
  · split at h
    · simp [h]
    · cases h

omit [Field α] in
/-- On an indexed book the check of a traded side refuses the request or finds its order. -/
theorem verifyOrderState_cases {ob : OrderBook α} (h : RepInv ob)
    {i : Context (OrderCancelRequest α)} (hs : i.message.side.supported = true) :
    verifyOrderState ob i = .ok (.inl (unknownOrder i)) ∨
    verifyOrderState ob i = .ok (.inl (otherSide i)) ∨
    ∃ order, ob.getOrder i.message.origClOrdId = .ok order ∧
      verifyOrderState ob i = .ok (.inr order) := by
  unfold verifyOrderState lockReadOrder
  cases hid : ob.hasSide i.message.origClOrdId i.message.side with
  | false => exact .inl (by simp [hs, pure, Except.pure, bind, Except.bind])
  | true =>
    obtain ⟨order, get, -⟩ := h.getOrder (hasSide_has hid)
    by_cases side : order.side = i.message.side
    · exact .inr (.inr ⟨order, get, by simp [hs, get, side, pure, Except.pure, bind, Except.bind]⟩)
    · exact .inr (.inl (by simp [hs, get, side, pure, Except.pure, bind, Except.bind]))

theorem onInput_returns {m : Market α} (h : RepInv m.ob) {i : Context (OrderCancelRequest α)}
    (hi : i.message.orderQty = none ∨ i.message.side.supported = true) :
    ∃ m', onInput m i = .ok m' ∧ (Rejected i m m' ∨ Accepted i m m') := by
  unfold onInput
  cases hq : i.message.orderQty with
  | none =>
    obtain ⟨m', hok, hr⟩ := rejected_noQuantity m i
    exact ⟨m', by simpa using hok, .inl hr⟩
  | some qty =>
    have hs := hi.resolve_left (by simp [hq])
    simp only [Option.isNone_some, Bool.false_eq_true, if_false, bind, Except.bind]
    rcases verifyOrderState_cases h hs with hv | hv | ⟨order, get, hv⟩
    · obtain ⟨m', hok, hr⟩ := rejected_unknownOrder m i
      exact ⟨m', by simpa [hv] using hok, .inl hr⟩
    · obtain ⟨m', hok, hr⟩ := rejected_otherSide m i
      exact ⟨m', by simpa [hv] using hok, .inl hr⟩
    · obtain ⟨m', hok, ha⟩ := accepted_accept m i get (busy m i)
      exact ⟨m', by simpa [hv] using hok, .inr ha⟩

/-- The switch of `lockReadOrder` knows the traded sides only, and `onInput` does not ask first. -/
theorem onInput_throws (m : Market α) {i : Context (OrderCancelRequest α)} {qty : α}
    (hq : i.message.orderQty = some qty) (hs : i.message.side.supported = false) :
    onInput m i = .error (.thrown "Side not supported, for lockReadOrder") := by
  simp [onInput, verifyOrderState, lockReadOrder, hq, hs, bind, Except.bind]

end Cancel

namespace Market

/-! ## The unit's thread on its own -/

/-- The Cancel unit's thread moves, no other does. -/
def UnitStep (m m' : Market α) : Prop := m.cancelUnitStep = some m'

theorem exec_cancelUnit (m : Market α) (u : CancelUnitPc α) (e : Effect α) :
    { m with cancelUnit := u }.exec e = (m.exec e).map fun m' => { m' with cancelUnit := u } := by
  cases e with
  | add info =>
    simp only [exec]
    cases m.ob.add info <;> rfl
  | cancel i =>
    simp only [exec]
    cases m.ob.cancel i.message.origClOrdId i.message.side <;> rfl
  | _ => rfl

theorem execAll_cons {m m' : Market α} {e : Effect α} {es : List (Effect α)}
    (h : m.execAll (e :: es) = .ok m') : ∃ m1, m.exec e = .ok m1 ∧ m1.execAll es = .ok m' := by
  rw [execAll, List.foldlM_cons] at h
  exact bind_eq_ok.1 h

theorem execAll_cancelUnit {es : List (Effect α)} {m m' : Market α} (h : m.execAll es = .ok m') :
    m'.cancelUnit = m.cancelUnit := by
  induction es generalizing m with
  | nil =>
    cases h
    rfl
  | cons e es ih =>
    obtain ⟨m1, done, h⟩ := execAll_cons h
    rw [ih h, (exec_frame done).cancelUnit]

/-- The thread carries out the effects it has left. -/
theorem unit_effects {es : List (Effect α)} {m m' : Market α} (h : m.execAll es = .ok m') :
    ReflTransGen UnitStep { m with cancelUnit := .running es }
      { m' with cancelUnit := .running [] } := by
  induction es generalizing m with
  | nil =>
    cases h
    exact .refl
  | cons e es ih =>
    obtain ⟨m1, done, h⟩ := execAll_cons h
    refine .head ?_ (ih h)
    simp [UnitStep, cancelUnitStep, exec_cancelUnit, done, Except.map, Except.toOption]

/-- The same, for a call that finds the thread at the start of its loop. -/
theorem unit_finishes {es : List (Effect α)} {m m' : Market α} (pc : m.cancelUnit = .running [])
    (h : m.execAll es = .ok m') :
    ReflTransGen UnitStep { m with cancelUnit := .running es } m' := by
  have hm' : m' = { m' with cancelUnit := .running [] } := by
    rw [← pc, ← execAll_cancelUnit h]
  rw [hm']
  exact unit_effects h

/-- A call of `onInput` is a run of the unit's thread; a call that throws ends the thread. -/
theorem onInput_steps {m : Market α} {i : Context (OrderCancelRequest α)}
    {rest : List (Context (OrderCancelRequest α))} (pc : m.cancelUnit = .running [])
    (input : m.cancelInput = i :: rest) :
    (∀ m', Cancel.onInput { m with cancelInput := rest } i = .ok m' →
      ReflTransGen UnitStep m m') ∧
    ∀ f, Cancel.onInput { m with cancelInput := rest } i = .error f →
      ∃ m', ReflTransGen UnitStep m m' ∧ m'.cancelUnit = .dead := by
  unfold Cancel.onInput Cancel.verifyOrderState lockReadOrder
  cases hq : i.message.orderQty with
  | none =>
    have first : UnitStep m
        { m with cancelInput := rest, cancelUnit := .running (Cancel.noQuantity i) } := by
      simp [UnitStep, cancelUnitStep, pc, input, hq]
    exact ⟨fun m' h => .head first (unit_finishes (m := { m with cancelInput := rest }) pc h),
      fun f h => by cases h⟩
  | some qty =>
    simp only [Option.isNone_some, Bool.false_eq_true, if_false, bind, Except.bind]
    cases hs : i.message.side.supported with
    | false =>
      have first : UnitStep m { m with cancelInput := rest, cancelUnit := .dead } := by
        simp [UnitStep, cancelUnitStep, pc, input, hq, hs]
      exact ⟨fun m' h => (by cases h), fun f h => ⟨_, .single first, rfl⟩⟩
    | true =>
      cases hid : m.ob.hasSide i.message.origClOrdId i.message.side with
      | false =>
        have first : UnitStep m
            { m with cancelInput := rest, cancelUnit := .running (Cancel.unknownOrder i) } := by
          simp [UnitStep, cancelUnitStep, pc, input, hq, hs, hid]
        exact ⟨fun m' h => .head first (unit_finishes (m := { m with cancelInput := rest }) pc h),
          fun f h => by cases h⟩
      | true =>
        have first : UnitStep m { m with cancelInput := rest, cancelUnit := .found i } := by
          simp [UnitStep, cancelUnitStep, pc, input, hq, hs, hid]
        cases get : m.ob.getOrder i.message.origClOrdId with
        | error f =>
          have second : UnitStep { m with cancelInput := rest, cancelUnit := .found i }
              { m with cancelInput := rest, cancelUnit := .dead } := by
            simp [UnitStep, cancelUnitStep, get]
          exact ⟨fun m' h => (by cases h), fun f h => ⟨_, .head first (.single second), rfl⟩⟩
        | ok order =>
          by_cases side : order.side = i.message.side
          · have second : UnitStep { m with cancelInput := rest, cancelUnit := .found i }
                { m with cancelInput := rest, cancelUnit := .verified i order } := by
              simp [UnitStep, cancelUnitStep, get, side]
            have third : UnitStep { m with cancelInput := rest, cancelUnit := .verified i order }
                { m with
                  cancelInput := rest
                  cancelUnit := .running (Cancel.accept m.ob.name i order (Cancel.busy m i)) } := rfl
            obtain ⟨m1, done, -⟩ := Cancel.accepted_accept { m with cancelInput := rest } i get
              (Cancel.busy m i)
            simp only [side, ne_eq, not_true_eq_false, if_false, pure, Except.pure]
            exact ⟨fun m' h => .head first (.head second (.head third
              (unit_finishes (m := { m with cancelInput := rest }) pc h))),
              fun f h => absurd (done.symm.trans h) (by simp)⟩
          · have second : UnitStep { m with cancelInput := rest, cancelUnit := .found i }
                { m with cancelInput := rest, cancelUnit := .running (Cancel.otherSide i) } := by
              simp [UnitStep, cancelUnitStep, get, side]
            simp only [side, ne_eq, not_false_eq_true, if_true, pure, Except.pure]
            exact ⟨fun m' h => .head first (.head second
              (unit_finishes (m := { m with cancelInput := rest }) pc h)), fun f h => by cases h⟩

/-- A thread that has ended takes no further request. -/
theorem unit_dead {m m' : Market α} (pc : m.cancelUnit = .dead) : ¬UnitStep m m' := by
  simp [UnitStep, cancelUnitStep, pc]

/-! ## One outcome -/

theorem cancel_outcome {name : String} {m : Market α} (hm : Reachable name m)
    (i : Context (OrderCancelRequest α)) :
    (∃ m', Cancel.onInput m i = .ok m' ∧ Xor (Cancel.Rejected i m m') (Cancel.Accepted i m m')) ↔
      i.message.orderQty = none ∨ i.message.side.supported = true := by
  constructor
  · rintro ⟨m', hok, -⟩
    by_contra hi
    rw [not_or, Bool.not_eq_true] at hi
    obtain ⟨qty, hq⟩ := Option.ne_none_iff_exists'.1 hi.1
    rw [Cancel.onInput_throws m hq hi.2] at hok
    cases hok
  · intro hi
    obtain ⟨m', hok, hr | ha⟩ := Cancel.onInput_returns (base_of_run hm).rep hi
    · exact ⟨m', hok, .inl ⟨hr, hr.not_accepted⟩⟩
    · exact ⟨m', hok, .inr ⟨ha, fun hr => hr.not_accepted ha⟩⟩

/-- A resting sell order of ten, in `m.ob` after the NewOrder worker is done with it. -/
def restingRun : List (Action ℚ) :=
  [.session [0] fun _ => "A",
    .route (.newOrder ⟨0, 0, "n1", ⟨1, 'D'⟩, ⟨"s1", .sell, some 10, .limit, some 5⟩⟩)] ++
  runs .router 2 ++ runs .newUnit 2 ++ runs .newWorker 6

/-- A request to cancel it, under a side of the client's choice. -/
def cancelRequest (side : Side) : Context (OrderCancelRequest ℚ) :=
  ⟨0, 0, "c1", ⟨2, 'F'⟩, ⟨"s1", "x1", side, some 10⟩⟩

/-- The router hands on a cancel of a short sale, and `onInput` throws. -/
theorem cancel_throws : ∃ m : Market ℚ, Reachable "AAPL" m ∧
    m.cancelInput = [cancelRequest .sellShort] ∧
    Cancel.onInput m (cancelRequest .sellShort) =
      .error (.thrown "Side not supported, for lockReadOrder") ∧
    ¬∃ m', Cancel.onInput m (cancelRequest .sellShort) = .ok m' ∧
      Xor (Cancel.Rejected (cancelRequest .sellShort) m m')
        (Cancel.Accepted (cancelRequest .sellShort) m m') := by
  have h : (Trans.exec step (fun _ _ => True) (Market.new "AAPL")
      (restingRun ++ [.route (.cancel (cancelRequest .sellShort))] ++ runs .router 2)).map
      Market.cancelInput = some [cancelRequest .sellShort] := by decide +kernel
  obtain ⟨m, hm, hin⟩ := Option.map_eq_some_iff.1 h
  have hthrow := Cancel.onInput_throws m (i := cancelRequest .sellShort) rfl rfl
  refine ⟨m, .of_exec .start hm, hin, hthrow, ?_⟩
  rintro ⟨m', hok, -⟩
  rw [hthrow] at hok
  cases hok

/-- The cancel of the resting order under its own side has one outcome. -/
theorem cancel_outcome_run : ∃ m m' : Market ℚ, Reachable "AAPL" m ∧ m.ob.has "s1" = true ∧
    Cancel.onInput m (cancelRequest .sell) = .ok m' ∧
    Xor (Cancel.Rejected (cancelRequest .sell) m m')
      (Cancel.Accepted (cancelRequest .sell) m m') := by
  have h : (Trans.exec step (fun _ _ => True) (Market.new "AAPL") restingRun).map
      (fun m => m.ob.has "s1") = some true := by decide +kernel
  obtain ⟨m, hm, hid⟩ := Option.map_eq_some_iff.1 h
  have hr : Reachable "AAPL" m := .of_exec .start hm
  obtain ⟨m', hok, hx⟩ := (cancel_outcome hr (cancelRequest .sell)).2 (.inr rfl)
  exact ⟨m, m', hr, hid, hok, hx⟩

end Market

end Fix42
