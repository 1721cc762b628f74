import Mathlib.Data.List.Induction
import Mathlib.Tactic.Ring
import Fix42.Book.Proof.Conservation
import Fix42.Book.Proof.Quantity
import Fix42.Book.Tape

/-!
# What the tape determines

`tick_of_history`: in every state the calls of the order book reach, the tick record is the one of
the history of trade prices, and so are all answers given to later queries. `average_price`: every
average price, at rest or reported, is the one of the trades so far. Both go through the calls of the
matching loop (`CallSteps`), one lemma for a call and one for the loop.
-/

namespace Fix42

open SortedMap

variable {α : Type*}

@[simp] theorem trades_append (l l' : List (TapeEntry α)) : trades (l ++ l') = trades l ++ trades l' :=
  List.filterMap_append

@[simp] theorem events_append (l l' : List (TapeEntry α)) : events (l ++ l') = events l ++ events l' :=
  List.filterMap_append

@[simp] theorem trades_map_event (es : List (Event α)) : trades (es.map .event) = [] := by
  simp [trades, List.filterMap_map]

@[simp] theorem events_map_event (es : List (Event α)) : events (es.map .event) = es := by
  simp [events, List.filterMap_map]

/-! ## Ticks -/

section
variable [LinearOrder α]

theorem tickOf_cons (p q : α) (ps : List α) : tickOf (p :: q :: ps) =
    if q < p then .plusTick
    else if p < q then .minusTick
    else if roseLast (q :: ps) then .zeroPlusTick else .zeroMinusTick := rfl

theorem roseLast_cons (p q : α) (ps : List α) : roseLast (p :: q :: ps) =
    if q < p then true else if p < q then false else roseLast (q :: ps) := rfl

/-- The tick rises exactly if the last change of price was upwards. -/
theorem tickOf_rises : ∀ ps : List α,
    tickOf ps = .plusTick ∨ tickOf ps = .zeroPlusTick ↔ roseLast ps = true
  | [] | [_] => by simp [tickOf, roseLast]
  | p :: q :: ps => by
    rw [tickOf_cons, roseLast_cons]
    split
    · simp
    · split
      · simp
      · cases roseLast (q :: ps) <;> simp

variable [Zero α]

theorem Tick.ofHistory_nil : (Tick.ofHistory [] : Tick α) = Tick.initial := rfl

/-- A trade puts its price in front of the history. -/
theorem Tick.trade_ofHistory (ps : List α) (price : α) :
    (Tick.ofHistory ps).trade price = Tick.ofHistory (price :: ps) := by
  obtain ⟨last, rest, hps⟩ : ∃ last rest, ps ++ [0] = last :: rest :=
    List.exists_cons_of_ne_nil (by simp)
  have hrises := tickOf_rises (last :: rest)
  simp only [Tick.ofHistory, List.cons_append, hps, List.headD_cons, List.tail_cons, Tick.trade,
    Tick.computeTick, tickOf_cons price]
  split
  · rfl
  · split
    · rfl
    · by_cases hr : roseLast (last :: rest) = true
      · rw [if_pos (hrises.2 hr), if_pos hr]
      · rw [if_neg fun h => hr (hrises.1 h), if_neg hr]

theorem Tick.settled_ofHistory (ps : List α) : (Tick.ofHistory ps).Settled := by
  cases ps with
  | nil => simp [Tick.ofHistory_nil, Tick.initial, Tick.Settled, Tick.computeTick]
  | cons price ps =>
    rw [← Tick.trade_ofHistory]
    exact Tick.settled_trade _ _

/-- A query does not change the tick record of a history. -/
theorem Tick.query_ofHistory (ps : List α) (side : Side) :
    (Tick.ofHistory ps).allowTick side = ((Tick.ofHistory ps).allows side, Tick.ofHistory ps) := by
  have hset := Tick.settled_ofHistory ps
  rw [Tick.Settled] at hset
  rw [Tick.allowTick, hset]

/-- Trades and queries in any order: the history decides. -/
theorem Tick.serve_ofHistory : ∀ (ops : List (TickOp α)) (ps : List α),
    (Tick.ofHistory ps).serve ops = (answersAfter ps ops, Tick.ofHistory (pricesAfter ps ops))
  | [], _ => rfl
  | .trade price :: ops, ps => by
    rw [Tick.serve, Tick.trade_ofHistory]
    exact serve_ofHistory ops (price :: ps)
  | .query side :: ops, ps => by
    simp only [Tick.serve, Tick.query_ofHistory, serve_ofHistory ops ps, answersAfter, pricesAfter]

end

variable [Field α] [LinearOrder α]

/-! ## Calls -/

theorem FillCall.entries_skip {c : FillCall α} (h : c.order.userId = c.main.order.userId) :
    c.entries = [] := by
  rw [FillCall.entries, fillOrder_skipped h]
  rfl

/-- The trade of a fill. -/
def FillCall.trade (c : FillCall α) : Trade α :=
  ⟨c.main.order.submission, c.order.submission, c.price, min c.order.remainQty c.main.order.remainQty⟩

/-- A fill is a trade and the event about the resting order. -/
theorem FillCall.entries_fill {c : FillCall α} (h : c.order.userId ≠ c.main.order.userId) :
    ∃ e, (fillOrder c.main c.price c.order).pushed = [e] ∧ c.entries =
      [.trade ⟨c.main.order.submission, c.order.submission, c.price,
        min c.order.remainQty c.main.order.remainQty⟩, .event e] := by
  have hne : (fillOrder c.main c.price c.order).status ≠ .skipped := by
    rw [fillOrder_status c.price h]
    split <;> simp
  rw [FillCall.entries, if_neg hne]
  simp [fillOrder, h]

/-- The loop pushes the events of its calls. -/
theorem CallSteps.events {c c' : List (α × Node α)} {st st' : FillState α} {cs : List (FillCall α)}
    (h : CallSteps (c, st) cs (c', st')) :
    st'.events = st.events ++ Fix42.events (cs.flatMap FillCall.entries) := by
  refine h.invariant (I := fun _ st1 cs =>
    st1.events = st.events ++ Fix42.events (cs.flatMap FillCall.entries)) (by simp [Fix42.events])
    fun c1 st1 cs ds c2 st2 hev hs => ?_
  rw [List.flatMap_append, events_append, ← List.append_assoc, ← hev]
  cases hs with
  | @fill l r price n st other active =>
    obtain ⟨e, hpush, hentries⟩ := FillCall.entries_fill (c := ⟨st1.main, price, n.order⟩) other
    rw [List.flatMap_singleton, hentries]
    simp only [FillState.fill, hpush]
    rfl
  | skip price same =>
    rw [List.flatMap_singleton, FillCall.entries_skip same]
    exact (List.append_nil _).symm
  | tick | note => exact (List.append_nil _).symm

/-- The trades of its calls move the tick. -/
theorem CallSteps.tick {c c' : List (α × Node α)} {st st' : FillState α} {cs : List (FillCall α)}
    (h : CallSteps (c, st) cs (c', st')) {ps : List α} (ht : st.tick = Tick.ofHistory ps) :
    st'.tick = Tick.ofHistory
      (((trades (cs.flatMap FillCall.entries)).map Trade.price).reverse ++ ps) := by
  refine h.invariant (I := fun _ st1 cs => st1.tick = Tick.ofHistory
    (((trades (cs.flatMap FillCall.entries)).map Trade.price).reverse ++ ps))
    (by simpa [trades] using ht) fun c1 st1 cs ds c2 st2 htick hs => ?_
  rw [List.flatMap_append]
  cases hs with
  | @fill l r price n st other active =>
    obtain ⟨e, -, hentries⟩ := FillCall.entries_fill (c := ⟨st1.main, price, n.order⟩) other
    rw [List.flatMap_singleton, hentries]
    simp only [FillState.fill, htick, Tick.trade_ofHistory, trades_append]
    simp [trades]
  | skip price same =>
    rw [List.flatMap_singleton, FillCall.entries_skip same, List.append_nil]
    exact htick
  | tick =>
    -- computing a tick again, as `allowTick` does before every level
    rw [List.flatMap_nil, List.append_nil]
    dsimp only
    rw [htick]
    exact Tick.settled_ofHistory _
  | note =>
    rw [List.flatMap_nil, List.append_nil]
    exact htick

/-! ## Calls of the order book -/

/-- What an `add` puts on the tape when its loop ends in `st` and is followed by `reports`. -/
theorem recorded_eq {ob ob' : OrderBook α} {info : OrderInfo α} {idmap : OrderIdMap α}
    {c : List (α × Node α)} {st : FillState α} {reports : List (Event α)}
    (h : CallSteps (ob.resting, ob.fillState idmap info) (ob.fillCalls info) (c, st))
    (hev : ob'.eventOutput = st.events ++ reports) : ob.recorded ob' info =
      (ob.fillCalls info).flatMap FillCall.entries ++ reports.map .event := by
  rw [OrderBook.recorded, hev, h.events]
  simp [OrderBook.fillState]

/-- The events among the entries are those appended to the queue, and the trades move the tick. -/
theorem add_recorded {ob ob' : OrderBook α} {i : NewOrderInput α} {ps : List α}
    (h : ob.add i.info = .ok ob') (ht : ob.tick = Tick.ofHistory ps) :
    ob'.eventOutput = ob.eventOutput ++ events (ob.recorded ob' i.info) ∧
    ob'.tick = Tick.ofHistory (((trades (ob.recorded ob' i.info)).map Trade.price).reverse ++ ps) := by
  obtain ⟨idmap, c, st, reports, left, hcalls, hev, htick, -⟩ := add_calls i.supported rfl h
  rw [recorded_eq hcalls hev, hev, htick, hcalls.tick ht, hcalls.events]
  constructor
  · simp [OrderBook.fillState]
  · simp only [trades_append, trades_map_event, List.append_nil]

omit [Field α] in
/-- A cancel takes orders out of the book and does nothing else that counts. -/
theorem cancel_frame {ob ob' : OrderBook α} {id : OrderId} {side : Side}
    (h : ob.cancel id side = .ok ob') :
    ob'.resting.Sublist ob.resting ∧ ob'.tick = ob.tick ∧ ob'.eventOutput = ob.eventOutput := by
  have hsub : ∀ {lt : α → α → Prop} {book book' : SortedMap α (OrderList α) lt}
      {info : OrderIdInfo α}, cancelOrder book info = .ok book' →
      (flat book'.entries).Sublist (flat book.entries) := by
    intro lt book book' info hok
    rw [cancelOrder_ok hok, adjust, revalue, flat_adjust]
    exact List.filter_sublist
  obtain ⟨info, -, ⟨-, askBook, hok, rfl⟩ | ⟨-, bidBook, hok, rfl⟩⟩ := cancel_cases h
  · exact ⟨(hsub hok).append (.refl _), rfl, rfl⟩
  · exact ⟨(List.Sublist.refl _).append (hsub hok), rfl, rfl⟩

namespace Tape

/-- What one call does. -/
theorem step_cases {t t' : Tape α} {call : BookCall α} (h : t.step call = some t') :
    (∃ i ob', call = .add i ∧ t.ob.add i.info = .ok ob' ∧
      t' = ⟨ob', t.log ++ t.ob.recorded ob' i.info, t.submitted ++ [i.executionId]⟩) ∨
    (∃ id side ob', call = .cancel id side ∧ t.ob.cancel id side = .ok ob' ∧
      t' = { t with ob := ob' }) ∨
    ∃ side, call = .allowTick side ∧ t' = { t with ob := (t.ob.allowTick side).2 } := by
  have hsome : ∀ {x : Except Fault (OrderBook α)} {f : OrderBook α → Tape α},
      x.toOption.map f = some t' → ∃ ob', x = .ok ob' ∧ t' = f ob' := by
    intro x f hx
    cases x with
    | error e => cases hx
    | ok ob' =>
      cases hx
      exact ⟨ob', rfl, rfl⟩
  cases call with
  | add i =>
    obtain ⟨ob', hok, rfl⟩ := hsome h
    exact .inl ⟨i, ob', rfl, hok, rfl⟩
  | cancel id side =>
    obtain ⟨ob', hok, rfl⟩ := hsome h
    exact .inr (.inl ⟨id, side, ob', rfl, hok, rfl⟩)
  | allowTick side =>
    cases h
    exact .inr (.inr ⟨side, rfl, rfl⟩)

/-- The tape and the book agree: the events are those in the queue, the tick is of the trades. -/
structure Agrees (t : Tape α) : Prop where
  events : t.ob.eventOutput = events t.log
  tick : t.ob.tick = Tick.ofHistory t.prices

theorem agrees_new (name : String) : (new name : Tape α).Agrees := ⟨rfl, rfl⟩

theorem Agrees.step {t t' : Tape α} {call : BookCall α} (h : t.Agrees)
    (hs : t.step call = some t') : t'.Agrees := by
  obtain ⟨i, ob', rfl, hadd, rfl⟩ | ⟨id, side, ob', rfl, hcancel, rfl⟩ | ⟨side, rfl, rfl⟩ :=
    step_cases hs
  · obtain ⟨hev, htick⟩ := add_recorded hadd h.tick
    refine ⟨?_, ?_⟩
    · rw [hev, h.events, events_append]
    · rw [htick, prices, prices, trades_append, List.map_append, List.reverse_append]
  · obtain ⟨-, htick, hev⟩ := cancel_frame hcancel
    exact ⟨hev.trans h.events, htick.trans h.tick⟩
  · refine ⟨h.events, ?_⟩
    change (t.ob.tick.allowTick side).2 = _
    rw [h.tick, Tick.query_ofHistory]
    rfl

theorem agrees_of_reach {name : String} {t : Tape α}
    (h : Trans.Reach step (new name) t) : t.Agrees :=
  h.invariant (agrees_new name) fun _ _ _ hI _ hs => hI.step hs

end Tape

/-- **The tick is a function of the trade history.** Whatever calls of the order book came before,
the tick record is the one of the prices of the trades on the tape, `allowTick` leaves the book as it
is, and any later trades and queries end in the record, and get the answers, that the prices alone
give. -/
theorem tick_of_history {name : String} {t : Tape α}
    (h : Trans.Reach Tape.step (Tape.new name) t) :
    t.ob.eventOutput = events t.log ∧ t.ob.tick = Tick.ofHistory t.prices ∧
    (∀ side, t.ob.allowTick side = ((Tick.ofHistory t.prices).allows side, t.ob)) ∧
    ∀ ops, t.ob.tick.serve ops = (answersAfter t.prices ops, Tick.ofHistory (pricesAfter t.prices ops))
    := by
  obtain ⟨hev, htick⟩ := Tape.agrees_of_reach h
  refine ⟨hev, htick, fun side => ?_, fun ops => ?_⟩
  · rw [OrderBook.allowTick, htick, Tick.query_ofHistory, ← htick]
  · rw [htick, Tick.serve_ofHistory]

/-! ## Average prices -/

section
omit [LinearOrder α]

@[simp] theorem turnover_append (l l' : List (TapeEntry α)) (k : ExecId) :
    turnover (l ++ l') k = turnover l k + turnover l' k := by
  simp [turnover]

@[simp] theorem turnover_event (e : Event α) (k : ExecId) : turnover [.event e] k = 0 := rfl

@[simp] theorem turnover_events (es : List (Event α)) (k : ExecId) :
    turnover (es.map .event) k = 0 := by
  simp [turnover]

@[simp] theorem turnover_trade (t : Trade α) (k : ExecId) : turnover [.trade t] k =
    (if t.taker = k then t.price * t.quantity else 0) +
      if t.maker = k then t.price * t.quantity else 0 := by
  simp [turnover, trades, Trade.amounts]

/-- An order keeps its average price when only other orders trade. -/
theorem Order.PricedBy.of_turnover {log log' : List (TapeEntry α)} {o : Order α} (h : o.PricedBy log)
    (ht : turnover log' o.submission = turnover log o.submission) : o.PricedBy log' :=
  Eq.trans h ht.symm

/-- The average price after a trade. -/
theorem Order.PricedBy.trade {log log' : List (TapeEntry α)} {o o' : Order α} (price q : α)
    (h : o.PricedBy log) (hsub : o'.submission = o.submission) (hcum : o'.cumQty = o.cumQty + q)
    (havg : o'.avgPrice = (o.cumQty * o.avgPrice + q * price) / (o.cumQty + q))
    (hne : o.cumQty + q ≠ 0)
    (ht : turnover log' o.submission = turnover log o.submission + price * q) : o'.PricedBy log' := by
  unfold Order.PricedBy at h ⊢
  rw [hsub, ht, ← h, havg, hcum, div_mul_cancel₀ _ hne]
  ring

theorem pricedIn_nil : PricedIn ([] : List (TapeEntry α)) := by
  intro pre e post h
  simp at h

/-- One more entry. -/
theorem PricedIn.concat {log : List (TapeEntry α)} {x : TapeEntry α} (h : PricedIn log)
    (hx : ∀ e, x = .event e → e.order.PricedBy log) : PricedIn (log ++ [x]) := by
  intro pre e post heq
  obtain rfl | ⟨post', y, rfl⟩ := post.eq_nil_or_concat
  · obtain ⟨rfl, hlast⟩ := List.append_inj' heq rfl
    exact hx e (List.singleton_inj.1 hlast)
  · rw [List.concat_eq_append, ← List.cons_append, ← List.append_assoc] at heq
    exact h pre e post' (List.append_inj' heq rfl).1

/-- Reports that carry an order of the right price. -/
theorem PricedIn.reports {log : List (TapeEntry α)} (h : PricedIn log) {es : List (Event α)}
    (hes : ∀ e ∈ es, e.order.PricedBy log) : PricedIn (log ++ es.map .event) := by
  induction es using List.reverseRecOn with
  | nil => simpa using h
  | append_singleton es e ih =>
    rw [List.map_append, ← List.append_assoc]
    refine (ih fun e' he' => hes e' (by simp [he'])).concat fun e' he' => ?_
    cases he'
    exact (hes e (by simp)).of_turnover (by simp)

end

/-- The matching loop with the tape so far: every order has the average price of its trades, and only
the submissions `known` have traded. -/
structure LoopPriced (known : List ExecId) (log : List (TapeEntry α)) (c : List (α × Node α))
    (main : Event α) : Prop where
  nodup : (main.order.submission :: submissions c).Nodup
  subset : main.order.submission :: submissions c ⊆ known
  fresh : ∀ k ∉ known, turnover log k = 0
  resting : ∀ x ∈ c, x.2.order.PricedBy log
  main : main.order.PricedBy log
  events : PricedIn log

/-- The entries of a fill count as its trade. -/
theorem turnover_fill (log : List (TapeEntry α)) {c : FillCall α}
    (other : c.order.userId ≠ c.main.order.userId) (k : ExecId) :
    turnover (log ++ c.entries) k = turnover (log ++ [.trade c.trade]) k := by
  obtain ⟨e, -, hentries⟩ := FillCall.entries_fill other
  rw [hentries, ← List.singleton_append, ← List.append_assoc, turnover_append _ [.event e]]
  simp [FillCall.trade]

/-- The average price of the resting order after a fill. -/
theorem Order.PricedBy.maker {log log' : List (TapeEntry α)} {c : FillCall α} {o : Order α}
    (h : c.order.PricedBy log) (hne : c.main.order.submission ≠ c.order.submission)
    (hq : c.order.cumQty + c.trade.quantity ≠ 0)
    (hlog : turnover log' c.order.submission =
      turnover (log ++ [.trade c.trade]) c.order.submission)
    (hsub : o.submission = c.order.submission) (hcum : o.cumQty = c.order.cumQty + c.trade.quantity)
    (havg : o.avgPrice = (c.order.cumQty * c.order.avgPrice + c.trade.quantity * c.price) /
      (c.order.cumQty + c.trade.quantity)) : o.PricedBy log' := by
  refine Order.PricedBy.trade c.price c.trade.quantity h hsub hcum havg hq ?_
  rw [hlog, turnover_append, turnover_trade]
  simp [FillCall.trade, hne]

/-- The average price of the incoming order after a fill. -/
theorem Order.PricedBy.taker {log log' : List (TapeEntry α)} {c : FillCall α} {o : Order α}
    (h : c.main.order.PricedBy log) (hne : c.main.order.submission ≠ c.order.submission)
    (hq : c.main.order.cumQty + c.trade.quantity ≠ 0)
    (hlog : turnover log' c.main.order.submission =
      turnover (log ++ [.trade c.trade]) c.main.order.submission)
    (hsub : o.submission = c.main.order.submission)
    (hcum : o.cumQty = c.main.order.cumQty + c.trade.quantity)
    (havg : o.avgPrice = (c.main.order.cumQty * c.main.order.avgPrice +
      c.trade.quantity * c.price) / (c.main.order.cumQty + c.trade.quantity)) : o.PricedBy log' := by
  refine Order.PricedBy.trade c.price c.trade.quantity h hsub hcum havg hq ?_
  rw [hlog, turnover_append, turnover_trade]
  simp [FillCall.trade, Ne.symm hne]

/-- A trade changes the turnover of its two parties only. -/
theorem turnover_others (log : List (TapeEntry α)) {c : FillCall α} {k : ExecId}
    (h1 : c.main.order.submission ≠ k) (h2 : c.order.submission ≠ k) :
    turnover (log ++ [.trade c.trade]) k = turnover log k := by
  rw [turnover_append, turnover_trade]
  simp [FillCall.trade, h1, h2]

/-- What the fill of a node makes of the prices; `hq`: the quantities it divides by are not zero. -/
theorem LoopPriced.fill {known : List ExecId} {log : List (TapeEntry α)} {l r : List (α × Node α)}
    {price : α} {n : Node α} {st : FillState α}
    (h : LoopPriced known log (l ++ (price, n) :: r) st.main)
    (other : n.order.userId ≠ st.main.order.userId)
    (active : st.main.order.remainQty = 0 → st.main.order.originalQty = 0)
    (hq : ∀ d ∈ FillCall.divisors ⟨st.main, price, n.order⟩, d ≠ 0) :
    LoopPriced known (log ++ FillCall.entries ⟨st.main, price, n.order⟩)
      (l ++ (cells price (st.kept price n) ++ r)) (st.fill price n).main := by
  obtain ⟨e, hpush, hentries⟩ := FillCall.entries_fill (c := ⟨st.main, price, n.order⟩) other
  have hlog := turnover_fill log (c := ⟨st.main, price, n.order⟩) other
  rw [FillCall.divisors, if_neg other] at hq
  have hnd := h.nodup
  simp only [submissions, List.map_append, List.map_cons, List.nodup_cons, List.mem_append,
    List.mem_cons, List.nodup_middle] at hnd
  obtain ⟨hmain, hn, -⟩ := hnd
  have hne : st.main.order.submission ≠ n.order.submission := fun he => hmain (.inr (.inl he))
  have hnode : n.order.PricedBy log := h.resting (price, n) (by simp)
  have hother : ∀ x ∈ l ++ r,
      x.2.order.PricedBy (log ++ FillCall.entries ⟨st.main, price, n.order⟩) := by
    intro x hx
    have hxl := List.mem_append.1 hx
    refine (h.resting x (by simp; tauto)).of_turnover ((hlog _).trans (turnover_others log ?_ ?_))
    · exact fun he => hmain (hxl.imp (fun hl => List.mem_map.2 ⟨x, hl, he.symm⟩)
        fun hr => .inr (List.mem_map.2 ⟨x, hr, he.symm⟩))
    · exact fun he => hn (hxl.imp (fun hl => List.mem_map.2 ⟨x, hl, he.symm⟩)
        fun hr => List.mem_map.2 ⟨x, hr, he.symm⟩)
  have hmsub : (st.fill price n).main.order.submission = st.main.order.submission := by
    simp [FillState.fill]
  have hsub := (FillStep.fill l r price other active).submissions.cons_cons st.main.order.submission
  refine ⟨hmsub ▸ h.nodup.sublist hsub, hmsub ▸ List.Subset.trans hsub.subset h.subset, fun k hk => ?_,
    fun x hx => ?_, ?_, ?_⟩
  · rw [hlog, turnover_others log, h.fresh k hk]
    · exact fun he => hk (he ▸ h.subset List.mem_cons_self)
    · exact fun he => hk (he ▸ h.subset (List.mem_cons_of_mem _ (by simp [submissions])))
  · simp only [List.mem_append] at hx
    rcases hx with hx | hx | hx
    · exact hother x (List.mem_append_left _ hx)
    · simp only [FillState.kept] at hx
      split at hx
      · cases hx
      · rw [cells, List.map_singleton, List.mem_singleton] at hx
        subst hx
        refine hnode.maker (c := ⟨st.main, price, n.order⟩) hne (hq _ (by simp [FillCall.trade]))
          (hlog _) (by simp) ?_ ?_
        · simp only [fillOrder, other, if_false, Order.cumQty, FillCall.trade]
          ring
        · simp [fillOrder, other, FillCall.trade]
    · exact hother x (List.mem_append_right _ hx)
  · refine h.main.taker (c := ⟨st.main, price, n.order⟩) hne (hq _ (by simp [FillCall.trade]))
      (hlog _) hmsub ?_ ?_
    · simp only [FillState.fill, fillOrder, other, if_false, Order.cumQty, FillCall.trade]
      ring
    · simp [FillState.fill, fillOrder, other, FillCall.trade]
  · -- the event carries the resting order as the fill leaves it
    simp only [fillOrder, other, if_false, List.cons.injEq, and_true] at hpush
    subst hpush
    rw [hentries, ← List.singleton_append, ← List.append_assoc]
    refine (h.events.concat (x := .trade _) fun e he => by cases he).concat fun e he => ?_
    cases he
    refine hnode.maker (c := ⟨st.main, price, n.order⟩) hne (hq _ (by simp [FillCall.trade]))
      rfl rfl ?_ rfl
    simp only [Order.cumQty, FillCall.trade]
    ring

section
variable [IsStrictOrderedRing α]

theorem CallSteps.priced {qty : α} {known : List ExecId} {log : List (TapeEntry α)}
    {c c' : List (α × Node α)} {st st' : FillState α} {cs : List (FillCall α)}
    (h : CallSteps (c, st) cs (c', st')) (hsane : LoopSane qty c st)
    (hp : LoopPriced known log c st.main) :
    LoopSane qty c' st' ∧ LoopPriced known (log ++ cs.flatMap FillCall.entries) c' st'.main := by
  refine h.invariant (I := fun c st cs => LoopSane qty c st ∧
    LoopPriced known (log ++ cs.flatMap FillCall.entries) c st.main) ⟨hsane, by simpa using hp⟩
    fun c st cs ds c' st' hI hs => ⟨hs.step.sane hI.1, ?_⟩
  obtain ⟨hsane, hp⟩ := hI
  rw [List.flatMap_append, ← List.append_assoc]
  cases hs with
  | @fill l r price n st other active =>
    rw [List.flatMap_singleton]
    refine hp.fill other active fun d hd => (FillCall.divisors_pos ?_ ?_ d hd).ne'
    · exact ⟨hsane.remain_pos active, hsane.original ▸ hsane.le⟩
    · exact hsane.resting (price, n) (by simp)
  | skip price same =>
    rw [List.flatMap_singleton, FillCall.entries_skip same, List.append_nil]
    exact hp
  | tick | note =>
    rw [List.flatMap_nil, List.append_nil]
    exact hp

namespace Tape

structure Priced (t : Tape α) : Prop where
  sane : t.ob.Sane
  nodup : (submissions t.ob.resting).Nodup
  subset : submissions t.ob.resting ⊆ t.submitted
  fresh : ∀ k ∉ t.submitted, turnover t.log k = 0
  resting : ∀ x ∈ t.ob.resting, x.2.order.PricedBy t.log
  events : PricedIn t.log

omit [IsStrictOrderedRing α] in
theorem priced_new (name : String) : (new name : Tape α).Priced where
  sane := ⟨fun x hx => (by cases hx), fun e he => by cases he⟩
  nodup := .nil
  subset := List.nil_subset _
  fresh _ _ := rfl
  resting x hx := by cases hx
  events := pricedIn_nil

/-- An order added for a positive quantity, under a new submission. -/
theorem Priced.add {t : Tape α} (h : t.Priced) {i : NewOrderInput α} {ob' : OrderBook α}
    (hq : 0 < i.orderQty) (hnew : i.executionId ∉ t.submitted) (hadd : t.ob.add i.info = .ok ob') :
    Priced ⟨ob', t.log ++ t.ob.recorded ob' i.info, t.submitted ++ [i.executionId]⟩ := by
  have hfresh := Worker.fresh i
  have hsane' := add_sane h.sane hfresh hq hadd
  obtain ⟨idmap, c, st, reports, left, hcalls, hev, -, hout, -, -, havg, hperm⟩ :=
    add_calls i.supported rfl hadd
  -- the loop starts with an order nobody has traded with
  have hmain : (mainEvent i.info.order).order.PricedBy t.log := by
    refine Eq.trans ?_ (h.fresh i.executionId hnew).symm
    simp [mainEvent, NewOrderInput.info, newOrderInfo]
  have hstart : LoopPriced (t.submitted ++ [i.executionId]) t.log t.ob.resting
      (mainEvent i.info.order) :=
    ⟨List.nodup_cons.2 ⟨fun hm => hnew (h.subset hm), h.nodup⟩,
      List.cons_subset.2 ⟨by simp [mainEvent, NewOrderInput.info, newOrderInfo],
        List.Subset.trans h.subset (List.subset_append_left _ _)⟩,
      fun k hk => h.fresh k fun hm => hk (List.mem_append_left _ hm), h.resting, hmain, h.events⟩
  obtain ⟨hloop, hpriced⟩ := hcalls.priced (hfresh.loopSane h.sane hq idmap) hstart
  have hsub : st.main.order.submission = i.executionId := hcalls.accounted.submission
  have hreports : ∀ k, turnover (t.log ++ (t.ob.fillCalls i.info).flatMap FillCall.entries ++
      reports.map .event) k =
      turnover (t.log ++ (t.ob.fillCalls i.info).flatMap FillCall.entries) k := fun k => by simp
  -- what rests is the incoming order as the loop leaves it
  have hrest : left.1 ≠ 0 → (OrderBook.restingOrder i.info left).PricedBy
      (t.log ++ (t.ob.fillCalls i.info).flatMap FillCall.entries) := fun hne => by
    have hprice := hpriced.main
    simp only [Order.PricedBy, Order.cumQty, hloop.original, hsub] at hprice
    simpa only [Order.PricedBy, Order.cumQty, OrderBook.restingOrder, havg hne, hout.left_eq]
  have hsubs : (submissions ob'.resting).Perm
      (submissions (if left.1 ≠ 0 then (i.price, ⟨t.ob.nextNode,
        OrderBook.restingOrder i.info left⟩) :: c else c)) := hperm.map _
  have hsublist : (submissions (if left.1 ≠ 0 then (i.price, (⟨t.ob.nextNode,
      OrderBook.restingOrder i.info left⟩ : Node α)) :: c else c)).Sublist
      (st.main.order.submission :: submissions c) := by
    rw [hsub]
    split
    · exact .refl _
    · exact List.sublist_cons_self _ _
  rw [recorded_eq hcalls hev, ← List.append_assoc]
  refine ⟨hsane', hsubs.nodup_iff.2 (hpriced.nodup.sublist hsublist),
    fun k hk => hpriced.subset (hsublist.subset (hsubs.mem_iff.1 hk)),
    fun k hk => (hreports k).trans (hpriced.fresh k hk), fun x hx => ?_,
    hpriced.events.reports fun e he => ?_⟩
  · have hx' := hperm.mem_iff.1 hx
    split at hx'
    · rename_i hleft
      rcases List.mem_cons.1 hx' with rfl | hx'
      · exact (hrest hleft).of_turnover (hreports _)
      · exact (hpriced.resting x hx').of_turnover (hreports _)
    · exact (hpriced.resting x hx').of_turnover (hreports _)
  · rcases hout.shape with hr | ⟨status, hr⟩
    · rw [hr] at he
      cases he
    · rw [hr, List.mem_singleton] at he
      rw [he]
      exact hpriced.main

theorem Priced.step {t t' : Tape α} {call : BookCall α} (h : t.Priced) (hc : t.Proper call)
    (hs : t.step call = some t') : t'.Priced := by
  obtain ⟨i, ob', rfl, hadd, rfl⟩ | ⟨id, side, ob', rfl, hcancel, rfl⟩ | ⟨side, rfl, rfl⟩ :=
    step_cases hs
  · exact h.add hc.1 hc.2 hadd
  · obtain ⟨hsub, -, hev⟩ := cancel_frame hcancel
    have hsubs : (submissions ob'.resting).Sublist (submissions t.ob.resting) := hsub.map _
    exact ⟨⟨fun x hx => h.sane.resting x (hsub.subset hx), hev ▸ h.sane.fills⟩,
      h.nodup.sublist hsubs, List.Subset.trans hsubs.subset h.subset, h.fresh,
      fun x hx => h.resting x (hsub.subset hx), h.events⟩
  · exact ⟨⟨h.sane.resting, h.sane.fills⟩, h.nodup, h.subset, h.fresh, h.resting, h.events⟩

end Tape

/-- **Average prices.** In a run that adds orders for positive quantities, each under a submission of
its own, every resting order's average price times its cumulative quantity is the sum of price times
quantity over its trades so far, and so it is in every event, over the trades before the event. -/
theorem average_price {name : String} {t : Tape α}
    (h : Trans.Run Tape.step Tape.Proper (Tape.new name) t) :
    t.ob.eventOutput = events t.log ∧
    (∀ x ∈ t.ob.resting, x.2.order.avgPrice * x.2.order.cumQty =
      turnover t.log x.2.order.submission) ∧
    ∀ pre e post, t.log = pre ++ .event e :: post →
      e.order.avgPrice * e.order.cumQty = turnover pre e.order.submission := by
  have hpriced : t.Priced := h.invariant (Tape.priced_new name) fun _ _ _ hI hc hs => hI.step hc hs
  exact ⟨(Tape.agrees_of_reach h.reach).events, hpriced.resting, hpriced.events⟩

end

/-- Two sells, a buy over both, and the rest of the second one hit as a resting order. -/
def tapeCalls : List (BookCall ℚ) :=
  [.add ⟨"A", "e1", "s1", 5, 10, .sell, Side.supported_sell⟩,
    .add ⟨"A", "e2", "s2", 6, 10, .sell, Side.supported_sell⟩,
    .allowTick .buyMinus, .add ⟨"B", "e3", "b1", 7, 15, .buy, Side.supported_buy⟩,
    .add ⟨"C", "e4", "b2", 6, 1, .buy, Side.supported_buy⟩, .cancel "s2" .sell]

theorem average_price_run : ∃ t : Tape ℚ,
    Trans.exec Tape.step Tape.Proper (Tape.new "AAPL") tapeCalls = some t ∧
    turnover t.log "e3" = 80 ∧ ∀ pre e post, t.log = pre ++ .event e :: post →
      e.order.avgPrice * e.order.cumQty = turnover pre e.order.submission := by
  have h : (Trans.exec Tape.step Tape.Proper (Tape.new "AAPL") tapeCalls).map
      (fun t => turnover t.log "e3") = some 80 := by decide +kernel
  obtain ⟨t, ht, hturn⟩ := Option.map_eq_some_iff.1 h
  exact ⟨t, ht, hturn, (average_price (Trans.Run.of_exec .start ht)).2.2⟩

/-- The third trade is at the price of the second. -/
theorem tick_of_history_run : ∃ t : Tape ℚ,
    Trans.exec Tape.step (fun _ _ => True) (Tape.new "AAPL") tapeCalls = some t ∧
    t.prices = [6, 6, 5] ∧ t.ob.tick = Tick.ofHistory [6, 6, 5] ∧
    (t.ob.allowTick .buyMinus).1 = true := by
  have h : (Trans.exec Tape.step (fun _ _ => True) (Tape.new "AAPL") tapeCalls).map
      (fun t => t.prices) = some [6, 6, 5] := by decide +kernel
  obtain ⟨t, ht, hprices⟩ := Option.map_eq_some_iff.1 h
  obtain ⟨-, htick, hallow, -⟩ := tick_of_history (Trans.Run.of_exec .start ht)
  rw [hprices] at htick hallow
  have hrising : (Tick.ofHistory [6, 6, 5] : Tick ℚ).allows .buyMinus = true := by decide +kernel
  exact ⟨t, ht, hprices, htick, (congrArg Prod.fst (hallow .buyMinus)).trans hrising⟩

end Fix42
