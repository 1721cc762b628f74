import Fix42.Book.Calls
import Mathlib.Logic.Relation

/-!
# The matching loop as a sequence of fills

`FillStep`: one fill on the opposite side seen as one list of priced nodes (`SortedMap.flat`), with
what it does to the main event, the tick, the id map and the event queue. `CallStep` is the same
with the calls of `fillOrder` it makes. `fillOnBook_calls`: the nested loop of `fillOnBook` is a
sequence of such steps, followed by at most one report about the incoming order (`Outcome`). The
invariants of the book are proved on the steps alone.
-/

namespace Fix42

open SortedMap Relation

variable {α : Type*} [Field α] [LinearOrder α]

/-! ## One fill -/

/-- What a fill of node `n` at `price` does apart from the book. -/
def FillState.fill (st : FillState α) (price : α) (n : Node α) : FillState α :=
  let r := fillOrder st.main price n.order
  { st with
    main := r.main
    tick := st.tick.trade price
    idmap := if r.status = .filled then removeFromIdMap st.idmap n.order.orderId else st.idmap
    events := st.events ++ r.pushed }

/-- The node after a fill: gone when nothing of it is left. -/
def FillState.kept (st : FillState α) (price : α) (n : Node α) : OrderList α :=
  let r := fillOrder st.main price n.order
  if r.status = .filled then [] else [{ n with order := r.order }]

/-- The nodes of a level with its price. -/
abbrev cells (price : α) (list : OrderList α) : List (α × Node α) := list.map (Prod.mk price)

/-- One step of the loop, on the opposite side and the loop's state: the fill of one order of
another user while the incoming order has something left, a tick computed again, or a log entry. -/
inductive FillStep : List (α × Node α) × FillState α → List (α × Node α) × FillState α → Prop
  | fill (l r : List (α × Node α)) (price : α) {n : Node α} {st : FillState α}
      (other : n.order.userId ≠ st.main.order.userId)
      (active : st.main.order.remainQty = 0 → st.main.order.originalQty = 0) :
      FillStep (l ++ (price, n) :: r, st) (l ++ (cells price (st.kept price n) ++ r), st.fill price n)
  | tick {c : List (α × Node α)} {st : FillState α} :
      FillStep (c, st) (c, { st with tick := st.tick.computeTick })
  | note {c : List (α × Node α)} {st : FillState α} (lookups : List Lookup) :
      FillStep (c, st) (c, { st with lookups })

abbrev FillSteps : List (α × Node α) × FillState α → List (α × Node α) × FillState α → Prop :=
  ReflTransGen FillStep

/-- A property kept by every step is kept by the loop. -/
theorem FillSteps.invariant {I : List (α × Node α) → FillState α → Prop}
    {c c' : List (α × Node α)} {st st' : FillState α} (h : FillSteps (c, st) (c', st')) (h0 : I c st)
    (hs : ∀ c st c' st', I c st → FillStep (c, st) (c', st') → I c' st') : I c' st' := by
  generalize hx : (c, st) = x at h
  generalize hy : (c', st') = y at h
  induction h generalizing c' st' with
  | refl => cases hx; cases hy; exact h0
  | tail _ hst ih => cases hy; exact hs _ _ _ _ (ih rfl) hst

/-- One step of the loop with the calls of `fillOrder` it makes. The call for an order of the same
user changes nothing. -/
inductive CallStep :
    List (α × Node α) × FillState α → List (FillCall α) → List (α × Node α) × FillState α → Prop
  | fill (l r : List (α × Node α)) (price : α) {n : Node α} {st : FillState α}
      (other : n.order.userId ≠ st.main.order.userId)
      (active : st.main.order.remainQty = 0 → st.main.order.originalQty = 0) :
      CallStep (l ++ (price, n) :: r, st) [⟨st.main, price, n.order⟩]
        (l ++ (cells price (st.kept price n) ++ r), st.fill price n)
  | skip {c : List (α × Node α)} {st : FillState α} (price : α) {o : Order α}
      (same : o.userId = st.main.order.userId) : CallStep (c, st) [⟨st.main, price, o⟩] (c, st)
  | tick {c : List (α × Node α)} {st : FillState α} :
      CallStep (c, st) [] (c, { st with tick := st.tick.computeTick })
  | note {c : List (α × Node α)} {st : FillState α} (lookups : List Lookup) :
      CallStep (c, st) [] (c, { st with lookups })

inductive CallSteps :
    List (α × Node α) × FillState α → List (FillCall α) → List (α × Node α) × FillState α → Prop
  | refl {x : List (α × Node α) × FillState α} : CallSteps x [] x
  | head {x y z : List (α × Node α) × FillState α} {ds cs : List (FillCall α)} :
      CallStep x ds y → CallSteps y cs z → CallSteps x (ds ++ cs) z

/-- Without the calls; one for an order of the same user leaves the state as a log entry that adds
nothing would. -/
theorem CallStep.step {x y : List (α × Node α) × FillState α} {ds : List (FillCall α)}
    (h : CallStep x ds y) : FillStep x y := by
  cases h with
  | fill l r price other active => exact .fill l r price other active
  | @skip c st price o same => exact .note st.lookups
  | tick => exact .tick
  | note lookups => exact .note lookups

theorem CallStep.frame {c c' : List (α × Node α)} {ds : List (FillCall α)} {st st' : FillState α}
    (h : CallStep (c, st) ds (c', st')) (pre post : List (α × Node α)) :
    CallStep (pre ++ c ++ post, st) ds (pre ++ c' ++ post, st') := by
  cases h with
  | fill l r price other active =>
    have := CallStep.fill (pre ++ l) (r ++ post) price other active
    simpa only [List.append_assoc, List.cons_append] using this
  | skip price same => exact .skip price same
  | tick => exact .tick
  | note => exact .note _

namespace CallSteps

variable {x y z : List (α × Node α) × FillState α} {c c' : List (α × Node α)} {st st' : FillState α}
  {cs ds : List (FillCall α)}

theorem single (h : CallStep x cs y) : CallSteps x cs y := by
  have := CallSteps.head h .refl
  rwa [List.append_nil] at this

theorem trans (h : CallSteps x cs y) (h' : CallSteps y ds z) : CallSteps x (cs ++ ds) z := by
  induction h with
  | refl => exact h'
  | head hs _ ih =>
    rw [List.append_assoc]
    exact .head hs (ih h')

theorem frame (h : CallSteps x cs y) (pre post : List (α × Node α)) :
    CallSteps (pre ++ x.1 ++ post, x.2) cs (pre ++ y.1 ++ post, y.2) := by
  induction h with
  | refl => exact .refl
  | head hs _ ih => exact .head (hs.frame pre post) ih

/-- A property of the state and the calls made so far that every step keeps is kept by the loop. -/
theorem invariant {I : List (α × Node α) → FillState α → List (FillCall α) → Prop}
    (h : CallSteps (c, st) cs (c', st')) (h0 : I c st [])
    (hs : ∀ c st cs ds c' st', I c st cs → CallStep (c, st) ds (c', st') → I c' st' (cs ++ ds)) :
    I c' st' cs := by
  have key : ∀ {x y : List (α × Node α) × FillState α} {cs : List (FillCall α)},
      CallSteps x cs y → ∀ pre, I x.1 x.2 pre → I y.1 y.2 (pre ++ cs) := by
    intro x y cs h
    -- `pre`: the calls made before this stretch
    induction h with
    | refl =>
      intro pre hI
      rwa [List.append_nil]
    | head hst _ ih =>
      intro pre hI
      rw [← List.append_assoc]
      exact ih _ (hs _ _ _ _ _ _ hI hst)
  exact key h [] h0

theorem steps (h : CallSteps x cs y) : FillSteps x y := by
  induction h with
  | refl => exact .refl
  | head hs _ ih => exact .head hs.step ih

end CallSteps

/-! ## The loop over one level -/

theorem fillOrder_skipped {main : Event α} {price : α} {o : Order α}
    (h : o.userId = main.order.userId) : fillOrder main price o = ⟨.skipped, main, o, []⟩ := if_pos h

theorem fillOrder_status {main : Event α} (price : α) {o : Order α}
    (h : o.userId ≠ main.order.userId) :
    (fillOrder main price o).status =
      if o.remainQty - min o.remainQty main.order.remainQty = 0 then .filled
      else .partialyFilled := by
  simp [fillOrder, h]

@[simp] theorem fillOrder_userId (main : Event α) (price : α) (o : Order α) :
    (fillOrder main price o).main.order.userId = main.order.userId := by
  unfold fillOrder; split <;> rfl

@[simp] theorem fillOrder_originalQty (main : Event α) (price : α) (o : Order α) :
    (fillOrder main price o).main.order.originalQty = main.order.originalQty := by
  unfold fillOrder; split <;> rfl

/-- The cells read for node `n`, visited after `kept` and before `rest`. -/
def FillState.seen (st : FillState α) (price : α) (kept : OrderList α) (n : Node α)
    (rest : OrderList α) : List Lookup :=
  ⟨.fillOrder, (deref (kept ++ n :: rest) n.addr).isSome⟩ ::
    if (fillOrder st.main price n.order).status = .filled then
      [⟨.removeFromIdMap, (deref (kept ++ rest) n.addr).isSome⟩]
    else []

/-- An order of the same user is passed over. -/
theorem fillList_skip {price : α} {kept rest : OrderList α} {n : Node α} {st : FillState α}
    (h : n.order.userId = st.main.order.userId) :
    fillList price kept (n :: rest) st = fillList price (kept ++ [n]) rest
      (st.note .fillOrder (deref (kept ++ n :: rest) n.addr).isSome) := by
  simp [fillList, fillOrder_skipped h, FillState.note, FillState.push]

/-- An order of another user is filled; the loop ends if that leaves nothing of the incoming one. -/
theorem fillList_fill {price : α} {kept rest : OrderList α} {n : Node α} {st : FillState α}
    (h : n.order.userId ≠ st.main.order.userId) :
    fillList price kept (n :: rest) st =
      let st' := { st.fill price n with lookups := st.lookups ++ st.seen price kept n rest }
      if st'.main.order.remainQty = 0 then
        (kept ++ (st.kept price n ++ rest), st'.push [{ st'.main with execStatus := .filled }], true)
      else fillList price (kept ++ st.kept price n) rest st' := by
  have hs := fillOrder_status price h
  by_cases hz : n.order.remainQty - min n.order.remainQty st.main.order.remainQty = 0 <;>
    by_cases hm : (fillOrder st.main price n.order).main.order.remainQty = 0 <;>
    simp [fillList, settle, FillState.note, FillState.push, FillState.fill, FillState.kept,
      FillState.seen, hs, hz, hm]

/-- The incoming order has something left, or came with nothing. -/
def FillState.Active (st : FillState α) : Prop :=
  st.main.order.remainQty = 0 → st.main.order.originalQty = 0

/-- How a loop over cells ends: `done` right after the report of a filled incoming order, otherwise
with the order still active. -/
def LoopEnd (st st' : FillState α) (done : Bool) : Prop :=
  if done then st.main.order.remainQty = 0 ∧ st' = st.push [{ st.main with execStatus := .filled }]
  else st.Active ∧ st' = st

theorem fillListCalls_skip {price : α} {n : Node α} {rest : OrderList α} {main : Event α}
    (h : n.order.userId = main.order.userId) :
    fillListCalls price (n :: rest) main =
      ⟨main, price, n.order⟩ :: fillListCalls price rest main := by
  simp [fillListCalls, fillOrder_skipped h]

theorem fillListCalls_fill {price : α} {n : Node α} {rest : OrderList α} {st : FillState α}
    (h : n.order.userId ≠ st.main.order.userId) :
    fillListCalls price (n :: rest) st.main = ⟨st.main, price, n.order⟩ ::
      if (st.fill price n).main.order.remainQty = 0 then []
      else fillListCalls price rest (st.fill price n).main := by
  have hne : (fillOrder st.main price n.order).status ≠ .skipped := by
    rw [fillOrder_status price h]
    split <;> simp
  rw [fillListCalls]
  simp only [hne, ne_eq, not_false_eq_true, true_and]
  rfl

theorem fillList_calls (price : α) (pre post : List (α × Node α)) :
    ∀ (rest kept : OrderList α) (st : FillState α), st.Active →
      ∃ st', CallSteps (pre ++ (cells price (kept ++ rest) ++ post), st)
          (fillListCalls price rest st.main)
          (pre ++ (cells price (fillList price kept rest st).1 ++ post), st') ∧
        LoopEnd st' (fillList price kept rest st).2.1 (fillList price kept rest st).2.2
  | [], kept, st, hact => by
    refine ⟨st, ?_, hact, rfl⟩
    simp only [fillList, fillListCalls, List.append_nil]
    exact .refl
  | n :: rest, kept, st, hact => by
    by_cases hu : n.order.userId = st.main.order.userId
    · rw [fillList_skip hu, fillListCalls_skip hu]
      obtain ⟨st', hsteps, hend⟩ := fillList_calls price pre post rest (kept ++ [n])
        (st.note .fillOrder (deref (kept ++ n :: rest) n.addr).isSome) hact
      have hnote : CallSteps (pre ++ (cells price (kept ++ n :: rest) ++ post), st)
          [⟨st.main, price, n.order⟩] (pre ++ (cells price (kept ++ n :: rest) ++ post),
            st.note .fillOrder (deref (kept ++ n :: rest) n.addr).isSome) :=
        .head (.skip price hu) (.single (.note _))
      refine ⟨st', hnote.trans ?_, hend⟩
      rw [List.append_assoc, List.singleton_append] at hsteps
      exact hsteps
    · have hfill : CallSteps (pre ++ (cells price (kept ++ n :: rest) ++ post), st)
          [⟨st.main, price, n.order⟩]
          (pre ++ (cells price (kept ++ (st.kept price n ++ rest)) ++ post),
            { st.fill price n with lookups := st.lookups ++ st.seen price kept n rest }) := by
        have h1 := CallStep.fill (pre ++ cells price kept) (cells price rest ++ post) price hu
          hact
        simp only [cells, List.map_append, List.map_cons, List.append_assoc, List.cons_append]
          at h1 ⊢
        exact .head h1 (.single (.note _))
      rw [fillList_fill hu, fillListCalls_fill hu]
      dsimp only
      split
      · rename_i hz
        exact ⟨_, hfill, hz, rfl⟩
      · rename_i hz
        obtain ⟨st', hsteps, hend⟩ := fillList_calls price pre post rest
          (kept ++ st.kept price n)
          { st.fill price n with lookups := st.lookups ++ st.seen price kept n rest }
          fun h0 => absurd h0 hz
        refine ⟨st', hfill.trans ?_, hend⟩
        simpa only [List.append_assoc] using hsteps

/-! ## The loop over the levels -/

/-- Whether the price loop ended by filling the incoming order. -/
def Exit.isFilled : Exit → Bool
  | .filled => true
  | _ => false

theorem fillLevels_calls (cmp : α → α → Bool) (info : OrderInfo α) (pre : List (α × Node α)) :
    ∀ (levels : List (α × OrderList α)) (st : FillState α), st.Active →
      ∃ st', CallSteps (pre ++ flat levels, st) (fillLevelsCalls cmp info levels st)
          (pre ++ flat (fillLevels cmp info levels st).1, st') ∧
        LoopEnd st' (fillLevels cmp info levels st).2.1
          (fillLevels cmp info levels st).2.2.isFilled
  | [], st, hact => ⟨st, .refl, hact, rfl⟩
  | (price, list) :: levels, st, hact => by
    unfold fillLevels fillLevelsCalls
    split
    · exact ⟨st, .refl, hact, rfl⟩
    · dsimp only
      have haux : CallSteps (pre ++ flat ((price, list) :: levels), st) []
          (pre ++ flat ((price, list) :: levels), { st with tick := st.tick.computeTick }) :=
        .single .tick
      split
      · exact ⟨{ st with tick := st.tick.computeTick }, haux, hact, rfl⟩
      · obtain ⟨st1, hsteps, hend⟩ := fillList_calls price pre (flat levels) list []
          { st with tick := (st.tick.allowTick info.order.side).2 } hact
        have hsteps := haux.trans hsteps
        split
        · rename_i list' st' heq
          rw [heq] at hsteps hend
          simp only [heq, List.append_nil]
          exact ⟨st1, hsteps, hend⟩
        · rename_i list' st' heq
          rw [heq] at hsteps hend
          obtain ⟨hact', rfl⟩ := hend
          obtain ⟨st2, hsteps2, hend2⟩ := fillLevels_calls cmp info
            (pre ++ cells price list') levels _ hact'
          simp only [heq]
          refine ⟨st2, hsteps.trans ?_, hend2⟩
          simpa only [flat_cons, List.append_assoc] using hsteps2

/-! ## `fillOnBook` -/

/-- What follows the fills: the reports about the incoming order and the remaining quantity. Only a
refused tick can leave a partly filled order without a report. -/
structure Outcome (info : OrderInfo α) (st : FillState α) (reports : List (Event α)) (left : α × α)
    (exit : Exit) : Prop where
  left_eq : left.1 = st.main.order.remainQty
  shape : reports = [] ∨ ∃ status, reports = [{ st.main with execStatus := status }]
  filled : exit = .filled → st.main.order.remainQty = 0 ∧
    reports = [{ st.main with execStatus := .filled }]
  silent : exit = .tickRefused → reports = []
  partly : exit = .priceLimit ∨ exit = .exhausted → reports =
    if st.main.order.remainQty ≠ info.order.originalQty
    then [{ st.main with execStatus := .partiallyFilled }] else []

/-- The exit the price loop of `fillOnBook` takes. -/
def fillExit {lt : α → α → Prop} (cmp : α → α → Bool) (book : SortedMap α (OrderList α) lt)
    (info : OrderInfo α) (st : FillState α) : Exit := (fillLevels cmp info book.entries st).2.2

theorem fillOnBook_calls {lt : α → α → Prop} (cmp : α → α → Bool)
    (book : SortedMap α (OrderList α) lt) (info : OrderInfo α) (st : FillState α)
    (hact : st.Active) :
    ∃ st' reports, CallSteps (flat book.entries, st) (fillLevelsCalls cmp info book.entries st)
        (flat (fillOnBook cmp book info st).book.entries, st') ∧
      (fillOnBook cmp book info st).st = st'.push reports ∧
      Outcome info st' reports (fillOnBook cmp book info st).left
        (fillExit cmp book info st) ∧
      (fillExit cmp book info st ≠ .filled → st'.Active) ∧
      ((fillOnBook cmp book info st).left.1 ≠ 0 →
        (fillOnBook cmp book info st).left.2 = st'.main.order.avgPrice) := by
  obtain ⟨st', hsteps, hend⟩ := fillLevels_calls cmp info [] book.entries st hact
  refine ⟨st', ?_⟩
  simp only [fillOnBook, fillExit, SortedMap.revalue]
  generalize hr : fillLevels cmp info book.entries st = r at hsteps hend
  obtain ⟨levels, st1, exit⟩ := r
  cases exit with
  | filled =>
    obtain ⟨hz, rfl⟩ := hend
    exact ⟨_, hsteps, rfl, ⟨by simp [fillEnd, hz], .inr ⟨_, rfl⟩, fun _ => ⟨hz, rfl⟩, by simp,
      by simp⟩, fun hne => absurd rfl hne, fun hne => absurd rfl hne⟩
  | tickRefused =>
    obtain ⟨hact', rfl⟩ := hend
    exact ⟨[], hsteps, by simp [fillEnd, FillState.push],
      ⟨rfl, .inl rfl, by simp, fun _ => rfl, by simp⟩, fun _ => hact', fun _ => rfl⟩
  | priceLimit | exhausted =>
    obtain ⟨hact', rfl⟩ := hend
    refine ⟨_, hsteps, ?_, ⟨rfl, ?_, by simp, by simp, fun _ => rfl⟩, fun _ => hact', fun _ => rfl⟩
    · simp only [fillEnd]
      split <;> simp [FillState.push]
    · split
      · exact .inr ⟨_, rfl⟩
      · exact .inl rfl

theorem fillOnBook_spec {lt : α → α → Prop} (cmp : α → α → Bool)
    (book : SortedMap α (OrderList α) lt) (info : OrderInfo α) (st : FillState α)
    (hact : st.Active) :
    ∃ st' reports, FillSteps (flat book.entries, st)
        (flat (fillOnBook cmp book info st).book.entries, st') ∧
      (fillOnBook cmp book info st).st = st'.push reports ∧
      Outcome info st' reports (fillOnBook cmp book info st).left
        (fillExit cmp book info st) := by
  obtain ⟨st', reports, hcalls, hst, hout, -⟩ := fillOnBook_calls cmp book info st hact
  exact ⟨st', reports, hcalls.steps, hst, hout⟩

/-! ## `add` -/

/-- What `add` leaves of a buy: the ask side as matched, and the rest of the order on the bid
side. -/
theorem add_bid {ob ob' : OrderBook α} {info : OrderInfo α} (hb : info.order.side.isBid = true)
    (h : ob.add info = .ok ob') :
    let r := fillOnBook (fun a b => a ≤ b) ob.askBook info (ob.fillState ob.askId info)
    ob'.askBook = r.book ∧ ob'.askId = r.st.idmap ∧ ob'.tick = r.st.tick ∧
      ob'.eventOutput = r.st.events ∧ ob'.lookups = r.st.lookups ∧
      (ob'.bidBook, ob'.bidId) = if r.left.1 ≠ 0 then
          addToBook ob.bidBook ob.bidId info.price
            ⟨ob.nextNode, OrderBook.restingOrder info r.left⟩
        else (ob.bidBook, ob.bidId) := by
  simp only [OrderBook.add, hb, if_true] at h
  dsimp only
  split at h <;> cases h <;> simp_all

/-- What `add` leaves of a sell. -/
theorem add_ask {ob ob' : OrderBook α} {info : OrderInfo α} (ha : info.order.side.isAsk = true)
    (h : ob.add info = .ok ob') :
    let r := fillOnBook (fun a b => a ≥ b) ob.bidBook info (ob.fillState ob.bidId info)
    ob'.bidBook = r.book ∧ ob'.bidId = r.st.idmap ∧ ob'.tick = r.st.tick ∧
      ob'.eventOutput = r.st.events ∧ ob'.lookups = r.st.lookups ∧
      (ob'.askBook, ob'.askId) = if r.left.1 ≠ 0 then
          addToBook ob.askBook ob.askId info.price
            ⟨ob.nextNode, OrderBook.restingOrder info r.left⟩
        else (ob.askBook, ob.askId) := by
  simp only [OrderBook.add, Side.isBid_of_isAsk ha, ha, if_true, Bool.false_eq_true, if_false] at h
  dsimp only
  split at h <;> cases h <;> simp_all

/-- The exit the price loop of `add` takes. -/
def OrderBook.exit (ob : OrderBook α) (info : OrderInfo α) : Exit :=
  if info.order.side.isBid then
    fillExit (fun a b => a ≤ b) ob.askBook info (ob.fillState ob.askId info)
  else fillExit (fun a b => a ≥ b) ob.bidBook info (ob.fillState ob.bidId info)

theorem addToBook_resting {lt : α → α → Prop} [DecidableRel lt] [IsTrans α lt]
    (htri : ∀ a b : α, ¬ lt a b → ¬ lt b a → a = b) {book book' : SortedMap α (OrderList α) lt}
    {idmap idmap' : OrderIdMap α} {price left : α} {n : Node α}
    (h : (book', idmap') = if left ≠ 0 then addToBook book idmap price n else (book, idmap)) :
    (flat book'.entries).Perm
      (if left ≠ 0 then (price, n) :: flat book.entries else flat book.entries) := by
  have hbook : book' = _ := congrArg Prod.fst h
  rw [hbook]
  split
  · exact flat_upsert htri
  · exact .refl _

/-- `add` on either side: a sequence of fills among the resting orders, the reports about the
incoming one, and what is left of it at rest. -/
theorem add_calls {ob ob' : OrderBook α} {info : OrderInfo α}
    (hs : info.order.side.supported = true) (hq : info.order.remainQty = info.order.originalQty)
    (h : ob.add info = .ok ob') :
    ∃ idmap c st reports left,
      CallSteps (ob.resting, ob.fillState idmap info) (ob.fillCalls info) (c, st) ∧
      ob'.eventOutput = st.events ++ reports ∧ ob'.tick = st.tick ∧
      Outcome info st reports left (ob.exit info) ∧ left.1 = ob.unmatched info ∧
      (ob.exit info ≠ .filled → st.Active) ∧ (left.1 ≠ 0 → left.2 = st.main.order.avgPrice) ∧
      ob'.resting.Perm (if left.1 ≠ 0 then
        (info.price, ⟨ob.nextNode, OrderBook.restingOrder info left⟩) :: c else c) := by
  rcases Bool.or_eq_true_iff.1 hs with hb | ha
  · obtain ⟨st, reports, hcalls, hst, hout, hend, havg⟩ := fillOnBook_calls (fun a b => a ≤ b)
      ob.askBook info (ob.fillState ob.askId info) fun h0 => hq ▸ h0
    obtain ⟨hask, -, htick, hev, -, hbid⟩ := add_bid hb h
    have hexit : ob.exit info = _ := if_pos hb
    rw [← hexit] at hout hend
    rw [OrderBook.fillCalls, if_pos hb]
    refine ⟨_, _, st, reports, _, hcalls.frame [] (flat ob.bidBook.entries), ?_, ?_, hout,
      (if_pos hb).symm, hend, havg, ?_⟩
    · rw [hev, hst]
      rfl
    · rw [htick, hst]
      rfl
    · rw [OrderBook.resting, hask]
      refine ((addToBook_resting (fun a b h1 h2 => le_antisymm (not_lt.1 h1) (not_lt.1 h2))
        hbid).append_left _).trans ?_
      split
      · exact List.perm_middle
      · exact .refl _
  · obtain ⟨st, reports, hcalls, hst, hout, hend, havg⟩ := fillOnBook_calls (fun a b => a ≥ b)
      ob.bidBook info (ob.fillState ob.bidId info) fun h0 => hq ▸ h0
    obtain ⟨hbid, -, htick, hev, -, hask⟩ := add_ask ha h
    have hnb : ¬ info.order.side.isBid = true := by simp [Side.isBid_of_isAsk ha]
    have hexit : ob.exit info = _ := if_neg hnb
    rw [← hexit] at hout hend
    have hframe := hcalls.frame (flat ob.askBook.entries) []
    rw [List.append_nil, List.append_nil] at hframe
    rw [OrderBook.fillCalls, if_neg hnb, if_pos ha]
    refine ⟨_, _, st, reports, _, hframe, ?_, ?_, hout, (if_neg hnb).symm, hend, havg, ?_⟩
    · rw [hev, hst]
      rfl
    · rw [htick, hst]
      rfl
    · rw [OrderBook.resting, hbid]
      refine ((addToBook_resting (fun a b h1 h2 => le_antisymm (not_lt.1 h2) (not_lt.1 h1))
        hask).append_right _).trans ?_
      split <;> simp

theorem add_spec {ob ob' : OrderBook α} {info : OrderInfo α}
    (hs : info.order.side.supported = true) (hq : info.order.remainQty = info.order.originalQty)
    (h : ob.add info = .ok ob') :
    ∃ idmap c st reports left, FillSteps (ob.resting, ob.fillState idmap info) (c, st) ∧
      ob'.eventOutput = st.events ++ reports ∧
      Outcome info st reports left (ob.exit info) ∧ left.1 = ob.unmatched info ∧
      ob'.resting.Perm (if left.1 ≠ 0 then
        (info.price, ⟨ob.nextNode, OrderBook.restingOrder info left⟩) :: c else c) := by
  obtain ⟨idmap, c, st, reports, left, hcalls, hev, -, hout, hleft, -, -, hperm⟩ := add_calls hs hq h
  exact ⟨idmap, c, st, reports, left, hcalls.steps, hev, hout, hleft, hperm⟩

/-! ## The orders of the book -/

/-- A fill leaves both orders what they are. -/
theorem fillOrder_sameAs (main : Event α) (price : α) (o : Order α) :
    (fillOrder main price o).order.SameAs o ∧
    (fillOrder main price o).main.order.SameAs main.order ∧
    ∀ e ∈ (fillOrder main price o).pushed, e.order.SameAs o := by
  unfold fillOrder
  split
  · exact ⟨.refl o, .refl _, by simp⟩
  · exact ⟨⟨rfl, rfl, rfl, rfl⟩, ⟨rfl, rfl, rfl, rfl⟩, fun e he => by
      rw [List.mem_singleton.1 he]
      exact ⟨rfl, rfl, rfl, rfl⟩⟩

/-- A step of the loop leaves resting orders and events of orders that were resting, and its incoming
order. -/
theorem FillStep.sameAs {c c' : List (α × Node α)} {st st' : FillState α}
    (h : FillStep (c, st) (c', st')) :
    (∀ x ∈ c', ∃ y ∈ c, x.2.order.SameAs y.2.order) ∧ st'.main.order.SameAs st.main.order ∧
    ∀ e ∈ st'.events, e ∈ st.events ∨ ∃ y ∈ c, e.order.SameAs y.2.order := by
  cases h with
  | tick | note => exact ⟨fun x hx => ⟨x, hx, .refl _⟩, .refl _, fun e he => .inl he⟩
  | @fill l r price n st other active =>
    obtain ⟨horder, hmain, hpushed⟩ := fillOrder_sameAs st.main price n.order
    refine ⟨fun x hx => ?_, hmain, fun e he => ?_⟩
    · rcases List.mem_append.1 hx with hx | hx
      · exact ⟨x, List.mem_append_left _ hx, .refl _⟩
      · rcases List.mem_append.1 hx with hx | hx
        · simp only [FillState.kept] at hx
          split at hx
          · cases hx
          · rw [cells, List.map_singleton, List.mem_singleton] at hx
            subst hx
            exact ⟨(price, n), by simp, horder⟩
        · exact ⟨x, by simp [hx], .refl _⟩
    · rcases List.mem_append.1 he with he | he
      · exact .inl he
      · exact .inr ⟨(price, n), by simp, hpushed e he⟩

/-- What rests after an `add` rested before or is the new order. -/
theorem add_resting_sameAs {ob ob' : OrderBook α} {info : OrderInfo α}
    (hs : info.order.side.supported = true) (hq : info.order.remainQty = info.order.originalQty)
    (h : ob.add info = .ok ob') {x : α × Node α} (hx : x ∈ ob'.resting) :
    (∃ y ∈ ob.resting, x.2.order.SameAs y.2.order) ∨ x.2.order.SameAs info.order := by
  obtain ⟨idmap, c, st, reports, left, hsteps, -, -, -, hperm⟩ := add_spec hs hq h
  have hloop : ∀ x ∈ c, ∃ y ∈ ob.resting, x.2.order.SameAs y.2.order := by
    refine hsteps.invariant (I := fun c _ => ∀ x ∈ c, ∃ y ∈ ob.resting, x.2.order.SameAs y.2.order)
      (fun x hx => ⟨x, hx, .refl _⟩) fun c st c' st' hI hstep x hx => ?_
    obtain ⟨y, hy, hxy⟩ := hstep.sameAs.1 x hx
    obtain ⟨z, hz, hyz⟩ := hI y hy
    exact ⟨z, hz, hxy.trans hyz⟩
  have hx' := hperm.mem_iff.1 hx
  split at hx'
  · rcases List.mem_cons.1 hx' with rfl | hx'
    · exact .inr ⟨rfl, rfl, rfl, rfl⟩
    · exact .inl (hloop x hx')
  · exact .inl (hloop x hx')

end Fix42
