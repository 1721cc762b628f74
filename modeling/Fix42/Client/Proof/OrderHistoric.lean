import Mathlib.Data.Rat.Floor
import Mathlib.Tactic.Linarith
import Mathlib.Tactic.LinearCombination
import Mathlib.Tactic.Positivity
import Mathlib.Tactic.Ring
import Fix42.Client.OrderHistoric

/-!
# The average price of the GUI

As long as a row agrees with the order it is for (`RowOf`), the next event leaves it in agreement iff
the execution it tells of `Fits`. With positive prices only one execution of all of the order does
(`fits_iff_single`).
-/

namespace Fix42

variable {α : Type*} [Field α]

section
variable {o : Order α} {f : OrderExec α} {fills : List (OrderExec α)}

@[simp] theorem Order.execute_originalQty : (o.execute f).originalQty = o.originalQty := rfl

@[simp] theorem Order.execute_orderId : (o.execute f).orderId = o.orderId := rfl

@[simp] theorem Order.execute_cumQty : (o.execute f).cumQty = o.cumQty + f.quantity := by
  rw [Order.cumQty, Order.cumQty, Order.execute]
  ring

/-- Both orders of a trade are executed alike. -/
theorem fillOrder_execute [LinearOrder α] {main : Event α} {price : α} {order : Order α}
    (h : order.userId ≠ main.order.userId) :
    let f : OrderExec α := ⟨price, min order.remainQty main.order.remainQty⟩
    (fillOrder main price order).main.order = main.order.execute f ∧
      (fillOrder main price order).pushed.map Event.order = [order.execute f] := by
  simp only [fillOrder, h, if_false]
  exact ⟨rfl, rfl⟩

variable [LinearOrder α] [IsStrictOrderedRing α]

/-- The server keeps the average of the executions. -/
theorem serverAverages_eq (hc : 0 ≤ o.cumQty) (hq : ∀ f ∈ fills, 0 < f.quantity) :
    serverAverages o fills = averages (o.cumQty * o.avgPrice) o.cumQty fills := by
  induction fills generalizing o with
  | nil => rfl
  | cons f fills ih =>
    have hf : 0 < f.quantity := hq f List.mem_cons_self
    have hne : o.cumQty + f.quantity ≠ 0 := (by linarith : 0 < o.cumQty + f.quantity).ne'
    have hturnover : (o.execute f).cumQty * (o.execute f).avgPrice =
        o.cumQty * o.avgPrice + f.quantity * f.price := by
      rw [Order.execute_cumQty]
      exact mul_div_cancel₀ _ hne
    have htail := ih (o := o.execute f) (by rw [Order.execute_cumQty]; linarith)
      fun g hg => hq g (List.mem_cons_of_mem _ hg)
    rw [serverAverages, htail, hturnover, Order.execute_cumQty]
    rfl

end

namespace Client

variable [LinearOrder α] [FloorRing α] {o : Order α} {m : OrderHistoric α} {exec : ExecutionMsg α}
  {message : BackMessage α} {messages : List (BackMessage α)} {fills : List (OrderExec α)}
  {f : OrderExec α}

/-- The order's row agrees with it. -/
structure RowOf (m : OrderHistoric α) (o : Order α) : Prop where
  row : ∃ row, m o.orderId = some row ∧ row.quantity = o.originalQty ∧
    row.remainQty = o.remainQty ∧ row.avgPrice = some o.avgPrice

omit [FloorRing α] [LinearOrder α] [Field α] in
theorem rowOf_newOrder (m : OrderHistoric α) (h : Tells exec o) : RowOf (m.newOrder exec) o := by
  refine ⟨⟨exec.quantity, exec.remainQty, some exec.avgPrice, []⟩, ?_, h.quantity, h.remainQty,
    congrArg some h.avgPrice⟩
  rw [← h.orderId, OrderHistoric.newOrder, Function.update_self]

/-- Messages about other orders leave the row as it is. -/
theorem receive_other (hid : message.orderId ≠ o.orderId) :
    m.receive message o.orderId = m o.orderId := by
  cases message with
  | execNew exec => exact Function.update_of_ne hid.symm _ _
  | execEvent exec =>
    change m.eventOrder exec o.orderId = _
    rw [OrderHistoric.eventOrder]
    cases m exec.orderId with
    | none => rfl
    | some row => exact Function.update_of_ne hid.symm _ _

theorem RowOf.other (h : RowOf m o) (hid : message.orderId ≠ o.orderId) :
    RowOf (m.receive message) o := by
  obtain ⟨row, hrow, hrest⟩ := h.row
  exact ⟨row, (receive_other hid).trans hrow, hrest⟩

/-- The row after an event of the order. -/
theorem RowOf.event (h : RowOf m o) (htells : Tells exec (o.execute f)) :
    ∃ row, m.eventOrder exec o.orderId = some row ∧ row.quantity = o.originalQty ∧
      row.remainQty = (o.execute f).remainQty ∧
      row.avgPrice = divide (((toInt o.originalQty - toInt o.remainQty) * toInt o.avgPrice : ℤ) +
        (o.execute f).cumQty * (o.execute f).avgPrice) (toInt o.originalQty) := by
  obtain ⟨row, hrow, hquantity, hremain, havg⟩ := h.row
  have hid : exec.orderId = o.orderId := htells.orderId
  have hevent : m.eventOrder exec o.orderId = some { row with
      remainQty := exec.remainQty
      avgPrice := row.avgPrice.bind fun avgPrice =>
        divide ((toInt row.quantity - toInt row.remainQty : ℤ) * toInt avgPrice +
          (exec.quantity - exec.remainQty) * exec.avgPrice) (toInt row.quantity)
      children := row.children ++ [exec] } := by
    rw [OrderHistoric.eventOrder, hid, hrow]
    simp only [Function.update_self]
  refine ⟨_, hevent, hquantity, htells.remainQty, ?_⟩
  dsimp only
  rw [havg, hquantity, hremain, htells.quantity, htells.remainQty, htells.avgPrice, Order.cumQty]
  push_cast
  rfl

/-- The event shows the new average iff the execution fits. -/
theorem divide_eq_iff (n k : ℤ) (x y : α) (hn : n ≠ 0) :
    divide (k + x * y) n = some y ↔ (k : α) = (n - x) * y := by
  have hn' : (n : α) ≠ 0 := by exact_mod_cast hn
  rw [divide, if_neg hn, Option.some.injEq, div_eq_iff hn']
  constructor
  · intro h
    linear_combination h
  · intro h
    linear_combination h

theorem shownAfter_iff (hrow : RowOf m o) (hfeed : Feed o fills messages) :
    m.shownAfter o.orderId messages = (serverAverages o fills).map some ↔ Fits o fills := by
  induction hfeed generalizing m with
  | nil => exact ⟨fun _ => trivial, fun _ => rfl⟩
  | other hid _ ih =>
    rw [OrderHistoric.shownAfter]
    simp only [hid, if_false]
    exact ih (hrow.other hid)
  | @event o f fills exec messages htells _ ih =>
    obtain ⟨row, hat, hquantity, hremain, havg⟩ := hrow.event htells
    have hshown : (m.eventOrder exec).shown o.orderId = row.avgPrice := by
      rw [OrderHistoric.shown, hat]
      rfl
    have hid : (BackMessage.execEvent exec).orderId = o.orderId := htells.orderId
    simp only [OrderHistoric.shownAfter, hid, if_true, OrderHistoric.receive, serverAverages,
      List.map_cons, List.cons.injEq, Fits, hshown, havg]
    by_cases hn : toInt o.originalQty = 0
    · simp [divide, hn]
    · rw [divide_eq_iff _ _ _ _ hn, and_iff_right hn]
      refine and_congr_right fun hfit => ?_
      have hrow' : RowOf (m.eventOrder exec) (o.execute f) :=
        ⟨row, hat, hquantity, hremain, havg.trans ((divide_eq_iff _ _ _ _ hn).2 hfit)⟩
      exact ih hrow'

/-! ## Positive prices -/

variable [IsStrictOrderedRing α]

theorem toInt_nonneg {x : α} (h : 0 ≤ x) : 0 ≤ toInt x := by
  rw [toInt, if_pos h]
  exact Int.floor_nonneg.2 (by positivity)

/-- What rounding down takes off is rounded to nothing. -/
theorem toInt_rest {x : α} (h : 0 ≤ x) (hrest : 0 ≤ x - toInt x) : toInt (x - toInt x) = 0 := by
  have hlt : x + 1 / 2 < toInt x + 1 := by
    rw [toInt, if_pos h]
    exact Int.lt_floor_add_one _
  rw [toInt, if_pos hrest]
  exact Int.floor_eq_zero_iff.2 ⟨by positivity, by linarith⟩

omit [FloorRing α] [IsStrictOrderedRing α] in
theorem avgPrice_first (hcum : o.cumQty = 0) (hq : 0 < f.quantity) :
    (o.execute f).avgPrice = f.price := by
  rw [Order.execute, hcum, zero_mul, zero_add, zero_add]
  exact mul_div_cancel_left₀ _ hq.ne'

/-- The first execution fits iff it takes all of the order. -/
theorem fits_first (hnew : o.remainQty = o.originalQty) (hq : 0 < f.quantity) (hp : 0 < f.price) :
    Fits o (f :: fills) ↔ f.quantity = toInt o.originalQty ∧ Fits (o.execute f) fills := by
  have hcum : o.cumQty = 0 := by rw [Order.cumQty, hnew, sub_self]
  have hfirst : ((toInt o.originalQty - toInt o.remainQty) * toInt o.avgPrice : ℤ) =
      (toInt o.originalQty - (o.execute f).cumQty) * (o.execute f).avgPrice ↔
        f.quantity = toInt o.originalQty := by
    rw [hnew, sub_self, zero_mul, Int.cast_zero, Order.execute_cumQty, hcum, zero_add,
      avgPrice_first hcum hq, zero_eq_mul, or_iff_left hp.ne', sub_eq_zero, eq_comm]
  rw [Fits, hfirst]
  refine and_iff_right_of_imp fun h h0 => ?_
  rw [h.1, h0, Int.cast_zero] at hq
  exact lt_irrefl _ hq

/-- Behind one that takes all of the order no execution fits. -/
theorem not_fits_second {g : OrderExec α} (hnew : o.remainQty = o.originalQty)
    (hqf : 0 < f.quantity) (hpf : 0 < f.price) (hqg : 0 < g.quantity) (hpg : 0 < g.price)
    (hfull : f.quantity = toInt o.originalQty)
    (hrest : g.quantity ≤ o.originalQty - toInt o.originalQty) :
    ¬ Fits (o.execute f) (g :: fills) := by
  rintro ⟨-, hsecond, -⟩
  have hcum : o.cumQty = 0 := by rw [Order.cumQty, hnew, sub_self]
  have havg : (o.execute f).avgPrice = f.price := avgPrice_first hcum hqf
  have hremain : toInt (o.execute f).remainQty = 0 := by
    rw [Order.execute, hnew, hfull]
    exact toInt_rest (by linarith) (by linarith)
  have hleft : (0 : α) ≤ ((toInt (o.execute f).originalQty - toInt (o.execute f).remainQty) *
      toInt (o.execute f).avgPrice : ℤ) := by
    rw [hremain, sub_zero, havg, Order.execute_originalQty]
    exact Int.cast_nonneg (mul_nonneg (toInt_nonneg (by linarith)) (toInt_nonneg hpf.le))
  have hright : (toInt (o.execute f).originalQty - ((o.execute f).execute g).cumQty) *
      ((o.execute f).execute g).avgPrice < 0 := by
    have hpos : 0 < ((o.execute f).execute g).avgPrice := by
      rw [Order.execute, havg, Order.execute_cumQty, hcum, zero_add]
      positivity
    rw [Order.execute_originalQty, Order.execute_cumQty, Order.execute_cumQty, hcum, zero_add,
      hfull, sub_add_cancel_left]
    exact mul_neg_of_neg_of_pos (neg_lt_zero.2 hqg) hpos
  rw [hsecond] at hleft
  exact absurd hleft (not_le.2 hright)

theorem fits_iff_single (hnew : o.remainQty = o.originalQty)
    (hq : ∀ f ∈ fills, 0 < f.quantity) (hp : ∀ f ∈ fills, 0 < f.price)
    (htotal : (fills.map OrderExec.quantity).sum ≤ o.originalQty) :
    Fits o fills ↔ fills = [] ∨ ∃ f, fills = [f] ∧ f.quantity = toInt o.originalQty := by
  cases fills with
  | nil => exact ⟨fun _ => .inl rfl, fun _ => trivial⟩
  | cons f fills =>
    have hqf : 0 < f.quantity := hq f List.mem_cons_self
    have hpf : 0 < f.price := hp f List.mem_cons_self
    rw [fits_first hnew hqf hpf]
    cases fills with
    | nil =>
      constructor
      · rintro ⟨hfull, -⟩
        exact .inr ⟨f, rfl, hfull⟩
      · rintro (h | ⟨g, h, hfull⟩)
        · cases h
        · cases h
          exact ⟨hfull, trivial⟩
    | cons g fills =>
      refine iff_of_false ?_ (by rintro (h | ⟨_, h, -⟩) <;> cases h)
      rintro ⟨hfull, hrest⟩
      refine not_fits_second hnew hqf hpf (hq g (by simp)) (hp g (by simp)) hfull ?_ hrest
      have hothers : 0 ≤ (fills.map OrderExec.quantity).sum := by
        refine List.sum_nonneg fun x hx => ?_
        obtain ⟨h, hh, rfl⟩ := List.mem_map.1 hx
        exact (hq h (by simp [hh])).le
      rw [List.map_cons, List.map_cons, List.sum_cons, List.sum_cons] at htotal
      linarith

/-- **The average price that is shown.** For an order that was announced with nothing executed, the
row shows the average of the executions after each event exactly when every execution `Fits`; with
positive prices that is when one execution takes the whole order, of a whole quantity up to rounding. -/
theorem average_shown_iff {new : ExecutionMsg α} (hnew : o.remainQty = o.originalQty)
    (hq : ∀ f ∈ fills, 0 < f.quantity) (htells : Tells new o)
    (hfeed : Feed o fills messages) :
    ((m.newOrder new).shownAfter o.orderId messages = (averages 0 0 fills).map some ↔
      Fits o fills) ∧ averages 0 0 fills = serverAverages o fills ∧
    ((∀ f ∈ fills, 0 < f.price) → (fills.map OrderExec.quantity).sum ≤ o.originalQty →
      (Fits o fills ↔ fills = [] ∨ ∃ f, fills = [f] ∧ f.quantity = toInt o.originalQty)) := by
  have hcum : o.cumQty = 0 := by rw [Order.cumQty, hnew, sub_self]
  have hserver : averages 0 0 fills = serverAverages o fills := by
    rw [serverAverages_eq hcum.ge hq, hcum, zero_mul]
  refine ⟨?_, hserver, fits_iff_single hnew hq⟩
  rw [hserver]
  exact shownAfter_iff (rowOf_newOrder m htells) hfeed

/-- An order of 10 that is announced, and an event of it. -/
def announced : Order ℚ := ⟨"u", "o", 10, 10, 0, .buy, .newOrder, "s"⟩

def eventOf (o : Order ℚ) : ExecutionMsg ℚ :=
  ⟨"EUR", o.orderId, "e", o.avgPrice, 5, o.side, o.originalQty, o.remainQty⟩

theorem average_shown_whole :
    (OrderHistoric.newOrder (fun _ => none) (eventOf announced)).shownAfter "o"
      [.execEvent (eventOf (announced.execute ⟨5, 10⟩))] = [some 5] := by
  have hfits : Fits announced [⟨5, 10⟩] := by
    refine ⟨?_, ?_, trivial⟩
    · decide +kernel
    · decide +kernel
  have hfeed : Feed announced [⟨5, 10⟩] [.execEvent (eventOf (announced.execute ⟨5, 10⟩))] :=
    .event ⟨rfl, rfl, rfl, rfl⟩ .nil
  have hshown := ((average_shown_iff (m := fun _ => none) rfl (by decide +kernel)
    (⟨rfl, rfl, rfl, rfl⟩ : Tells (eventOf announced) announced) hfeed).1).2 hfits
  refine hshown.trans ?_
  decide +kernel

/-- Of an order of 10, 4 are executed at 10: the row shows 4. -/
theorem average_shown_wrong :
    (OrderHistoric.newOrder (fun _ => none) (eventOf announced)).shownAfter "o"
      [.execEvent (eventOf (announced.execute ⟨10, 4⟩))] = [some 4] ∧
    averages 0 0 [(⟨10, 4⟩ : OrderExec ℚ)] = [10] ∧
    Feed announced [⟨10, 4⟩] [.execEvent (eventOf (announced.execute ⟨10, 4⟩))] := by
  refine ⟨?_, ?_, .event ⟨rfl, rfl, rfl, rfl⟩ .nil⟩
  · decide +kernel
  · decide +kernel

end Client

end Fix42
