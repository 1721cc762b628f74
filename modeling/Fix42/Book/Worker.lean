import Fix42.Book.OrderBook
import Fix42.Lib.Fallible
import Fix42.Lib.Trans

/-!
# The workers on the book

What the NewOrder and the Cancel worker do to the order book between `lock` and `unlock`, one
request at a time: `NewOrder.work` (tick check, duplicate check, `add`) and `Cancel.work`
(`verifyOrderStateWithLock`, `cancel`). `Worker.step` takes either; its runs are the order-book
states the market can reach. A request that a worker has in hand passed `onInput`, so its optional
fields are set and its side is one of the four traded (`supported`).
-/

namespace Fix42

open Fallible (bind_eq_ok)

variable {α : Type*} [Field α] [LinearOrder α]

/-! ## New orders -/

/-- What the NewOrder worker reads of a queued request. -/
structure NewOrderInput (α : Type*) where
  userId : UserId
  executionId : ExecId
  clOrdId : OrderId
  price : α
  orderQty : α
  side : Side
  supported : side.supported = true

/-- The `OrderBook::OrderInfo` the worker builds. -/
def newOrderInfo (userId : UserId) (executionId : ExecId) (clOrdId : OrderId) (price orderQty : α)
    (side : Side) : OrderInfo α where
  execid := executionId
  price
  order :=
    { userId, orderId := clOrdId, originalQty := orderQty, remainQty := orderQty, avgPrice := 0,
      side, status := .newOrder, submission := executionId }

def NewOrderInput.info (i : NewOrderInput α) : OrderInfo α :=
  newOrderInfo i.userId i.executionId i.clOrdId i.price i.orderQty i.side

/-- How the worker answers: refused by the tick rule, added, or refused as a duplicate id. -/
inductive Verdict
  | tickRefused | accepted | duplicate
  deriving DecidableEq

namespace NewOrder

omit [Field α] in
def verdict (ob : OrderBook α) (info : OrderInfo α) : Verdict × OrderBook α :=
  let (allowed, ob) := ob.allowTick info.order.side
  (if !allowed then .tickRefused else if !ob.has info.order.orderId then .accepted else .duplicate,
    ob)

def work (ob : OrderBook α) (info : OrderInfo α) : Except Fault (Verdict × OrderBook α) :=
  match verdict ob info with
  | (.accepted, ob) => (ob.add info).map (Prod.mk .accepted)
  | (v, ob) => .ok (v, ob)

/-- What the NewOrder worker can do with a request. -/
theorem work_ok {ob ob' : OrderBook α} {info : OrderInfo α} {v : Verdict}
    (h : work ob info = .ok (v, ob')) : v = (verdict ob info).1 ∧
      (v ≠ .accepted ∧ ob' = (ob.allowTick info.order.side).2 ∨
      v = .accepted ∧ (ob.tick.allowTick info.order.side).1 = true ∧
        ob.has info.order.orderId = false ∧
        (ob.allowTick info.order.side).2.add info = .ok ob') := by
  simp only [work, verdict] at h ⊢
  cases hallow : (ob.allowTick info.order.side).1 with
  | false =>
    simp only [hallow, Bool.not_false, if_true, Except.ok.injEq, Prod.mk.injEq] at h
    obtain ⟨rfl, rfl⟩ := h
    exact ⟨by simp, .inl ⟨by simp, rfl⟩⟩
  | true =>
    cases hid : (ob.allowTick info.order.side).2.has info.order.orderId with
    | true =>
      simp only [hallow, hid, Bool.not_true, Bool.false_eq_true, if_false, Except.ok.injEq,
        Prod.mk.injEq] at h
      obtain ⟨rfl, rfl⟩ := h
      exact ⟨by simp, .inl ⟨by simp, rfl⟩⟩
    | false =>
      simp only [hallow, hid, Bool.not_true, Bool.not_false, Bool.false_eq_true, if_false,
        if_true] at h
      cases hadd : (ob.allowTick info.order.side).2.add info with
      | error f => simp [hadd, Except.map] at h
      | ok ob'' =>
        simp only [hadd, Except.map, Except.ok.injEq, Prod.mk.injEq] at h
        obtain ⟨rfl, rfl⟩ := h
        exact ⟨by simp, .inr ⟨rfl, hallow, hid, rfl⟩⟩

end NewOrder

/-! ## Cancels -/

/-- What the Cancel worker reads of a queued request. -/
structure CancelInput (α : Type*) where
  executionId : ExecId
  clOrdId : OrderId
  origClOrdId : OrderId
  orderQty : α
  side : Side
  supported : side.supported = true

namespace Cancel

/-- Why the locked check refuses: no such order on the side, or another remaining quantity. -/
inductive Refusal
  | notFound | quantity
  deriving DecidableEq

omit [Field α] in
def verifyOrderStateWithLock (ob : OrderBook α) (originId : OrderId) (qty : α) (side : Side) :
    Except Fault (Refusal ⊕ Order α) :=
  if !ob.hasSide originId side then .ok (.inl .notFound)
  else (ob.getOrder originId).map fun order =>
    if order.remainQty ≠ qty then .inl .quantity else .inr order

omit [Field α] in
def work (ob : OrderBook α) (originId : OrderId) (qty : α) (side : Side) :
    Except Fault ((Refusal ⊕ Order α) × OrderBook α) := do
  match ← verifyOrderStateWithLock ob originId qty side with
  | .inl r => pure (.inl r, ob)
  | .inr order => pure (.inr order, ← ob.cancel originId side)

omit [Field α] in
/-- What the Cancel worker can do with a request. -/
theorem work_ok {ob ob' : OrderBook α} {id : OrderId} {qty : α} {side : Side}
    {v : Refusal ⊕ Order α} (h : work ob id qty side = .ok (v, ob')) :
    verifyOrderStateWithLock ob id qty side = .ok v ∧
      ((∃ r, v = .inl r) ∧ ob' = ob ∨ (∃ o, v = .inr o) ∧ ob.cancel id side = .ok ob') := by
  rw [work] at h
  obtain ⟨v', hv, h⟩ := bind_eq_ok.1 h
  cases v' with
  | inl r =>
    cases h
    exact ⟨hv, .inl ⟨⟨r, rfl⟩, rfl⟩⟩
  | inr o =>
    obtain ⟨ob'', hok, h⟩ := bind_eq_ok.1 h
    cases h
    exact ⟨hv, .inr ⟨⟨o, rfl⟩, hok⟩⟩

end Cancel

/-! ## Runs -/

namespace Worker

inductive Op (α : Type*)
  | newOrder (i : NewOrderInput α)
  | cancel (i : CancelInput α)

def step (ob : OrderBook α) : Op α → Option (OrderBook α)
  | .newOrder i => (NewOrder.work ob i.info).toOption.map Prod.snd
  | .cancel i => (Cancel.work ob i.origClOrdId i.orderQty i.side).toOption.map Prod.snd

theorem step_newOrder {ob ob' : OrderBook α} {i : NewOrderInput α}
    (h : step ob (.newOrder i) = some ob') :
    ((NewOrder.verdict ob i.info).1 ≠ .accepted ∧ ob' = (ob.allowTick i.side).2) ∨
    ((NewOrder.verdict ob i.info).1 = .accepted ∧ (ob.tick.allowTick i.side).1 = true ∧
      ob.has i.clOrdId = false ∧ (ob.allowTick i.side).2.add i.info = .ok ob') := by
  unfold step at h
  cases hw : NewOrder.work ob i.info with
  | error f => simp [hw, Except.toOption] at h
  | ok r =>
    obtain ⟨v, ob''⟩ := r
    simp only [hw, Except.toOption, Option.map_some, Option.some.injEq] at h
    subst h
    obtain ⟨rfl, h⟩ := NewOrder.work_ok hw
    exact h

theorem step_cancel {ob ob' : OrderBook α} {i : CancelInput α}
    (h : step ob (.cancel i) = some ob') :
    ((∃ r, Cancel.verifyOrderStateWithLock ob i.origClOrdId i.orderQty i.side = .ok (.inl r)) ∧
      ob' = ob) ∨
    ∃ o, Cancel.verifyOrderStateWithLock ob i.origClOrdId i.orderQty i.side = .ok (.inr o) ∧
      ob.cancel i.origClOrdId i.side = .ok ob' := by
  unfold step at h
  cases hw : Cancel.work ob i.origClOrdId i.orderQty i.side with
  | error f => simp [hw, Except.toOption] at h
  | ok r =>
    obtain ⟨v, ob''⟩ := r
    simp only [hw, Except.toOption, Option.map_some, Option.some.injEq] at h
    subst h
    obtain ⟨hv, ⟨⟨r, rfl⟩, he⟩ | ⟨⟨o, rfl⟩, hok⟩⟩ := Cancel.work_ok hw
    · exact .inl ⟨⟨r, hv⟩, he⟩
    · exact .inr ⟨o, hv, hok⟩

/-- The order books the workers can reach from an empty one. -/
abbrev Reachable (name : String) (ob : OrderBook α) : Prop :=
  Trans.Reach step (OrderBook.new name) ob

end Worker

end Fix42
