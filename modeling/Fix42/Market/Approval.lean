import Fix42.Market.Model

/-!
# What a cancel was checked against

A market with a record of what `Cancel::verifyOrderState` returned to the Cancel unit, and of what the
Cancel worker took out of the book afterwards. An approval is `reused` once the NewOrder worker has
added an order under the id it is about.
-/

namespace Fix42

variable {α : Type*}

/-- `verifyOrderState` returned `order` for `request`. -/
structure Approval (α : Type*) where
  request : Context (OrderCancelRequest α)
  order : Order α
  reused : Bool

/-- The Cancel worker removed `order` for `request`; `approvals` is what had been approved for it. -/
structure Cancellation (α : Type*) where
  request : Context (OrderCancelRequest α)
  order : Order α
  approvals : List (Approval α)

/-- The removed order is the one that was approved. -/
def Cancellation.Aimed (r : Cancellation α) : Prop :=
  r.approvals ≠ [] ∧ ∀ p ∈ r.approvals, r.order.SameAs p.order

def Approval.reuse (p : Approval α) (info : OrderInfo α) : Approval α :=
  { p with reused := p.reused || p.request.message.origClOrdId = info.order.orderId }

namespace Market

variable [LinearOrder α]

/-- What the next step of the Cancel unit approves. -/
def approving (m : Market α) : Option (Approval α) :=
  match m.cancelUnit with
  | .found i =>
    match m.ob.getOrder i.message.origClOrdId with
    | .ok order => if order.side = i.message.side then some ⟨i, order, false⟩ else none
    | .error _ => none
  | _ => none

/-- What the next step of the NewOrder worker adds to the book. -/
def adding (m : Market α) : Option (OrderInfo α) :=
  match m.newWorker with
  | .running (.add info :: _) => some info
  | _ => none

/-- The order that the next step of the Cancel worker removes, and the request it does so for. -/
def removing (m : Market α) : Option (Context (OrderCancelRequest α) × Order α) :=
  match m.cancelWorker with
  | .running (.cancel i :: _) => (m.ob.getOrder i.message.origClOrdId).toOption.map fun o => (i, o)
  | _ => none

end Market

structure Approvals (α : Type*) [LinearOrder α] where
  market : Market α
  approved : List (Approval α)
  removed : List (Cancellation α)

namespace Approvals

variable [LinearOrder α]

def of (s : Approvals α) (i : Context (OrderCancelRequest α)) : List (Approval α) :=
  s.approved.filter fun p => p.request = i

/-- No order has been added under the id of a cancel since the cancel was approved. -/
def Unreused (s : Approvals α) : Action α → Prop
  | .run .cancelWorker _ _ => ∀ x ∈ s.market.removing, ∀ p ∈ s.of x.1, p.reused = false
  | _ => True

instance (s : Approvals α) : DecidablePred s.Unreused
  | .run .cancelWorker _ _ => inferInstanceAs
      (Decidable (∀ x ∈ s.market.removing, ∀ p ∈ s.of x.1, p.reused = false))
  | .run .router _ _ | .run .newUnit _ _ | .run .newWorker _ _ | .run .cancelUnit _ _
  | .run .eventUnit _ _ | .run .pool _ _ | .session _ _ | .route _ => .isTrue trivial

variable [Field α]

def new (name : String) : Approvals α := ⟨Market.new name, [], []⟩

/-- One step of the market, with the records. -/
def step (s : Approvals α) (a : Action α) : Option (Approvals α) :=
  (s.market.step a).map fun market =>
    match a with
    | .run .cancelUnit _ _ =>
      { s with market, approved := s.approved ++ s.market.approving.toList }
    | .run .newWorker _ _ =>
      { s with market, approved := s.approved.map fun p => s.market.adding.elim p p.reuse }
    | .run .cancelWorker _ _ =>
      { s with market, removed := s.removed ++
          (s.market.removing.map fun x => ⟨x.1, x.2, s.of x.1⟩).toList }
    | _ => { s with market }

abbrev Reachable (name : String) (s : Approvals α) : Prop :=
  Trans.Reach step (Approvals.new name) s

end Approvals

end Fix42
