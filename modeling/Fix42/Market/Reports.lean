import Fix42.Market.Model

/-!
# Reports about one order

The output queue and the event queues of a market, read as what they tell about one order: its
cumulative and its remaining quantity (`Mark`). `InOrder` is the causal order of an accepted order's
reports.
-/

namespace Fix42

variable {α : Type*}

/-- What a report or an event says of an order. -/
structure Mark (α : Type*) where
  about : ExecId
  cumQty : α
  leavesQty : α

def Order.mark [Sub α] (o : Order α) : Mark α := ⟨o.submission, o.cumQty, o.remainQty⟩

/-- The report of a fill. -/
def OrderStatus.isFill (s : OrderStatus) : Bool := s = .filled || s = .partiallyFilled

def OrderStatus.isPending (s : OrderStatus) : Bool := s = .pendingCancel

def OrderStatus.isCanceled (s : OrderStatus) : Bool := s = .canceled

/-- The mark of an execution report of a kind. -/
def Output.mark (p : OrderStatus → Bool) (out : Output α) : Option (Mark α) :=
  match out.about, out.report with
  | some id, .execution r => if p r.execType then some ⟨id, r.cumQty, r.leavesQty⟩ else none
  | _, _ => none

/-- The execution report about a submission. -/
def Output.reportAbout (id : ExecId) (out : Output α) : Option (ExecutionReport α) :=
  match out.report with
  | .execution r => if out.about = some id then some r else none
  | _ => none

/-- The marks in the reports of a kind that a list of effects appends. -/
def appended (p : OrderStatus → Bool) (es : List (Effect α)) : List (Mark α) :=
  es.filterMap fun
    | .append out => out.mark p
    | _ => none

/-- The order the Cancel unit has read, until it has reported it as pending. -/
def CancelUnitPc.snaps [Sub α] : CancelUnitPc α → List (Mark α)
  | .verified _ order => [order.mark]
  | .running es => appended OrderStatus.isPending es
  | .found _ | .dead => []

/-- The order the Cancel worker has removed, until it has reported it. -/
def CancelWorkerPc.cancels : CancelWorkerPc α → List (Mark α)
  | .running (.cancel _ :: _) => []
  | .running es => appended OrderStatus.isCanceled es
  | .waiting _ | .checking _ | .dead => []

/-- The requests whose order the NewOrder worker has still to acknowledge or reject. -/
def NewWorkerPc.unanswered : NewWorkerPc α → List ExecId
  | .waiting i _ | .checking i _ => [i.executionId]
  | .running es => es.filterMap fun
      | .append out => out.about
      | _ => none
  | .dead => []

/-- The orders the NewOrder worker may still add. -/
def NewWorkerPc.infos : NewWorkerPc α → List (OrderInfo α)
  | .waiting _ info | .checking _ info => [info]
  | .running es => es.filterMap fun
      | .add info => some info
      | _ => none
  | .dead => []

def RouterPc.newOrders : RouterPc α → List (Context (NewOrderSingle α))
  | .allowing (.newOrder i) | .handing (.newOrder i) => [i]
  | _ => []

/-- The new orders a list of effects queues. -/
def queuedNew (es : List (Effect α)) : List (Context (NewOrderSingle α)) :=
  es.filterMap fun
    | .queueNew i => some i
    | _ => none

/-- Causal order of the reports about one accepted order. -/
structure InOrder [Zero α] [LE α] [LT α] (rs : List (ExecutionReport α)) : Prop where
  /-- the acknowledgement is the first, and the only one -/
  acknowledged : ∃ ack rest, rs = ack :: rest ∧ ack.execType = .newOrder ∧ ack.cumQty = 0 ∧
    ∀ r ∈ rest, r.execType.isFill ∨ r.execType.isPending ∨ r.execType.isCanceled
  nonneg : ∀ r ∈ rs, 0 ≤ r.cumQty
  /-- fills are reported as they happened, and none after one that leaves nothing -/
  fills : rs.Pairwise fun r r' => r.execType.isFill → r'.execType.isFill →
    0 < r.leavesQty ∧ r.cumQty ≤ r'.cumQty
  canceledOnce : rs.Pairwise fun r r' => ¬ (r.execType.isCanceled ∧ r'.execType.isCanceled)
  /-- the cancel ended the order: all fills happened before it and left something -/
  canceled : ∀ c ∈ rs, c.execType.isCanceled → ∀ r ∈ rs,
    r.cumQty ≤ c.cumQty ∧ (r.execType.isFill → 0 < r.leavesQty)

namespace Market

/-- The execution reports about a submission, in the order of the output queue. -/
def reportsAbout [LinearOrder α] (m : Market α) (id : ExecId) : List (ExecutionReport α) :=
  m.output.filterMap (Output.reportAbout id)

/-- The events on their way from the book to the output queue. -/
def events [LinearOrder α] (m : Market α) : List (Event α) :=
  m.poolWorker.toList ++ m.poolQueue ++ m.eventUnit.toList ++ m.ob.eventOutput

/-- The new orders that have not reached the NewOrder worker. -/
def newRequests [LinearOrder α] (m : Market α) : List (Context (NewOrderSingle α)) :=
  m.newQueue ++ queuedNew m.newUnit ++ m.newInput ++ m.router.newOrders

/-- The submissions that have not been answered. -/
def unanswered [LinearOrder α] (m : Market α) : List ExecId :=
  m.newWorker.unanswered ++ m.newRequests.map Context.executionId

section
variable [LinearOrder α] [Sub α]

/-- What was or will be reported of fills, in order. -/
def fills (m : Market α) : List (Mark α) :=
  m.output.filterMap (Output.mark OrderStatus.isFill) ++ m.events.map fun e => e.order.mark

def snaps (m : Market α) : List (Mark α) :=
  m.output.filterMap (Output.mark OrderStatus.isPending) ++ m.cancelUnit.snaps

end

def cancels [LinearOrder α] (m : Market α) : List (Mark α) :=
  m.output.filterMap (Output.mark OrderStatus.isCanceled) ++ m.cancelWorker.cancels

/-- A new order that is routed has no negative quantity. -/
def NonNeg [Zero α] [LE α] : Action α → Prop
  | .route (.newOrder i) => ∀ qty ∈ i.message.orderQty, 0 ≤ qty
  | _ => True

instance [Zero α] [LE α] [DecidableLE α] : DecidablePred (NonNeg (α := α))
  | .route (.newOrder i) => inferInstanceAs (Decidable (∀ qty ∈ i.message.orderQty, 0 ≤ qty))
  | .route (.cancel _) | .session _ _ | .run _ _ _ => .isTrue trivial

end Market

end Fix42
