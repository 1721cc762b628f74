import Fix42.Market.CancelUnit
import Fix42.Session.Party

/-!
# Execution reports at the client

The client backend's `Execution` unit: `parseMessage<ExecutionReport>` and what the unit tells its
front-ends. A report is taken field by field. A field that the server left at its default is absent
here when it is optional; the side, which every report must have, is then no member of its
enumeration and `from_FIX` refuses it. `Market.Quiet` describes the steps of the server that send no
report of the two kinds the unit cannot take.
-/

namespace Fix42

namespace Client

open Session (SessionReject)

variable {α : Type*}

/-! ## Parsing -/

/-- `from_FIX` of a side; an unset one is no member of the enumeration. -/
def sideFromFix (msgSeqNum : BitVec 32) : Option Side → Except SessionReject Side
  | some side => .ok side
  | none => .error
      { refSeqNum := msgSeqNum, refMsgType := '8', sessionRejectReason := .valueOutOfRange,
        refTagId := 54, text := "Expected: 1 GE value GE 9" }

/-- A report with every required field. -/
structure ParsedReport (α : Type*) where
  report : ExecutionReport α
  side : Side

/-- `parseMessage<ExecutionReport>`. -/
def parseExecutionReport (msgSeqNum : BitVec 32) (r : ExecutionReport α) :
    Except SessionReject (ParsedReport α) :=
  (sideFromFix msgSeqNum r.side).map fun side => ⟨r, side⟩

/-! ## The unit -/

/-- `ipc::msg::Execution`. -/
structure ExecutionMsg (α : Type*) where
  symbol : String
  orderId : OrderId
  execId : ExecId
  avgPrice : α
  price : α
  side : Side
  quantity : α
  remainQty : α

/-- What the unit does with a report it does not throw on. -/
inductive Handled (α : Type*)
  | rejected (reject : SessionReject)
  | execNew (exec : ExecutionMsg α)
  | execEvent (exec : ExecutionMsg α)
  | ignored

/-- The message `sendNotificationNew` builds; `value()` throws on a missing price or quantity. -/
def sendNotificationNew (r : ParsedReport α) : Except Fault (ExecutionMsg α) :=
  match r.report.price, r.report.orderQty with
  | some price, some quantity => .ok
      { symbol := r.report.symbol, orderId := r.report.orderId, execId := r.report.execId,
        avgPrice := r.report.avgPx, price, side := r.side, quantity,
        remainQty := r.report.leavesQty }
  | _, _ => .error (.thrown "bad optional access")

def treatNewOrder (r : ParsedReport α) : Except Fault (Handled α) :=
  match r.report.execType with
  | .newOrder => (sendNotificationNew r).map .execNew
  | .partiallyFilled | .filled => (sendNotificationNew r).map .execEvent
  | _ => .ok .ignored

/-- `Execution::onInput`. -/
def onInput (msgSeqNum : BitVec 32) (r : ExecutionReport α) : Except Fault (Handled α) :=
  match parseExecutionReport msgSeqNum r with
  | .error reject => .ok (.rejected reject)
  | .ok report =>
    match report.report.execTransType with
    | .new => treatNewOrder report
    | _ => .ok .ignored

/-- The unit returns and has not rejected the report. -/
def Accepts (r : ExecutionReport α) : Prop :=
  ∀ msgSeqNum, ∃ done, onInput msgSeqNum r = .ok done ∧ ∀ reject, done ≠ .rejected reject

end Client

/-- The step reports no event of a connected user, and no cancel as pending. -/
def Market.Quiet [LinearOrder α] (m : Market α) : Action α → Prop
  | .run .pool _ _ =>
    ∀ e ∈ m.poolWorker, m.clients.find? (fun c => m.userId c = e.order.userId) = none
  | .run .cancelUnit _ _ =>
    match m.cancelUnit with
    | .verified i _ => Cancel.busy m i = false
    | _ => True
  | _ => True

instance [LinearOrder α] (m : Market α) : (a : Action α) → Decidable (m.Quiet a)
  | .run .pool _ _ => inferInstanceAs (Decidable (∀ e ∈ m.poolWorker, _ = none))
  | .run .cancelUnit _ _ =>
    match h : m.cancelUnit with
    | .verified i _ => decidable_of_iff (Cancel.busy m i = false) (by simp [Market.Quiet, h])
    | .running _ | .found _ | .dead => .isTrue (by simp [Market.Quiet, h])
  | .run .router _ _ | .run .newUnit _ _ | .run .newWorker _ _ | .run .cancelWorker _ _
  | .run .eventUnit _ _ | .session _ _ | .route _ => .isTrue trivial

end Fix42
