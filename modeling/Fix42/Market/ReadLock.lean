import Fix42.Book.Accesses
import Fix42.Market.CancelUnit

/-!
# Looking an order up while the workers run

`verifyOrderState` of the Cancel unit and the workers on one order book, one access at a time: every
acquisition and release of the mutexes of the id maps, every operation on a map or an order list is a
step. The queue mutex admits one worker at a time (`SpinMarket.serialized`), so the workers are one
list of accesses still to make (`LockedBook.work`), taken up anew with each request.

`lockReadOrder(side)` takes the mutex of the *other* side's id map. Recursive acquisitions of a
shared mutex by the unit count.
-/

namespace Fix42

variable {α : Type*}

/-- `std::shared_mutex`: its shared owners and whether it is held exclusively. -/
structure SharedMutex where
  readers : Nat
  writer : Bool
  deriving DecidableEq

namespace SharedMutex

def free : SharedMutex := ⟨0, false⟩

def lockShared (m : SharedMutex) : Option SharedMutex :=
  if m.writer then none else some { m with readers := m.readers + 1 }

def unlockShared (m : SharedMutex) : SharedMutex := { m with readers := m.readers - 1 }

def lock (m : SharedMutex) : Option SharedMutex :=
  if m.writer ∨ m.readers ≠ 0 then none else some { m with writer := true }

def unlock (m : SharedMutex) : SharedMutex := { m with writer := false }

end SharedMutex

/-- `m_bid_id.Mutex` and `m_ask_id.Mutex`. -/
abbrev Mutexes := Bundle → SharedMutex

namespace Mutexes

def lockShared (ms : Mutexes) (b : Bundle) : Option Mutexes :=
  (ms b).lockShared.map (Function.update ms b)

def unlockShared (ms : Mutexes) (b : Bundle) : Mutexes :=
  Function.update ms b (ms b).unlockShared

end Mutexes

/-- The mutexes after an access of a worker; `none` while it has to wait. -/
def Access.acquire (ms : Mutexes) : Access α → Option Mutexes
  | .lockShared b => ms.lockShared b
  | .unlockShared b => some (ms.unlockShared b)
  | .lock b => (ms b).lock.map (Function.update ms b)
  | .unlock b => some (Function.update ms b (ms b).unlock)
  | _ => some ms

/-- The id map `lockReadOrder` and `unlockReadOrder` lock and unlock. -/
def Side.readBundle (side : Side) : Bundle := if side.isAsk then .bid else .ask

/-! ## The unit -/

/-- Where the unit is in `verifyOrderState`. -/
inductive Verify (α : Type*)
  | idle
  /-- `lockReadOrder` has returned -/
  | locked
  /-- in `has`: the id map of the side is locked, then read -/
  | hasLocked
  | hasRead (found : Bool)
  /-- `has` has returned -/
  | hasDone (found : Bool)
  /-- in `getOrder`: the bid id map is locked, read, unlocked -/
  | bidLocked
  | bidRead (found : Bool)
  | bidDone
  /-- in `getOrder`: the ask id map is locked -/
  | askLocked
  /-- `at` has returned the entry, the mutex of its map is held -/
  | entry (b : Bundle) (info : OrderIdInfo α)
  | copied (b : Bundle) (order : Order α)
  /-- `getOrder` has returned -/
  | got (order : Order α)
  /-- `unlockReadOrder` has returned; the order if its side is the one asked for -/
  | done (order : Option (Order α))
  | failed (f : Fault)
  deriving DecidableEq

namespace Verify

/-- From the moment `has` reads the id as present up to `unlockReadOrder`. -/
def present : Verify α → Bool
  | .hasRead found | .hasDone found => found
  | .bidLocked | .bidRead _ | .bidDone | .askLocked | .entry _ _ | .copied _ _ | .got _ => true
  | .idle | .locked | .hasLocked | .done _ | .failed _ => false

end Verify

/-- The book, the mutexes of its id maps, what the worker with a request in hand has still to do, and
the Cancel unit looking up order `id`. -/
structure LockedBook (α : Type*) [LinearOrder α] where
  ob : OrderBook α
  mutexes : Mutexes
  work : List (Access α)
  id : OrderId
  side : Side
  verify : Verify α

namespace LockedBook

section
variable [LinearOrder α]

def init [Zero α] (name : String) : LockedBook α :=
  ⟨.new name, fun _ => .free, [], "", .undisclosed, .idle⟩

/-- `lockReadOrder`, at the start of `verifyOrderState`. -/
def call (s : LockedBook α) (id : OrderId) (side : Side) : Option (LockedBook α) :=
  match lockReadOrder.{0} side with
  | .error f => some { s with id, side, verify := .failed f }
  | .ok _ => (s.mutexes.lockShared side.readBundle).map fun mutexes =>
      { s with mutexes, id, side, verify := .locked }

/-- `at` and the copy of the order it names; an exception releases the mutex. -/
def lookup (s : LockedBook α) (b : Bundle) : LockedBook α :=
  match s.ob.ids b s.id with
  | some info => { s with verify := .entry b info }
  | none => { s with mutexes := s.mutexes.unlockShared b, verify := .failed .outOfRange }

/-- `*(info.Order)`. -/
def orderAt (ob : OrderBook α) (b : Bundle) (info : OrderIdInfo α) : Option (Order α) :=
  (ob.level info.price b).bind fun list => deref list info.order

/-- The unit's next access. -/
def unit (s : LockedBook α) : Option (LockedBook α) :=
  match s.verify with
  | .idle | .done _ | .failed _ => none
  | .locked => (s.mutexes.lockShared s.side.bundle).map fun mutexes =>
      { s with mutexes, verify := .hasLocked }
  | .hasLocked => some { s with verify := .hasRead (s.ob.ids s.side.bundle s.id).isSome }
  | .hasRead found => some { s with
      mutexes := s.mutexes.unlockShared s.side.bundle, verify := .hasDone found }
  | .hasDone false => some { s with
      mutexes := s.mutexes.unlockShared s.side.readBundle, verify := .done none }
  | .hasDone true => (s.mutexes.lockShared .bid).map fun mutexes =>
      { s with mutexes, verify := .bidLocked }
  | .bidLocked => some { s with verify := .bidRead (s.ob.ids .bid s.id).isSome }
  | .bidRead true => some (s.lookup .bid)
  | .bidRead false => some { s with
      mutexes := s.mutexes.unlockShared .bid, verify := .bidDone }
  | .bidDone => (s.mutexes.lockShared .ask).map fun mutexes =>
      { s with mutexes, verify := .askLocked }
  | .askLocked => some (s.lookup .ask)
  | .entry b info =>
    match orderAt s.ob b info with
    | some order => some { s with verify := .copied b order }
    | none => some { s with verify := .failed .undefined }
  | .copied b order => some { s with
      mutexes := s.mutexes.unlockShared b, verify := .got order }
  | .got order => some { s with
      mutexes := s.mutexes.unlockShared s.side.readBundle
      verify := .done (if order.side ≠ s.side then none else some order) }

/-- The next access of the worker with a request in hand. -/
def worker (s : LockedBook α) : Option (LockedBook α) :=
  match s.work with
  | [] => none
  | a :: work => (a.acquire s.mutexes).map fun mutexes =>
      { s with ob := a.run s.ob, mutexes, work }

end

variable [Field α] [LinearOrder α]

inductive Act (α : Type*)
  /-- a worker takes the queue mutex for a request -/
  | begin (op : Worker.Op α)
  | worker
  | call (id : OrderId) (side : Side)
  | unit

def step (s : LockedBook α) : Act α → Option (LockedBook α)
  | .begin op => if s.work.isEmpty then some { s with work := Worker.accesses s.ob op } else none
  | .worker => s.worker
  | .call id side =>
    match s.verify with
    | .idle | .done _ => s.call id side
    | _ => none
  | .unit => s.unit

/-! ## What the lock is for -/

/-- While the unit holds a reported order, the order is in the id map of its side and on the book;
`getOrder` returns it, and only the switch of `lockReadOrder` throws. -/
structure Protected (s : LockedBook α) : Prop where
  present : s.verify.present = true → s.ob.hasSide s.id s.side = true ∧
    ∃ order, s.ob.getOrder s.id = .ok order ∧ order.orderId = s.id
  got : ∀ order, s.verify = .got order → order.orderId = s.id
  failed : ∀ f, s.verify = .failed f → s.side.supported = false

/-- No request that takes the looked-up order off the book overlaps the lookup: when `has` finds the
id the request in hand leaves it on its side, and so does every request taken up before
`unlockReadOrder`. -/
def Undisturbed (s : LockedBook α) : Act α → Prop
  | .unit => s.verify = .hasLocked → s.ob.hasSide s.id s.side = true →
      (Access.runAll s.work s.ob).hasSide s.id s.side = true
  | .begin op => s.verify.present = true →
      (Worker.step s.ob op).all (fun ob => ob.hasSide s.id s.side) = true
  | .worker | .call _ _ => True

instance (s : LockedBook α) : ∀ act, Decidable (s.Undisturbed act)
  | .unit => by unfold Undisturbed; infer_instance
  | .begin _ => by unfold Undisturbed; infer_instance
  | .worker => isTrue trivial
  | .call _ _ => isTrue trivial

end LockedBook

end Fix42
