import Fix42.Market.Reports

/-!
# A market and its connections

`Exchange`: a market with the client store it looks users up in. Connections come, log in, submit
requests, are disconnected and leave the store in steps of their own, and a request is on its way
from the login check of `Router` until the market router takes it up. `Confidential` is what a step may
append to the output queue.

`submitted` is not in the source: it records who submitted a request, and as which user.
-/

namespace Fix42

variable {α : Type*}

def Request.client : Request α → Client
  | .newOrder i => i.client
  | .cancel i => i.client

structure Submission where
  id : ExecId
  client : Client
  userId : UserId
  deriving DecidableEq

/-- The execution reports that acknowledge, reject or fill an order. -/
def Output.tells (out : Output α) : Bool :=
  match out.report with
  | .execution r => r.execType = .newOrder || r.execType = .rejected || r.execType.isFill
  | _ => false

/-- The request the NewOrder worker takes up next. -/
def Market.taken [LinearOrder α] (m : Market α) : Option (Context (NewOrderSingle α)) :=
  match m.newWorker with
  | .running [] => m.newQueue.head?
  | _ => none

structure Exchange (α : Type*) [LinearOrder α] where
  market : Market α
  loggedIn : Client → Bool
  nextClient : Client
  inbox : List (Request α)
  submitted : List Submission

namespace Exchange

inductive Action (α : Type*)
  | connect
  | login (c : Client) (userId : UserId)
  | disconnect (c : Client)
  | remove (c : Client)
  | submit (r : Request α)
  | route
  | run (t : Thread) (execId : ExecId) (now : Int)

variable [Field α] [LinearOrder α]

def new (name : String) : Exchange α where
  market := Market.new name
  loggedIn := fun _ => false
  nextClient := 0
  inbox := []
  submitted := []

/-- `ClientStore::newClientSocket`. -/
def connect (s : Exchange α) : Exchange α :=
  { s with
    market := { s.market with clients := s.market.clients ++ [s.nextClient] }
    nextClient := s.nextClient + 1 }

/-- `InternalClient::login`. -/
def login (s : Exchange α) (c : Client) (userId : UserId) : Exchange α :=
  { s with
    market := { s.market with userId := Function.update s.market.userId c userId }
    loggedIn := Function.update s.loggedIn c true }

/-- `InternalClient::disconnect`. -/
def disconnect (s : Exchange α) (c : Client) : Exchange α :=
  { s with
    market := { s.market with userId := Function.update s.market.userId c "" }
    loggedIn := Function.update s.loggedIn c false }

/-- What `ClientStore::removeClient` leaves to its pool. -/
def remove (s : Exchange α) (c : Client) : Exchange α :=
  { s with market := { s.market with clients := s.market.clients.erase c } }

/-- One step. The user id of a logon is a field of its header and not empty; `LogonHandler` has looked
whether the client is logged in before, in a step of its own. A request passes `Router` if its client
is logged in. -/
def step (s : Exchange α) : Action α → Option (Exchange α)
  | .connect => some s.connect
  | .login c userId => if c < s.nextClient ∧ userId ≠ "" then some (s.login c userId) else none
  | .disconnect c => some (s.disconnect c)
  | .remove c => some (s.remove c)
  | .submit r =>
    if s.loggedIn r.client = true ∧ r.id ∉ s.submitted.map Submission.id then some
      { s with
        inbox := s.inbox ++ [r]
        submitted := s.submitted ++ [⟨r.id, r.client, s.market.userId r.client⟩] }
    else none
  | .route =>
    match s.inbox with
    | [] => none
    | r :: rest => (s.market.step (.route r)).map fun market => { s with market, inbox := rest }
  | .run t execId now =>
    (s.market.step (.run t execId now)).map fun market => { s with market }

/-- Who may get reports about an order. -/
def MayReceive (s : Exchange α) (sub : Submission) (c : Client) : Prop :=
  c = sub.client ∨ sub.userId ≠ "" ∧ s.loggedIn c = true ∧ s.market.userId c = sub.userId

/-- What a step appends goes to clients who may get it. -/
def Confidential (s s' : Exchange α) : Prop :=
  ∀ outs, s'.market.output = s.market.output ++ outs → ∀ out ∈ outs, out.tells = true →
    ∃ sub ∈ s.submitted, out.about = some sub.id ∧ s.MayReceive sub out.client

/-- A request the NewOrder worker takes up is still of the user who submitted it. -/
def Keeps (s : Exchange α) : Action α → Prop
  | .run .newWorker _ _ => ∀ i ∈ s.market.taken, ∀ sub ∈ s.submitted, sub.id = i.executionId →
      s.market.userId i.client = sub.userId
  | _ => True

instance (s : Exchange α) : DecidablePred s.Keeps
  | .run .newWorker _ _ => inferInstanceAs (Decidable (∀ i ∈ s.market.taken, ∀ sub ∈ s.submitted,
      sub.id = i.executionId → s.market.userId i.client = sub.userId))
  | .run .router _ _ | .run .newUnit _ _ | .run .cancelUnit _ _ | .run .cancelWorker _ _
  | .run .eventUnit _ _ | .run .pool _ _ | .connect | .login _ _ | .disconnect _ | .remove _
  | .submit _ | .route => .isTrue trivial

/-- `n` steps of one thread. -/
def runs (t : Thread) (n : Nat) : List (Action α) := List.replicate n (.run t "" 0)

end Exchange

end Fix42
