import Mathlib.Data.List.Basic
import Mathlib.Logic.Function.Basic
import Fix42.Client.FrontManager
import Fix42.Lib.Trans

/-!
# The initiator

The sessions of the initiator over the table of clients: the front handler accepts front-ends and
closes their sessions, its pool logs them in and starts their backends, and the back handler binds a
backend that connects to a session, to which its own pool issues a token. The pools have one thread
each; a login is a step for each SQL statement, one for the fields written after it and one for the
start of the backend.

Backends are named by the session that started them, their sockets too. `Agree`, `OwnSession` and
`Separated` are what the flags, the bindings and the tokens are meant to be; `Keeps`, `FindsOwn` and
`FirstToken` are the conditions on the steps.
-/

namespace Fix42

open Ipc Net

/-! ## The table of clients -/

/-- A `CHAR(36)` is compared without its trailing blanks. -/
def bpchar (s : Bytes) : Bytes := (s.reverse.dropWhile fun c => c = BitVec.ofNat 8 ' '.toNat).reverse

/-- A row of `dev.client`. -/
structure Row where
  id : Int
  apikey : Option Bytes
  clientName : Option Bytes
  serverName : Option Bytes
  connected : Option Bool
  deriving DecidableEq

/-- `WHERE apikey = $1 AND client_name = $2`; nothing equals a null. -/
def Row.is (r : Row) (apikey : Option Bytes) (name : Bytes) : Bool :=
  match r.apikey, apikey with
  | some a, some b => bpchar a = bpchar b && r.clientName = some name
  | _, _ => false

/-- `UPDATE dev.client SET connected = .. WHERE ..`. -/
def setConnected (rows : List Row) (connected : Bool) (apikey : Option Bytes) (name : Bytes) :
    List Row :=
  rows.map fun r => if r.is apikey name then { r with connected := some connected } else r

abbrev SessionId := Nat

/-- An `Initiator::Session`. -/
structure ClientSession where
  /-- `m_frontend.apikey` -/
  apikey : Option Bytes := none
  /-- `m_frontend.name` -/
  name : Bytes := []
  /-- `m_backend.token` -/
  token : Option Bytes := none
  /-- `m_backend.socket`, by the backend at its other end -/
  socket : Option SessionId := none
  /-- what was sent to the front-end and to the backend -/
  toFront : List Message := []
  toBack : List Message := []
  /-- not in the source: `close` was called -/
  closed : Bool := false
  /-- not in the source: the key and the name of the row it logged in as -/
  row : Option (Bytes × Bytes) := none
  deriving DecidableEq

/-- Where the thread that logs in is. -/
inductive Login
  | idle
  /-- after the SELECT -/
  | selected (i : SessionId) (apikey name serverName : Bytes)
  /-- after the UPDATE -/
  | updated (i : SessionId) (apikey serverName : Bytes)
  /-- before `buildShellBack` -/
  | identified (i : SessionId)
  deriving DecidableEq

/-- The session the UPDATE is next for. -/
def Login.updating : Login → Option SessionId
  | .selected i .. => some i
  | .idle | .updated .. | .identified _ => none

/-- What `findSession(apikey)` comes to: `getApiKey` throws where there is no key, and no session is
a null pointer. -/
inductive SessionLookup
  | found (i : SessionId)
  | threw
  | null
  deriving DecidableEq

structure Initiator where
  rows : List Row
  session : SessionId → ClientSession
  /-- the sessions made so far -/
  next : Nat
  /-- `m_session` -/
  sessions : List SessionId
  login : Login
  /-- the queue of `m_tp_onremove` -/
  removals : List SessionId
  /-- the backends that have not been heard of, with the key they were given -/
  backends : List (SessionId × Bytes)
  /-- the queue of the back handler's pool: a session, and the message it is given -/
  tasks : List (SessionId × AuthBackToInitiator)
  /-- the back handler runs -/
  running : Bool
  /-- the static of `GenerateToken` -/
  token : Nat
  /-- not in the source: the lookups made, each with the backend it was made for -/
  lookups : List (SessionId × SessionLookup)

namespace Initiator

def init (rows : List Row) : Initiator where
  rows
  session := fun _ => {}
  next := 0
  sessions := []
  login := .idle
  removals := []
  backends := []
  tasks := []
  running := true
  token := 0
  lookups := []

def update (s : Initiator) (i : SessionId) (f : ClientSession → ClientSession) : Initiator :=
  { s with session := Function.update s.session i (f (s.session i)) }

/-- `Session::send(.., Side::Front)`. -/
def toFront (s : Initiator) (i : SessionId) (m : Message) : Initiator :=
  s.update i fun c => { c with toFront := c.toFront ++ [m] }

def rejectFront (s : Initiator) (i : SessionId) (message : String) : Initiator :=
  s.toFront i (.reject ⟨ascii message⟩)

/-- `identifyFrontend`, with the SELECT of `login`; the database picks the `k`-th row that matches. -/
def identifyFrontend (s : Initiator) (i : SessionId) (auth : AuthFrontToInitiator) (k : Nat) :
    Option Initiator :=
  if (s.session i).apikey.isSome then some s
  else
    let result := s.rows.filter fun r => r.is (some auth.apikey) auth.name
    if result = [] then some (s.rejectFront i "No user found")
    else
      match result[k]? with
      | some { connected := some connected, serverName := some serverName, .. } =>
        if connected then some (s.rejectFront i "User already logged in")
        else some { s with login := .selected i auth.apikey auth.name serverName }
      -- `as<bool, std::string, ..>` throws on a null
      | _ => none

/-- The UPDATE of `login`. -/
def setConnectedTrue (s : Initiator) (i : SessionId) (apikey name serverName : Bytes) : Initiator :=
  { s.update i fun c => { c with row := some (apikey, name) } with
    rows := setConnected s.rows true (some apikey) name
    login := .updated i apikey serverName }

/-- The name is overwritten by the one the database holds. -/
def setFrontend (s : Initiator) (i : SessionId) (apikey serverName : Bytes) : Initiator :=
  { (s.update i fun c => { c with name := serverName, apikey := some apikey }).toFront i
      (.initiatorToFrontAuth ⟨serverName⟩) with
    login := .identified i }

/-- `buildShellBack` and `run`. -/
def launch (s : Initiator) (i : SessionId) : Option Initiator :=
  (s.session i).apikey.map fun apikey =>
    { s with login := .idle, backends := s.backends ++ [(i, apikey)] }

/-- `Session::close`, and the removal it comes with. -/
def close (s : Initiator) (i : SessionId) : Initiator :=
  { s.update i fun c => { c with closed := true } with
    rows := setConnected s.rows false (s.session i).apikey (s.session i).name
    removals := s.removals ++ [i] }

/-- `findSession(apikey)`, over the sessions `l`. -/
def findSession (s : Initiator) (apikey : Bytes) : List SessionId → SessionLookup
  | [] => .null
  | i :: l =>
    match (s.session i).apikey with
    | none => .threw
    | some a => if a = apikey then .found i else s.findSession apikey l

/-- `BackHandler::process`, on the message of the backend of session `i`. -/
def processBack (s : Initiator) (i : SessionId) (auth : AuthBackToInitiator) : Initiator :=
  let lookup := s.findSession auth.apikey s.sessions
  let s := { s with lookups := s.lookups ++ [(i, lookup)] }
  match lookup with
  | .found j =>
    { s.update j fun c => { c with socket := some i } with tasks := s.tasks ++ [(j, auth)] }
  | .threw | .null => { s with running := false }

/-- The static is read and left as it is. -/
def generateToken (s : Initiator) : Bytes := ascii (toString s.token)

def identifyBackend (s : Initiator) (j : SessionId) (auth : AuthBackToInitiator) : Initiator :=
  let token := s.generateToken
  s.update j fun c =>
    { c with
      token := some token
      toBack := c.toBack ++ [.initiatorToBackAuth ⟨token, auth.apikey⟩]
      toFront := c.toFront ++ [.initiatorToFrontValidToken ⟨token, auth.port⟩] }

inductive Act
  /-- a front-end connects -/
  | newSession
  /-- a front-end's authentication is taken up -/
  | login (i : SessionId) (auth : AuthFrontToInitiator) (k : Nat)
  /-- the login goes on -/
  | proceed
  /-- the front-end of session `i` is gone -/
  | close (i : SessionId)
  /-- a removal task runs -/
  | erase
  /-- the backend of session `i` authenticates -/
  | backend (i : SessionId) (port : BitVec 32)
  /-- a session issues its token -/
  | issue
  deriving DecidableEq

def step (s : Initiator) : Act → Option Initiator
  | .newSession => some { s with sessions := s.sessions ++ [s.next], next := s.next + 1 }
  | .login i auth k => if s.login = .idle ∧ i < s.next then s.identifyFrontend i auth k else none
  | .proceed =>
    match s.login with
    | .idle => none
    | .selected i apikey name serverName => some (s.setConnectedTrue i apikey name serverName)
    | .updated i apikey serverName => some (s.setFrontend i apikey serverName)
    | .identified i => s.launch i
  | .close i => if i ∈ s.sessions then some (s.close i) else none
  | .erase =>
    match s.removals with
    | [] => none
    | i :: removals =>
      if i ∈ s.sessions then some { s with sessions := s.sessions.erase i, removals } else none
  | .backend i port =>
    match s.backends.lookup i with
    | none => none
    | some apikey =>
      if s.running then
        some ({ s with backends := s.backends.filter fun p => p.1 ≠ i }.processBack i ⟨apikey, port⟩)
      else none
  | .issue =>
    match s.tasks with
    | [] => none
    | (j, auth) :: tasks => some ({ s with tasks }.identifyBackend j auth)

def Live (s : Initiator) (i : SessionId) : Prop := i < s.next ∧ (s.session i).closed = false

instance (s : Initiator) (i : SessionId) : Decidable (s.Live i) :=
  inferInstanceAs (Decidable (_ ∧ _))

/-! ## The connected flags -/

/-- Session `i` logged in as the row `r`. -/
def Owns (s : Initiator) (i : SessionId) (r : Row) : Prop :=
  ∃ p, (s.session i).row = some p ∧ r.is (some p.1) p.2 = true

/-- A row is flagged iff a live session logged in as it. -/
def Agree (s : Initiator) : Prop :=
  ∀ r ∈ s.rows, r.connected = some true ↔ ∃ i, s.Live i ∧ s.Owns i r

/-- Session `i` has the key and the name `p`. -/
def Has (s : Initiator) (i : SessionId) (p : Bytes × Bytes) : Bool :=
  ((s.session i).apikey.any fun apikey => bpchar apikey = bpchar p.1) && (s.session i).name = p.2

/-- The session a login updates the table for is live; a session that closes has the key and the name
it logged in with, and they are no other live session's. -/
def Keeps (s : Initiator) : Act → Prop
  | .proceed => ∀ i ∈ s.login.updating, s.Live i
  | .close i =>
    (s.Live i → ∀ p ∈ (s.session i).row, s.Has i p) ∧
    ∀ j < s.next, j ≠ i → s.Live j → ∀ p ∈ (s.session j).row, ¬ s.Has i p
  | _ => True

instance (s : Initiator) : (a : Act) → Decidable (s.Keeps a)
  | .proceed => inferInstanceAs (Decidable (∀ i ∈ _, s.Live i))
  | .close _ => inferInstanceAs (Decidable ((_ → ∀ p ∈ _, _) ∧ ∀ j < s.next, _))
  | .newSession | .login .. | .erase | .backend .. | .issue => isTrue trivial

/-! ## The bindings -/

/-- Each backend that was heard of was bound to the session that started it, and no session has the
socket of another's backend. -/
structure OwnSession (s : Initiator) : Prop where
  bound : ∀ p ∈ s.lookups, p.2 = .found p.1
  socket : ∀ i j, (s.session i).socket = some j → i = j

/-- When a backend authenticates, its own session is listed, and each session before it has a key,
another one. -/
def FindsOwn (s : Initiator) : Act → Prop
  | .backend i _ => i ∈ s.sessions ∧ ∀ j ∈ s.sessions.takeWhile (· ≠ i),
      (s.session j).apikey.isSome ∧ (s.session j).apikey ≠ (s.session i).apikey
  | _ => True

instance (s : Initiator) : (a : Act) → Decidable (s.FindsOwn a)
  | .backend .. => inferInstanceAs (Decidable (_ ∧ ∀ j ∈ _, _))
  | .newSession | .login .. | .proceed | .close _ | .erase | .issue => isTrue trivial

/-! ## The lookup -/

/-- The first session of `l` that logged in with the key. -/
def firstWith (s : Initiator) (apikey : Bytes) (l : List SessionId) : SessionLookup :=
  match l.find? fun i => (s.session i).apikey = some apikey with
  | some i => .found i
  | none => .null

/-- The sessions before it have all logged in. -/
def Authenticated (s : Initiator) (apikey : Bytes) (l : List SessionId) : Prop :=
  ∀ i ∈ l.takeWhile fun i => (s.session i).apikey ≠ some apikey, (s.session i).apikey.isSome

/-! ## The tokens -/

/-- The backend with the token `own` takes a front-end that presents `token` as authenticated. -/
def accepts (own token : Bytes) : Bool :=
  ((FrontManager.setupToken own).onReceive (Helper.validationTokenFrontToBack ⟨token⟩)).auth

/-- No live session's backend accepts the token of another. -/
def Separated (s : Initiator) : Prop :=
  ∀ i j, i ≠ j → s.Live i → s.Live j → ∀ token own, (s.session i).token = some token →
    (s.session j).token = some own → accepts own token = false

/-- No two live sessions were issued one token. -/
def Distinct (s : Initiator) : Prop :=
  ∀ i j, i ≠ j → s.Live i → s.Live j → ∀ token, (s.session i).token = some token →
    (s.session j).token ≠ some token

/-- No other live session has been issued a token. -/
def FirstToken (s : Initiator) : Act → Prop
  | .issue => ∀ task ∈ s.tasks.head?, s.Live task.1 →
      ∀ i < s.next, i ≠ task.1 → s.Live i → (s.session i).token = none
  | _ => True

instance (s : Initiator) : (a : Act) → Decidable (s.FirstToken a)
  | .issue => inferInstanceAs (Decidable (∀ task ∈ _, _ → ∀ i < s.next, _))
  | .newSession | .login .. | .proceed | .close _ | .erase | .backend .. => isTrue trivial

end Initiator

end Fix42
