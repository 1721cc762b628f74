import Mathlib.Logic.Function.Basic
import Fix42.Core.Message
import Fix42.Lib.Trans

/-!
# The client store and the units that have clients removed

`ClientStore` with the three units that call `removeClient`: the tasks of the output unit, the input
unit and the pass of the heartbeat unit. Each is an agenda, the calls it has still to make, each call
one step; `removeClient` itself is three. The removal tasks run on a thread of their own.

`RemovedOnce` is what removal is meant to guarantee. `FirstRequest` is the condition on a step: it
queues no task for a client whose removal was asked for before.
-/

namespace Fix42

/-- The fields of an `InternalClient` removal looks at; `isOpen` is that of its socket. -/
structure InternalClient where
  isOpen : Bool
  loggedIn : Bool
  shouldDc : Bool
  userId : UserId
  deriving DecidableEq

/-- What a unit does with a client. -/
inductive Call
  | isConnected | send | shouldDisconnect | close
  /-- `TCPInputNetwork::process` -/
  | process
  /-- the body of the callback `HeartBeatHandler::handle` applies -/
  | heartBeat
  /-- the three calls of `removeClient` -/
  | setShouldDisconnect | disconnect | enqueue
  deriving DecidableEq

def removeClient : List Call := [.setShouldDisconnect, .disconnect, .enqueue]

abbrev Agenda := List (Client × Call)

/-- Where the thread of `m_tp_onremove` is: between tasks, or at the callbacks from `k` on. -/
inductive Removal
  | idle
  | callbacks (c : Client) (k : Nat)
  /-- `m_clients.erase(m_clients.end())` -/
  | undefined
  deriving DecidableEq

structure ClientStore where
  /-- `m_onremove.size()` -/
  onRemove : Nat
  /-- the clients made so far -/
  next : Nat
  info : Client → InternalClient
  /-- `m_clients` -/
  clients : List Client
  output : List Agenda
  input : Agenda
  /-- a pass holds `m_client_mutex` shared from its start to its end -/
  heartBeat : Option Agenda
  /-- the queue of `m_tp_onremove` -/
  tasks : List Client
  removal : Removal
  /-- not in the source: the clients whose removal was asked for -/
  asked : List Client
  /-- not in the source: the clients whose task has ended -/
  finished : List Client
  /-- not in the source: the callbacks run -/
  called : List (Client × Nat)

namespace ClientStore

def init (onRemove : Nat) : ClientStore where
  onRemove
  next := 0
  info := fun _ => ⟨true, false, false, ""⟩
  clients := []
  output := []
  input := []
  heartBeat := none
  tasks := []
  removal := .idle
  asked := []
  finished := []
  called := []

def update (s : ClientStore) (c : Client) (f : InternalClient → InternalClient) : ClientStore :=
  { s with info := Function.update s.info c (f (s.info c)) }

/-- `newClientSocket`. -/
def newClientSocket (s : ClientStore) : ClientStore :=
  { s with clients := s.clients ++ [s.next], next := s.next + 1 }

/-- `findClient(socket)`; each client has a socket of its own, named by the client. -/
def findClientSocket (s : ClientStore) (c : Client) : Option Client := s.clients.find? (· = c)

/-- `findClient(id)`. -/
def findClientId (s : ClientStore) (userId : UserId) : Option Client :=
  s.clients.find? fun c => (s.info c).userId = userId

/-- One call about `c`, and what it leaves to do. `b` is what the source takes from outside: the
message was sent, the read ended the connection, the client failed its heartbeat. -/
def call (s : ClientStore) (c : Client) (b : Bool) : Call → ClientStore × List Call
  | .isConnected => (s, if (s.info c).isOpen then [.send, .shouldDisconnect] else removeClient)
  | .send => (s, if (s.info c).isOpen && b then [] else removeClient)
  | .shouldDisconnect => (s, if (s.info c).shouldDc then .close :: removeClient else [])
  | .close => (s.update c fun i => { i with isOpen := false }, [])
  | .process => (s, if !(s.info c).isOpen || b then removeClient else [])
  | .heartBeat =>
    (s, if (s.info c).shouldDc || !(s.info c).loggedIn then []
      else if b then removeClient else [])
  | .setShouldDisconnect => (s.update c fun i => { i with shouldDc := true }, [])
  | .disconnect =>
    (s.update c fun i => { i with userId := "", loggedIn := false, shouldDc := false }, [])
  | .enqueue => ({ s with tasks := s.tasks ++ [c], asked := s.asked ++ [c] }, [])

/-- The next call of an agenda. -/
def advance (s : ClientStore) (b : Bool) : Agenda → Option (ClientStore × Agenda)
  | [] => none
  | (c, k) :: rest => some ((s.call c b k).1, (s.call c b k).2.map (c, ·) ++ rest)

inductive Act
  | accept
  | login (c : Client) (userId : UserId)
  /-- `LogoutHandler` -/
  | logout (c : Client)
  /-- an output thread takes a message to `c` -/
  | output (c : Client)
  /-- the next call of the `k`-th output task -/
  | outputCall (k : Nat) (b : Bool)
  /-- the input unit has an event of the socket of `c` -/
  | pull (c : Client)
  | inputCall (b : Bool)
  /-- a heartbeat pass starts -/
  | apply
  | heartBeatCall (b : Bool)
  /-- the pass ends -/
  | unlock
  /-- the next step of the removal thread -/
  | remove
  deriving DecidableEq

/-- The task `removeClient` queues: out of the list under the unique lock, then the callbacks, of
which the input unit's closes the socket. -/
def stepRemove (s : ClientStore) : Option ClientStore :=
  match s.removal with
  | .idle =>
    match s.tasks with
    | [] => none
    | c :: tasks =>
      if s.heartBeat ≠ none then none
      else if c ∈ s.clients then
        some { s with clients := s.clients.erase c, tasks, removal := .callbacks c 0 }
      else some { s with tasks, removal := .undefined }
  | .callbacks c k =>
    if k < s.onRemove then
      some { s with
        info := Function.update s.info c { s.info c with isOpen := false }
        removal := .callbacks c (k + 1)
        called := s.called ++ [(c, k)] }
    else some { s with removal := .idle, finished := s.finished ++ [c] }
  | .undefined => none

def step (s : ClientStore) : Act → Option ClientStore
  | .accept => if s.heartBeat = none then some s.newClientSocket else none
  | .login c userId =>
    if c < s.next then some (s.update c fun i => { i with loggedIn := true, userId }) else none
  | .logout c =>
    if c < s.next then some (s.update c fun i => { i with shouldDc := true }) else none
  | .output c =>
    if c < s.next then some { s with output := s.output ++ [[(c, .isConnected)]] } else none
  | .outputCall k b =>
    match s.output[k]? with
    | none => none
    | some agenda =>
      (s.advance b agenda).map fun (t, rest) => { t with output := s.output.set k rest }
  | .pull c =>
    if s.input = [] then
      match s.findClientSocket c with
      | some c => some { s with input := [(c, .process)] }
      | none => none
    else none
  | .inputCall b => (s.advance b s.input).map fun (t, rest) => { t with input := rest }
  | .apply =>
    if s.heartBeat = none then some { s with heartBeat := some (s.clients.map (·, .heartBeat)) }
    else none
  | .heartBeatCall b =>
    match s.heartBeat with
    | none => none
    | some agenda => (s.advance b agenda).map fun (t, rest) => { t with heartBeat := some rest }
  | .unlock => if s.heartBeat = some [] then some { s with heartBeat := none } else none
  | .remove => s.stepRemove

/-! ## What removal is for -/

/-- The clients taken out of the list. -/
def erased (s : ClientStore) : List Client :=
  match s.removal with
  | .callbacks c _ => s.finished ++ [c]
  | .idle | .undefined => s.finished

/-- No task misses its client, and no task queued will; a callback runs once for each client whose
task has ended, and never twice; no lookup gives a client taken out of the list; when nothing is left
to do, every removal asked for is done. -/
structure RemovedOnce (s : ClientStore) : Prop where
  defined : s.removal ≠ .undefined
  tasks : s.tasks.Nodup ∧ ∀ c ∈ s.tasks, c ∈ s.clients
  callbacks : ∀ c ∈ s.finished, ∀ k < s.onRemove, s.called.count (c, k) = 1
  once : ∀ c k, s.called.count (c, k) ≤ 1
  socket : ∀ c ∈ s.erased, ∀ c', s.findClientSocket c' ≠ some c
  id : ∀ c ∈ s.erased, ∀ userId, s.findClientId userId ≠ some c
  done : s.tasks = [] → s.removal = .idle → ∀ c ∈ s.asked, c ∈ s.finished

/-- The next call of the unit that acts. -/
def nextCall (s : ClientStore) : Act → Option (Client × Call)
  | .outputCall k _ => (s.output[k]?).bind List.head?
  | .inputCall _ => s.input.head?
  | .heartBeatCall _ => s.heartBeat.bind List.head?
  | _ => none

/-- No task is queued for a client whose removal was asked for before. -/
def FirstRequest (s : ClientStore) (act : Act) : Prop :=
  ∀ p ∈ s.nextCall act, p.2 = .enqueue → p.1 ∉ s.asked

instance (s : ClientStore) (act : Act) : Decidable (s.FirstRequest act) :=
  inferInstanceAs (Decidable (∀ p ∈ s.nextCall act, _))

end ClientStore

end Fix42
