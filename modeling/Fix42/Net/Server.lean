import Fix42.Lib.Trans
import Fix42.Net.Selector

/-!
# The units around the selector

`TCPInputNetwork::runtime` accepts, registers and pulls; the callback of `ClientStore::removeClient`
closes a socket and erases it from the selector on a thread of its own; the output threads close
sockets; any unit with a client in hand can have it removed. One step of the model is one call on a
socket, the selector or the client store. Each socket has one client, named by the socket.

`Registered` is what the selector is meant to guarantee. `Fresh` is the condition on a registration:
nothing is left in the map under the descriptor of the new socket.
-/

namespace Fix42

/-- `MAX_EVENT_EPOLL`. -/
def maxEventEpoll : Nat := 30

/-- Where `TCPInputNetwork::runtime` is in its loop. -/
inductive InputLoop
  | accept
  /-- `newClientSocket` is next -/
  | accepted (c : SocketId)
  /-- `m_selector.client` is next -/
  | stored (c : SocketId)
  | pull
  /-- the sockets pulled and not handled yet -/
  | handle (cs : List SocketId)
  /-- the store has no client of the socket: erase and close are next -/
  | unknown (c : SocketId) (cs : List SocketId)
  | closing (c : SocketId) (cs : List SocketId)
  /-- `process` is next -/
  | found (c : SocketId) (cs : List SocketId)
  | failed (f : Fault)
  deriving DecidableEq

/-- Where the removal thread is: between tasks, before the close, before the erase. -/
inductive RemoveTask
  | idle
  | close (c : SocketId)
  | erase (c : SocketId)
  deriving DecidableEq

structure NetServer where
  selector : Selector
  /-- the clients of the store -/
  store : List SocketId
  input : InputLoop
  /-- the queue of `m_tp_onremove` -/
  tasks : List SocketId
  remove : RemoveTask

namespace NetServer

def init (reserved : List Nat) : NetServer := ⟨.new reserved, [], .accept, [], .idle⟩

inductive Act
  /-- `m_acceptor.accept()`, with a connection pending or none -/
  | accept (pending : Bool)
  /-- the next call of the input loop -/
  | input
  | pull (reported : List Nat)
  /-- `process`, which a closed socket ends at once -/
  | process (disconnect : Bool)
  /-- an output thread closes a client's socket -/
  | closeClient (c : SocketId)
  | removeClient (c : SocketId)
  /-- the next call of the removal thread -/
  | remove
  deriving DecidableEq

/-- A client of this socket has been made, so a unit can have it in hand. -/
def Known (s : NetServer) (c : SocketId) : Prop :=
  c < s.selector.fds.length ∧ s.input ≠ .accepted c

instance (s : NetServer) (c : SocketId) : Decidable (s.Known c) :=
  inferInstanceAs (Decidable (_ ∧ _))

def stepInput (s : NetServer) : Option NetServer :=
  match s.input with
  | .accepted c => some { s with store := s.store ++ [c], input := .stored c }
  | .stored c => some { s with selector := (s.selector.client c).2, input := .pull }
  | .handle [] => some { s with input := .accept }
  | .handle (c :: cs) =>
    some { s with input := if c ∈ s.store then .found c cs else .unknown c cs }
  | .unknown c cs => some { s with selector := s.selector.erase c, input := .closing c cs }
  | .closing c cs => some { s with selector := s.selector.close c, input := .handle cs }
  | _ => none

/-- The task `removeClient` queues: out of the store, then `close` and `erase`. -/
def stepRemove (s : NetServer) : Option NetServer :=
  match s.remove with
  | .idle =>
    match s.tasks with
    | [] => none
    | c :: tasks => some { s with store := s.store.erase c, tasks, remove := .close c }
  | .close c => some { s with selector := s.selector.close c, remove := .erase c }
  | .erase c => some { s with selector := s.selector.erase c, remove := .idle }

def step (s : NetServer) : Act → Option NetServer
  | .accept pending =>
    if s.input = .accept then
      if pending then
        let (c, selector) := s.selector.accept
        some { s with selector, input := .accepted c }
      else some { s with input := .pull }
    else none
  | .input => s.stepInput
  | .pull reported =>
    if s.input = .pull ∧ (∀ f ∈ reported, f ∈ s.selector.interest) ∧
        reported.length ≤ maxEventEpoll then
      match s.selector.pull reported with
      | .ok cs => some { s with input := .handle cs }
      | .error f => some { s with input := .failed f }
    else none
  | .process disconnect =>
    match s.input with
    | .found c cs =>
      if disconnect ∨ s.selector.fd c = none then
        some { s with tasks := s.tasks ++ [c], input := .handle cs }
      else some { s with input := .handle cs }
    | _ => none
  | .closeClient c => if s.Known c then some { s with selector := s.selector.close c } else none
  | .removeClient c => if s.Known c then some { s with tasks := s.tasks ++ [c] } else none
  | .remove => s.stepRemove

/-! ## What the selector is for -/

/-- Every descriptor `epoll_wait` can report has its entry, the open socket registered last under
it; `pull` returns and gives no erased socket. Between the erase and the close of an unknown client
the input thread, the only one to pull, is not at `pull`. -/
structure Registered (s : NetServer) : Prop where
  entry : (∀ c cs, s.input ≠ .closing c cs) → ∀ f ∈ s.selector.interest, ∃ c,
    s.selector.clients f = some c ∧ s.selector.fd c = some f ∧ s.selector.last f = some c
  pull : s.input = .pull → ∀ reported, (∀ f ∈ reported, f ∈ s.selector.interest) →
    ∃ cs, s.selector.pull reported = .ok cs ∧ ∀ c ∈ cs, c ∉ s.selector.erased
  input : ∀ f, s.input ≠ .failed f

/-- A socket is registered only when the map has no entry under its descriptor. -/
def Fresh (s : NetServer) : Act → Prop
  | .input =>
    match s.input with
    | .stored c => ∀ f ∈ s.selector.fd c, s.selector.clients f = none
    | _ => True
  | _ => True

instance (s : NetServer) : ∀ act, Decidable (s.Fresh act)
  | .input => by unfold Fresh; dsimp only; split <;> infer_instance
  | .accept _ | .pull _ | .process _ | .closeClient _ | .removeClient _ | .remove => isTrue trivial

end NetServer

end Fix42
