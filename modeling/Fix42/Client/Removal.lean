import Mathlib.Data.List.Nodup
import Fix42.Client.Initiator
import Fix42.Lib.Progress

/-!
# The removal of a session

The front handler of the initiator (`FrontHandler::runtime`, `process`), the pool that removes sessions
(`SessionManager::removeSession`), and what keeps a front-end's socket open. The selector is
edge-triggered, and `erase` takes a socket out of its map only, so what arrives on a socket is reported
for as long as the socket is open: while the map, the list of sessions, a message being handled or a
removal refers to it. The thread of a pool keeps its last task until it gets the next one. The selector's
map is used by two threads without a lock; each use is one step here.

A front-end's socket is named by its session. What the back handler refers to would keep more sockets
open, and is left out.
-/

namespace Fix42

/-- What goes wrong. -/
inductive RemovalFault
  /-- `m_clients.at` throws -/
  | unregistered
  /-- a session that is null is used -/
  | nullSession
  /-- the end of `m_session` is erased -/
  | eraseEnd
  deriving DecidableEq

/-- Where the front handler is. -/
inductive FrontPc
  | poll
  /-- before the next of the sockets that were reported -/
  | next (sockets : List SessionId)
  /-- `findSession` has given the session of the socket, or null -/
  | found (i : SessionId) (session : Option SessionId) (rest : List SessionId)
  /-- `process` has returned false -/
  | failed (session : Option SessionId) (rest : List SessionId)
  deriving DecidableEq

/-- The sockets the front handler has yet to deal with. -/
def FrontPc.pending : FrontPc → List SessionId
  | .poll => []
  | .next sockets => sockets
  | .found i _ rest => i :: rest
  | .failed session rest => session.toList ++ rest

/-- Where the thread of `m_tp_onremove` is. -/
inductive EraserPc
  | wait
  /-- before the first block of the task -/
  | erase (i : SessionId)
  /-- before the callbacks -/
  | callbacks (i : SessionId)
  deriving DecidableEq

structure FrontHandler where
  /-- the sessions made so far -/
  made : Nat
  /-- `m_session` -/
  sessions : List SessionId
  /-- the sockets in `m_clients` of the selector -/
  registered : List SessionId
  pc : FrontPc
  /-- the sockets reported last, which `runtime` keeps until the next report -/
  clients : List SessionId
  /-- the queue of the handler's pool, and the task its thread has -/
  messages : List (Option SessionId)
  message : Option SessionId
  /-- the queue of `m_tp_onremove`, and the task its thread has -/
  removals : List SessionId
  removal : Option SessionId
  eraser : EraserPc
  fault : Option RemovalFault
  /-- not in the source: the sessions whose receive failed, and the sessions erased, in order -/
  failures : List SessionId
  erased : List SessionId
  deriving DecidableEq

namespace FrontHandler

def new : FrontHandler where
  made := 0
  sessions := []
  registered := []
  pc := .poll
  clients := []
  messages := []
  message := none
  removals := []
  removal := none
  eraser := .wait
  fault := none
  failures := []
  erased := []

/-- The socket was made, and something refers to it. -/
def Open (s : FrontHandler) (i : SessionId) : Prop :=
  i < s.made ∧ (i ∈ s.registered ∨ i ∈ s.sessions ∨ i ∈ s.clients ∨ some i ∈ s.messages ∨
    s.message = some i ∨ i ∈ s.removals ∨ s.removal = some i)

instance (s : FrontHandler) (i : SessionId) : Decidable (s.Open i) :=
  inferInstanceAs (Decidable (_ ∧ _))

inductive Act
  /-- a front-end connects -/
  | connect
  /-- the selector reports sockets -/
  | pull (sockets : List SessionId)
  /-- `findSession` -/
  | find
  /-- `process`; it succeeds if a header and a body are read -/
  | process (success : Bool)
  /-- `removeSession` -/
  | remove
  /-- the handler's pool takes a message -/
  | handle
  /-- the thread of `m_tp_onremove` goes on -/
  | erase
  deriving DecidableEq

def step (s : FrontHandler) (a : Act) : Option FrontHandler :=
  if s.fault.isSome then none
  else
    match a with
    | .connect =>
      if s.pc = .poll then
        some { s with
          made := s.made + 1
          registered := s.registered ++ [s.made]
          sessions := s.sessions ++ [s.made] }
      else none
    | .pull sockets =>
      if s.pc = .poll ∧ sockets.Nodup ∧ ∀ i ∈ sockets, s.Open i then
        if ∀ i ∈ sockets, i ∈ s.registered then
          some { s with pc := .next sockets, clients := sockets }
        else some { s with fault := some .unregistered }
      else none
    | .find =>
      match s.pc with
      | .next [] => some { s with pc := .poll }
      | .next (i :: rest) =>
        some { s with pc := .found i (if i ∈ s.sessions then some i else none) rest }
      | _ => none
    | .process success =>
      match s.pc with
      | .found _ session rest =>
        if success then some { s with pc := .next rest, messages := s.messages ++ [session] }
        else some { s with pc := .failed session rest }
      | _ => none
    | .remove =>
      match s.pc with
      | .failed none _ => some { s with fault := some .nullSession }
      | .failed (some i) rest =>
        some { s with pc := .next rest, removals := s.removals ++ [i], failures := s.failures ++ [i] }
      | _ => none
    | .handle =>
      match s.messages with
      | [] => none
      | none :: _ => some { s with fault := some .nullSession }
      | some i :: messages => some { s with messages, message := some i }
    | .erase =>
      match s.eraser with
      | .wait =>
        match s.removals with
        | [] => none
        | i :: removals => some { s with removals, removal := some i, eraser := .erase i }
      | .erase i =>
        if i ∈ s.sessions then
          some { s with
            sessions := s.sessions.erase i
            eraser := .callbacks i
            erased := s.erased ++ [i] }
        else some { s with fault := some .eraseEnd }
      | .callbacks i => some { s with registered := s.registered.erase i, eraser := .wait }

abbrev Reachable (s : FrontHandler) : Prop := Trans.Reach step new s

/-- Nothing is reported of a front-end whose receive failed. -/
def Quiet (s : FrontHandler) : Act → Prop
  | .pull sockets => ∀ i ∈ sockets, i ∉ s.failures
  | _ => True

instance (s : FrontHandler) : (a : Act) → Decidable (s.Quiet a)
  | .pull _ => inferInstanceAs (Decidable (∀ i ∈ _, i ∉ s.failures))
  | .connect | .find | .process _ | .remove | .handle | .erase => isTrue trivial

/-- The session that is being erased. -/
def erasing (s : FrontHandler) : List SessionId :=
  match s.eraser with
  | .erase i => [i]
  | .wait | .callbacks _ => []

/-- All removals are done. -/
def Drained (s : FrontHandler) : Prop := s.removals = [] ∧ s.eraser = .wait

end FrontHandler

end Fix42
