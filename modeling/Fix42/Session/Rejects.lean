import Mathlib.Algebra.GroupWithZero.Nat
import Fix42.Lib.Progress
import Fix42.Session.Model

/-!
# Rejects in a session

A message that is refused is answered by a reject, which is checked as any other message is. Here
nothing else is sent: `Internal` leaves out what the handlers and the front-end ask for.

`underway` (the messages that are not yet at a handler, or dropped) and `rank` (the steps they still
need if none is refused) are not in the source.
-/

namespace Fix42

namespace Session

def Task.rank : Task → Nat
  | .taken _ => 6
  | .stamped _ => 5
  | .counted _ => 4

namespace Party

variable {w : Nat}

def underway (p : Party w) : Nat :=
  p.output.length + p.pool.length + p.validation.length + p.router.length

def rank (p : Party w) : Nat :=
  7 * p.output.length + (p.pool.map Task.rank).sum + 2 * p.validation.length + p.router.length

end Party

def underway (m : Session) : Nat :=
  m.server.underway + m.client.underway + m.toClient.length + m.toServer.length

def rank (m : Session) : Nat :=
  m.server.rank + m.client.rank + 3 * m.toClient.length + 3 * m.toServer.length

/-- No handler answers, and the front-end asks for nothing. -/
def Internal : Action → Prop
  | .front _ _ | .server (.append _) | .client (.append _) => False
  | _ => True

instance : DecidablePred Internal
  | .front _ _ | .server (.append _) | .client (.append _) => .isFalse id
  | .server .take | .server (.stamp _) | .server (.count _) | .server (.transmit _)
  | .server .validate | .server .route | .server (.logon _)
  | .client .take | .client (.stamp _) | .client (.count _) | .client (.transmit _)
  | .client .validate | .client .route | .client (.logon _)
  | .serverReceive | .clientReceive => .isTrue trivial

theorem Internal.ordinary {a : Action} (h : Internal a) : Ordinary a := by
  cases a with
  | front => exact h.elim
  | server op | client op =>
    cases op with
    | append t => exact h.elim
    | _ => trivial
  | serverReceive | clientReceive => trivial

/-- Each side sends the message it has queued, and takes up the other's. -/
def crossingRound : List Action :=
  sendOps.map .server ++ sendOps.map .client ++
    [.clientReceive, .client .validate, .serverReceive, .server .validate]

end Session

end Fix42
