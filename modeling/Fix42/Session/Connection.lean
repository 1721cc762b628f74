import Fix42.Lib.Trans
import Fix42.Session.Party

/-!
# One connection of the server

The server's side alone, against a client that may send anything: every step of a unit, and the
receive of any message. `wire` is what the socket has been given, in order.
-/

namespace Fix42

structure Connection where
  server : Session.Party 32
  wire : List Session.Msg
  deriving DecidableEq

namespace Connection

open Session

inductive Action
  | unit (op : Op)
  | deliver (header : Session.Header)
  deriving DecidableEq

/-- A connection just accepted. -/
def new : Connection := ⟨.new 0, []⟩

def step (cfg : Config) (c : Connection) : Action → Option Connection
  | .unit op => (Server.run cfg c.server op).map fun (server, out) =>
      ⟨server, c.wire ++ out.toList⟩
  | .deliver header => some { c with server := c.server.receive { header } }

/-- The numbers on the wire. -/
def numbers (c : Connection) : List Nat := c.wire.map fun msg => msg.header.msgSeqNum.toNat

/-- The next message for the logon handler, if it logs the client in. -/
def loggingIn (c : Connection) : Action → Option Msg
  | .unit (.logon true) => if c.server.loggedIn then none else c.server.logon.head?
  | _ => none

/-- How often an action advances the counter. -/
def advances (c : Connection) : Action → Nat
  | .unit .take => if c.server.loggedIn then 0 else 1
  | .unit (.count _) => 1
  | .deliver _ => if c.server.loggedIn then 1 else 0
  | _ => 0

/-- A task is taken when no other is in progress, the counter does not pass its end, and a logon does
not set it back. -/
def Serial (c : Connection) (a : Action) : Prop :=
  (a = .unit .take → c.server.pool = []) ∧
  c.server.seqNum.toNat + c.advances a < 2 ^ 32 ∧
  ∀ msg ∈ c.loggingIn a, c.server.seqNum.toNat ≤ (msg.header.msgSeqNum + 1).toNat

instance (c : Connection) (a : Action) : Decidable (Serial c a) :=
  inferInstanceAs (Decidable ((_ → _) ∧ _ ∧ ∀ msg ∈ c.loggingIn a, _))

/-- A client is logged in when the router has no message for a handler before it. -/
def QuietLogon (c : Connection) (a : Action) : Prop :=
  (c.loggingIn a).isSome → ∀ msg ∈ c.server.router, msg.header.msgType ∉ Server.handlerTypes

instance (c : Connection) (a : Action) : Decidable (QuietLogon c a) :=
  inferInstanceAs (Decidable (_ → ∀ msg ∈ c.server.router, _))

end Connection

end Fix42
