import Fix42.Lib.Trans
import Fix42.Session.Party

/-!
# A session

The server and the client backend of one connection, joined by two channels that keep the order. A
receive takes one message from a channel: the two channels deliver messages, not bytes.
-/

namespace Fix42

structure Session where
  server : Session.Party 32
  client : Session.Party 64
  toClient : List Session.Msg
  toServer : List Session.Msg
  deriving DecidableEq

namespace Session

/-- What can happen: a step of a unit of either side, a receive, a logon of the front-end. -/
inductive Action
  | server (op : Op)
  | client (op : Op)
  | serverReceive
  | clientReceive
  | front (userId : String) (seqNum : BitVec 32)
  deriving DecidableEq

def start : Session := ⟨.new 0, .new 1, [], []⟩

def step (cfg : Config) (m : Session) : Action → Option Session
  | .server op => (Server.run cfg m.server op).map fun (server, out) =>
      { m with server, toClient := m.toClient ++ out.toList }
  | .client op => (Client.run cfg m.client op).map fun (client, out) =>
      { m with client, toServer := m.toServer ++ out.toList }
  | .serverReceive =>
    match m.toServer with
    | [] => none
    | msg :: rest => some { m with server := m.server.receive msg, toServer := rest }
  | .clientReceive =>
    match m.toClient with
    | [] => none
    | msg :: rest => some { m with client := m.client.receive msg, toClient := rest }
  | .front userId seqNum => some { m with client := Client.buildLogon m.client userId seqNum }

/-- The next queued message goes out, by the first thread. -/
def sendOps : List Op := [.take, .stamp 0, .count 0, .transmit 0]

/-- The Logon exchange: the front-end asks for it, the client sends, the server logs the user in and
answers, the client logs in. -/
def logonExchange (userId : String) (seqNum : BitVec 32) : List Action :=
  [.front userId seqNum] ++ sendOps.map .client ++
  [.serverReceive, .server .validate, .server .route, .server (.logon true)] ++
  sendOps.map .server ++
  [.clientReceive, .client .validate, .client .route, .client (.logon true)]

/-- What happens after the exchange: no logon is asked for, or sent otherwise. -/
def Ordinary : Action → Prop
  | .front _ _ => False
  | .server (.append t) | .client (.append t) => t ≠ 'A'
  | _ => True

instance : DecidablePred Ordinary
  | .front _ _ => .isFalse id
  | .server (.append t) | .client (.append t) => inferInstanceAs (Decidable (t ≠ 'A'))
  | .server .take | .server (.stamp _) | .server (.count _) | .server (.transmit _)
  | .server .validate | .server .route | .server (.logon _)
  | .client .take | .client (.stamp _) | .client (.count _) | .client (.transmit _)
  | .client .validate | .client .route | .client (.logon _)
  | .serverReceive | .clientReceive => .isTrue trivial

/-- The session once the exchange is over, started with number `seqNum` by `userId`. -/
def loggedOn (userId : String) (seqNum : BitVec 32) : Session where
  server := { (Party.new 0 : Party 32) with
    loggedIn := true, userId, seqNum := seqNum + 3, appended := 1, counted := 1, transmitted := 1
    received := 1 }
  client := { (Party.new 0 : Party 64) with
    loggedIn := true, userId, seqNum := (seqNum + 3).setWidth 64, appended := 1, counted := 1
    transmitted := 1, received := 1 }
  toClient := []
  toServer := []

/-- The messages both sides have counted since the exchange, in which each counted one. -/
def sinceLogon (m : Session) : Nat := (m.server.counted - 1) + (m.client.counted - 1)

end Session

end Fix42
