import Fix42.Session.HeartBeat

/-!
# Keeping a client

The heartbeat units of the server and of the client backend, for one client that is logged in: the two
timers, the messages on their way with the time they were sent, and what each side makes of a message.
A message may take its time, overtake others and get lost (the header validation refuses some).

`Prompt` is the assumption on the network; `Silent` is a client of which nothing is heard.
-/

namespace Fix42

open HeartBeat

/-- `User::HeartBeatInfo`. -/
structure UserHeartBeatInfo where
  since : Int
  elapsing : Nat
  deriving DecidableEq

namespace UserHeartBeatInfo

/-- One turn of `heartbeatLoop`, and what it sends. -/
def heartbeatLoop (info : UserHeartBeatInfo) (now : Int) : UserHeartBeatInfo × List Message :=
  if (now - info.since).tdiv 1000000000 ≥ info.elapsing then
    ({ info with since := now }, [.heartBeat none])
  else (info, [])

/-- `HeartBeatHandler::onInput`, and what it sends. -/
def onInput : Message → List Message
  | .testRequest testReqId => [.heartBeat (some testReqId)]
  | .heartBeat _ | .logon _ | .logout | .reject _ => []

end UserHeartBeatInfo

def HeartBeat.ClientEvent.sent? : ClientEvent → Option Message
  | .append _ msg => some msg
  | .processed _ | .removeClient => none

/-- What a step of the handlers sent. -/
def HeartBeatClient.sentSince (before after : HeartBeatClient) : List Message :=
  (after.events.drop before.events.length).filterMap ClientEvent.sent?

structure KeepAlive where
  clock : Int
  server : HeartBeatClient
  client : UserHeartBeatInfo
  toClient : List (Int × Message)
  toServer : List (Int × Message)
  deriving DecidableEq

namespace KeepAlive

/-- Both sides use the interval the server has answered the logon with. -/
def loggedOn (elapsing : Nat) (now since : Int) : KeepAlive where
  clock := now
  server := { loggedIn := true, info := { elapsing, since := now } }
  client := ⟨since, elapsing⟩
  toClient := []
  toServer := []

inductive Act
  /-- a pass of `handle` over the client -/
  | serverPass
  | clientPass
  /-- a message is handled; the server notes when it received it -/
  | serverTake (k : Nat) (receiveTime : Int)
  | clientTake (k : Nat)
  | loseToServer (k : Nat)
  | loseToClient (k : Nat)
  deriving DecidableEq

/-- The server's side after a step at time `now`, and what it sent on the way. -/
def setServer (s : KeepAlive) (now : Int) (server : HeartBeatClient) : KeepAlive :=
  { s with
    clock := now, server
    toClient := s.toClient ++ (s.server.sentSince server).map fun msg => (now, msg) }

/-- The client sends. -/
def clientSends (s : KeepAlive) (now : Int) (msgs : List Message) : KeepAlive :=
  { s with clock := now, toServer := s.toServer ++ msgs.map fun msg => (now, msg) }

/-- A step at time `now`. -/
def act (s : KeepAlive) (now : Int) : Act → Option KeepAlive
  | .serverPass => some (s.setServer now (s.server.handle now))
  | .clientPass =>
    let (client, msgs) := s.client.heartbeatLoop now
    some ({ s with client }.clientSends now msgs)
  | .serverTake k receiveTime =>
    match s.toServer[k]? with
    | some (_, .heartBeat testReqId) =>
      if receiveTime ≤ now then
        some ({ s with toServer := s.toServer.eraseIdx k }.setServer now
          (s.server.processHeartBeat receiveTime (.ok testReqId)))
      else none
    | _ => none
  | .clientTake k =>
    match s.toClient[k]? with
    | some (_, msg) =>
      some ({ s with toClient := s.toClient.eraseIdx k }.clientSends now (UserHeartBeatInfo.onInput msg))
    | none => none
  | .loseToServer k => some { s with clock := now, toServer := s.toServer.eraseIdx k }
  | .loseToClient k => some { s with clock := now, toClient := s.toClient.eraseIdx k }

def step (s : KeepAlive) : Int × Act → Option KeepAlive
  | (now, a) => if s.clock ≤ now then s.act now a else none

/-- A TestRequest, or the answer to one. -/
def IsTest : Message → Prop
  | .testRequest _ | .heartBeat (some _) => True
  | .heartBeat none | .logon _ | .logout | .reject _ => False

/-- No TestRequest and no answer to one is lost, or longer than `delay` on its way. -/
def Prompt (delay : Int) (s : KeepAlive) : Int × Act → Prop
  | (now, a) => (∀ m ∈ s.toClient ++ s.toServer, IsTest m.2 → now - m.1 ≤ delay) ∧
    match a with
    | .loseToServer k => ∀ m ∈ s.toServer[k]?, ¬ IsTest m.2
    | .loseToClient k => ∀ m ∈ s.toClient[k]?, ¬ IsTest m.2
    | .serverPass | .clientPass | .serverTake _ _ | .clientTake _ => True

end KeepAlive

/-- Of the client `c` nothing is handled but TestRequests and HeartBeats that do not parse. -/
def HeartBeatHandler.Silent (c : Client) (_ : HeartBeatHandler) : Int × Client × Act → Prop
  | (_, _, .handle) | (_, _, .testRequest _ _) | (_, _, .heartBeat _ (.error _)) => True
  | (_, c', _) => c' ≠ c

end Fix42
