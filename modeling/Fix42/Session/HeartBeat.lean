import Mathlib.Data.Rat.Floor
import Mathlib.Logic.Function.Basic
import Fix42.Core.Message
import Fix42.Lib.Calendar
import Fix42.Lib.Trans
import Fix42.Session.Party

/-!
# The heartbeat unit

`HeartBeatHandler` with the logon and logout handlers, as they write the heartbeat record of a
client: the timer's pass over a client, the processing of a message, and the callback of a new
client are one step each. Times are nanoseconds since the epoch.

`Justified` is what a removal needs; `InTime` is what a client does that answers in time.
-/

namespace Fix42

/-- `std::chrono::seconds`, in nanoseconds. -/
def seconds (n : Nat) : Int := n * 1000000000

/-! ## `std::format("{:%Y-%m-%d %H:%M:%S}", ..)` -/

def padded (width : Nat) (n : Int) : String :=
  let digits := Nat.toDigits 10 n.natAbs
  String.ofList ((if n < 0 then ['-'] else []) ++ List.replicate (width - digits.length) '0' ++ digits)

def formatTime (now : Int) : String :=
  let second := now / 1000000000
  let (year, month, day) := civil (second / 86400)
  let time := second % 86400
  padded 4 year ++ "-" ++ padded 2 month ++ "-" ++ padded 2 day ++ " " ++
    padded 2 (time / 3600) ++ ":" ++ padded 2 (time / 60 % 60) ++ ":" ++ padded 2 (time % 60)

example : formatTime 1709210096000000001 = "2024-02-29 12:34:56" := by decide +kernel

namespace HeartBeat

inductive RejectReasonSession
  | invalidTagNum | requiredTagMissing | tagNotDefine | undefineTag | tagWithoutValue
  | valueOutOfRange | incorrectDataFormat | signatureProblem | compIDProblem | sendingTimeAccuracy
  | invalidMsgType
  deriving DecidableEq

structure SessionReject where
  refSeqNum : BitVec 32 := 0
  refTagId : Option (BitVec 16) := none
  refMsgType : Option Char := none
  sessionRejectReason : Option RejectReasonSession := none
  text : String
  deriving DecidableEq

inductive EncryptionMethod
  | none | pkcs | des | pkcsDes | pgpDes | pgpDesMd5 | pem
  deriving DecidableEq

structure Logon where
  encryptMethod : EncryptionMethod
  heartBtInt : BitVec 32

/-- What the handlers send. -/
inductive Message
  | heartBeat (testReqId : Option String)
  | testRequest (testReqId : String)
  | logon (heartBtInt : Nat)
  | logout
  | reject (reject : SessionReject)
  deriving DecidableEq

/-- What happened about a client. -/
inductive ClientEvent
  /-- `m_tcp_output.append` -/
  | append (time : Int) (msg : Message)
  /-- a HeartBeat was processed -/
  | processed (testReqId : Option String)
  | removeClient
  deriving DecidableEq

end HeartBeat

open HeartBeat

structure HeartBeatInfo where
  elapsing : Nat := 1
  testRequest : Bool := false
  testValue : Option String := none
  since : Int := 0
  deriving DecidableEq

/-- A client as the handlers see it. -/
structure HeartBeatClient where
  info : HeartBeatInfo := {}
  loggedIn : Bool := false
  shouldDc : Bool := false
  userId : UserId := ""
  seqNum : BitVec 32 := 0
  /-- not in the source -/
  events : List ClientEvent := []
  deriving DecidableEq

namespace HeartBeatClient

def note (c : HeartBeatClient) (e : ClientEvent) : HeartBeatClient :=
  { c with events := c.events ++ [e] }

def append (c : HeartBeatClient) (time : Int) (msg : Message) : HeartBeatClient :=
  c.note (.append time msg)

def setSince (c : HeartBeatClient) (since : Int) : HeartBeatClient :=
  { c with info := { c.info with since } }

/-- The rejects of `processHeartBeat`; the tag id is set twice, the second time to the message type
of a reject. -/
def testReject (reason : RejectReasonSession) (text : String) : SessionReject :=
  { refTagId := some (BitVec.ofNat 16 '3'.toNat), sessionRejectReason := some reason, text }

def processHeartBeat (c : HeartBeatClient) (receiveTime : Int)
    (parsed : Except SessionReject (Option String)) : HeartBeatClient :=
  match parsed with
  | .error reject => c.append receiveTime (.reject reject)
  | .ok testReqId =>
    let c := c.note (.processed testReqId)
    let validated (c : HeartBeatClient) :=
      (c.setSince receiveTime).append receiveTime (.heartBeat none)
    if c.info.testRequest then
      match c.info.testValue, testReqId with
      | none, _ => c
      | some _, none =>
        c.append receiveTime (.reject (testReject .requiredTagMissing "Missing Test request Id"))
      | some value, some id =>
        if value ≠ id then
          c.append receiveTime (.reject (testReject .valueOutOfRange "Incorrect Test Value"))
        else validated { c with info := { c.info with testRequest := false, testValue := none } }
    else validated c

def processTestRequest (c : HeartBeatClient) (receiveTime : Int)
    (parsed : Except SessionReject (Option String)) : HeartBeatClient :=
  match parsed with
  | .error reject => c.append receiveTime (.reject reject)
  | .ok testReqId => c.append receiveTime (.heartBeat testReqId)

/-- `ClientStore::removeClient`, up to the task it queues. -/
def removeClient (c : HeartBeatClient) : HeartBeatClient :=
  { c with userId := "", loggedIn := false, shouldDc := false, seqNum := 0
           events := c.events ++ [.removeClient] }

/-- The body of the callback `handle` applies. -/
def handle (c : HeartBeatClient) (now : Int) : HeartBeatClient :=
  if c.shouldDc || !c.loggedIn then c
  else if now - c.info.since > seconds c.info.elapsing then
    if !c.info.testRequest then
      let value := formatTime now
      { c with
        info := { c.info with since := now, testRequest := true, testValue := some value } }.append
        now (.testRequest value)
    else c.removeClient
  else c

/-- `static_cast<float>`: 24 bits, to the nearest, ties to even. -/
def float (n : BitVec 32) : ℚ :=
  let unit := 2 ^ (Nat.log2 n.toNat - 23)
  let q := n.toNat / unit
  let r := n.toNat % unit
  ((if 2 * r > unit ∨ 2 * r = unit ∧ q % 2 = 1 then q + 1 else q) * unit : Nat)

/-- `maxTO` is `Config.User.Heartbeat.MaxTO`. -/
def elapsing (maxTO : ℚ) (heartBtInt : BitVec 32) : Nat :=
  (max 1 (min maxTO (float heartBtInt))).floor.toNat

/-- `LogonHandler::onInput`. -/
def logon (maxTO : ℚ) (c : HeartBeatClient) (now receiveTime : Int) (header : Session.Header)
    (parsed : Except SessionReject Logon) : HeartBeatClient :=
  match parsed with
  | .error reject => c.append receiveTime (.reject reject)
  | .ok logon =>
    if logon.encryptMethod ≠ .none then
      c.append receiveTime (.reject
        { refSeqNum := header.msgSeqNum, refMsgType := some header.msgType
          text := "Encryption method not supported" })
    else if c.loggedIn then
      c.append receiveTime (.reject
        { refSeqNum := header.msgSeqNum, refMsgType := some header.msgType
          sessionRejectReason := some .invalidMsgType, text := "User is already logged in" })
    else
      let elapsing := elapsing maxTO logon.heartBtInt
      { c with loggedIn := true, userId := header.senderCompId, seqNum := header.msgSeqNum + 1
               info := { c.info with since := now, elapsing } }.append receiveTime (.logon elapsing)

/-- `LogoutHandler::onInput`. -/
def logout (c : HeartBeatClient) (receiveTime : Int) (parsed : Except SessionReject Unit) :
    HeartBeatClient :=
  match parsed with
  | .error reject => c.append receiveTime (.reject reject)
  | .ok () => { c with shouldDc := true }.append receiveTime .logout

end HeartBeatClient

/-- The clients, and the clock as last read. -/
structure HeartBeatHandler where
  maxTO : ℚ
  clock : Int
  client : Client → HeartBeatClient

namespace HeartBeatHandler

/-- A step about a client; a message comes with the time it was received and with what
`parseMessage` makes of it. -/
inductive Act
  /-- the callback given to `OnNewClient` -/
  | newClient
  | logon (receiveTime : Int) (header : Session.Header) (parsed : Except SessionReject Logon)
  | heartBeat (receiveTime : Int) (parsed : Except SessionReject (Option String))
  | testRequest (receiveTime : Int) (parsed : Except SessionReject (Option String))
  | logout (receiveTime : Int) (parsed : Except SessionReject Unit)
  | handle
  /-- another unit has the client removed -/
  | removed

def init (maxTO : ℚ) (clock : Int) : HeartBeatHandler := ⟨maxTO, clock, fun _ => {}⟩

def receiveTime : Act → Option Int
  | .logon t _ _ | .heartBeat t _ | .testRequest t _ | .logout t _ => some t
  | .newClient | .handle | .removed => none

/-- What a step at time `now` makes of its client. -/
def act (maxTO : ℚ) (c : HeartBeatClient) (now : Int) : Act → HeartBeatClient
  | .newClient => c.setSince now
  | .logon receiveTime header parsed => c.logon maxTO now receiveTime header parsed
  | .heartBeat receiveTime parsed => c.processHeartBeat receiveTime parsed
  | .testRequest receiveTime parsed => c.processTestRequest receiveTime parsed
  | .logout receiveTime parsed => c.logout receiveTime parsed
  | .handle => c.handle now
  | .removed => { c with userId := "", loggedIn := false, shouldDc := false, seqNum := 0 }

/-- A step at time `now`, no earlier than the last. -/
def step (s : HeartBeatHandler) : Int × Client × Act → Option HeartBeatHandler
  | (now, c, a) =>
    if s.clock ≤ now ∧ ∀ t ∈ receiveTime a, t ≤ now then
      some { s with
        clock := now
        client := Function.update s.client c (act s.maxTO (s.client c) now a) }
    else none

/-! ## Evictions -/

/-- A TestRequest with this id was sent at `t`, and no HeartBeat with its id processed since. -/
def Unanswered (c : HeartBeatClient) (t : Int) (id : String) : Prop :=
  ∃ before after, c.events = before ++ .append t (.testRequest id) :: after ∧
    .processed (some id) ∉ after

/-- A TestRequest sent more than the elapsing time before `now` is unanswered. -/
def Justified (c : HeartBeatClient) (now : Int) : Prop :=
  ∃ t id, Unanswered c t id ∧ now - t > seconds c.info.elapsing

/-- If this is a pass over `c`, a HeartBeat with the id of each TestRequest sent to it more than the
elapsing time ago has been processed since. -/
def InTime (c : Client) (s : HeartBeatHandler) : Int × Client × Act → Prop
  | (now, c', .handle) => c' = c → ∀ before t id after,
      (s.client c).events = before ++ .append t (.testRequest id) :: after →
      now - t > seconds (s.client c).info.elapsing → .processed (some id) ∈ after
  | _ => True

end HeartBeatHandler

end Fix42
