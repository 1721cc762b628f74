import Mathlib.Algebra.Group.Nat.Defs
import Mathlib.Logic.Basic

/-!
# One side of a session

The session counter of a connection with the units that stamp, count and check it, as the server
(`InternalClient`, a 32-bit counter) and the client backend (`User`, a 64-bit one) keep it: the
output pool, the header validation, the router and the logon handler, each with its queue. What the
other handlers do to a session is appending answers to the output queue (`Op.append`).

A message carries records of what happened to it, and a party counts what it did: `place`, `after`,
`seen`, `nth`, `checked` and `appended`, `counted`, `transmitted`, `received` are not in the source.
-/

namespace Fix42

namespace Session

/-- The fields of a header the session reads or sets. -/
structure Header where
  beginString : String
  msgType : Char
  msgSeqNum : BitVec 32
  senderCompId : String
  targetCompId : String
  deriving DecidableEq, Repr

inductive RejectReasonSession
  | valueOutOfRange | invalidMsgType
  deriving DecidableEq, Repr

structure SessionReject where
  refSeqNum : BitVec 32
  refTagId : Nat
  refMsgType : Char
  sessionRejectReason : RejectReasonSession
  text : String
  deriving DecidableEq, Repr

namespace tag

def beginString : Nat := 8
def msgSeqNum : Nat := 34
def msgType : Nat := 35
def senderCompId : Nat := 49
def targetCompId : Nat := 56

end tag

/-- A message with its records: its place in the sender's output queue, how many messages the sender
had counted and received when it was stamped, its place on the wire, and the user id and the counter
it was validated against. -/
structure Msg where
  header : Header
  place : Nat := 0
  after : Nat := 0
  seen : Nat := 0
  nth : Nat := 0
  checked : Option (String × Nat) := none
  deriving DecidableEq

/-- As many messages were counted before the message was stamped as were sent before it. -/
abbrev Msg.InTurn (msg : Msg) : Prop := msg.after + 1 = msg.nth

/-- An entry of the output queue. -/
structure Queued where
  msgType : Char
  place : Nat
  deriving DecidableEq

/-- A task of the output unit: taken by a thread, stamped with the counter, counted. -/
inductive Task
  | taken (q : Queued)
  | stamped (msg : Msg)
  | counted (msg : Msg)
  deriving DecidableEq

structure Party (w : Nat) where
  loggedIn : Bool
  userId : String
  seqNum : BitVec w
  output : List Queued
  pool : List Task
  validation : List Msg
  router : List Msg
  logon : List Msg
  handled : List (Msg × String)
  appended : Nat
  counted : Nat
  transmitted : Nat
  received : Nat
  deriving DecidableEq

/-- The configured provider name, and the size of the server's output pool. -/
structure Config where
  provider : String
  threads : Nat

namespace Party

variable {w : Nat}

def new (seqNum : BitVec w) : Party w :=
  { loggedIn := false, userId := "", seqNum, output := [], pool := [], validation := [],
    router := [], logon := [], handled := [], appended := 0, counted := 0, transmitted := 0,
    received := 0 }

def nextSeqNumber (p : Party w) : Party w := { p with seqNum := p.seqNum + 1 }

def setSeqNumber (p : Party w) (seqNum : BitVec w) : Party w := { p with seqNum }

def login (p : Party w) (userId : String) : Party w := { p with loggedIn := true, userId }

/-- `p` has counted a message of its own that the sender of `msg` had not received when it stamped
`msg`. -/
abbrev Crossed (p : Party w) (msg : Msg) : Prop := msg.seen < p.counted

/-- `p` has received a message after `msg`. -/
abbrev Late (p : Party w) (msg : Msg) : Prop := msg.nth < p.received

/-! ## Output -/

def append (p : Party w) (msgType : Char) : Party w :=
  { p with output := p.output ++ [⟨msgType, p.appended⟩], appended := p.appended + 1 }

/-- A thread of the output unit takes the next task; before the login the counter is advanced
twice. -/
def take (threads : Nat) (p : Party w) : Option (Party w) :=
  match p.output with
  | [] => none
  | q :: rest =>
    if p.pool.length < threads then
      let p := if p.loggedIn then p else p.nextSeqNumber
      some { p with output := rest, pool := p.pool ++ [.taken q] }
    else none

/-- The header is filled; `fill` sets the ids. -/
def stamp (fill : Party w → Header) (k : Nat) (p : Party w) : Option (Party w) :=
  match p.pool[k]? with
  | some (.taken q) =>
    let header := { fill p with
      beginString := "FIX.4.2", msgType := q.msgType, msgSeqNum := p.seqNum.setWidth 32 }
    let msg := { header, place := q.place, after := p.counted, seen := p.received }
    some { p with pool := p.pool.set k (.stamped msg) }
  | _ => none

def count (k : Nat) (p : Party w) : Option (Party w) :=
  match p.pool[k]? with
  | some (.stamped msg) =>
    some { p.nextSeqNumber with pool := p.pool.set k (.counted msg), counted := p.counted + 1 }
  | _ => none

/-- The message goes to the socket, and the task ends. -/
def transmit (k : Nat) (p : Party w) : Option (Party w × Msg) :=
  match p.pool[k]? with
  | some (.counted msg) =>
    some ({ p with pool := p.pool.eraseIdx k, transmitted := p.transmitted + 1 },
      { msg with nth := p.transmitted + 1 })
  | _ => none

/-! ## Input -/

/-- A receive of the input unit. -/
def receive (p : Party w) (msg : Msg) : Party w :=
  { p with
    seqNum := if p.loggedIn then p.nextSeqNumber.seqNum else p.seqNum
    validation := p.validation ++ [msg]
    received := p.received + 1 }

end Party

/-- `verifyPositionValue`; the two sides differ in the message types they support. -/
def verifyPositionValue (types : List Char) (header : Header) : Option SessionReject :=
  let reject refTagId sessionRejectReason text : Option SessionReject :=
    some { refSeqNum := header.msgSeqNum, refMsgType := header.msgType, refTagId,
           sessionRejectReason, text }
  if header.beginString ≠ "FIX.4.2" then
    reject tag.beginString .valueOutOfRange "Incorrect begin string. Expected FIX.4.2"
  else if header.msgType ∈ types then none
  else reject tag.msgType .invalidMsgType "Not supported message type"

/-- The rejects of `verifyUserSpecific`. -/
def userReject (header : Header) (refTagId : Nat) (text : String) : SessionReject :=
  { refSeqNum := header.msgSeqNum, refMsgType := header.msgType, refTagId,
    sessionRejectReason := .valueOutOfRange, text }

def seqNumReject (header : Header) : SessionReject :=
  userReject header tag.msgSeqNum "Inccorect message sequence number"

/-- `HeaderValidation::onInput` on the next message. -/
def Party.validate {w : Nat} (types : List Char)
    (verifyUserSpecific : Party w → Header → Option SessionReject) (p : Party w) :
    Option (Party w) :=
  match p.validation with
  | [] => none
  | msg :: rest =>
    let q := { p with validation := rest }
    match verifyPositionValue types msg.header with
    | some _ => some (q.append '3')
    | none =>
      match verifyUserSpecific p msg.header with
      | some _ => some (q.append '3')
      | none =>
        let checked := if p.loggedIn then some (p.userId, p.seqNum.toNat) else none
        some { q with router := p.router ++ [{ msg with checked }] }

/-- What a unit of either side does next. -/
inductive Op
  | append (msgType : Char)
  | take
  | stamp (k : Nat)
  | count (k : Nat)
  | transmit (k : Nat)
  | validate
  | route
  | logon (valid : Bool)
  deriving DecidableEq

/-! ## The server -/

namespace Server

def types : List Char := ['0', '1', '3', '5', '8', 'j', 'A', 'D', 'F']

def fill (provider : String) (p : Party 32) : Header :=
  ⟨"", '0', 0, provider, p.userId⟩

def verifyUserSpecific (provider : String) (p : Party 32) (header : Header) :
    Option SessionReject :=
  if header.targetCompId ≠ provider then
    some (userReject header tag.targetCompId "Incorrect target Id")
  else if p.loggedIn then
    if header.senderCompId ≠ p.userId then
      some (userReject header tag.senderCompId "Incorrect sender Id")
    else if header.msgSeqNum ≠ p.seqNum - 1 then some (seqNumReject header)
    else none
  else none

/-- The message types `Router::onInput` gives to a handler. -/
def handlerTypes : List Char := ['1', '0', '5', 'D', 'F']

/-- `Router::onInput` on the next message. -/
def route (p : Party 32) : Option (Party 32) :=
  match p.router with
  | [] => none
  | msg :: rest =>
    let q := { p with router := rest }
    if msg.header.msgType = 'A' then some { q with logon := p.logon ++ [msg] }
    else if p.loggedIn then
      if msg.header.msgType ∈ handlerTypes then
        some { q with handled := p.handled ++ [(msg, p.userId)] }
      else if msg.header.msgType = '3' then some q
      else some (q.append '3')
    else some (q.append '3')

/-- `LogonHandler::onInput` on the next message; `valid` says that its body parses and asks for no
encryption. -/
def logon (valid : Bool) (p : Party 32) : Option (Party 32) :=
  match p.logon with
  | [] => none
  | msg :: rest =>
    let q := { p with logon := rest }
    if !valid || p.loggedIn then some (q.append '3')
    else some (((q.login msg.header.senderCompId).setSeqNumber (msg.header.msgSeqNum + 1)).append 'A')

def run (cfg : Config) (p : Party 32) : Op → Option (Party 32 × Option Msg)
  | .append t => some (p.append t, none)
  | .take => (p.take cfg.threads).map (·, none)
  | .stamp k => (p.stamp (fill cfg.provider) k).map (·, none)
  | .count k => (p.count k).map (·, none)
  | .transmit k => (p.transmit k).map fun (p, msg) => (p, some msg)
  | .validate => (p.validate types (verifyUserSpecific cfg.provider)).map (·, none)
  | .route => (route p).map (·, none)
  | .logon valid => (logon valid p).map (·, none)

end Server

/-! ## The client -/

namespace Client

def types : List Char := ['0', '1', '3', '5', '8', 'j', 'A']

def fill (provider : String) (p : Party 64) : Header :=
  ⟨"", '0', 0, p.userId, provider⟩

/-- The two ids are looked at the other way round, and named in the reject as the server names
them. -/
def verifyUserSpecific (provider : String) (p : Party 64) (header : Header) :
    Option SessionReject :=
  if header.senderCompId ≠ provider then
    some (userReject header tag.targetCompId "Incorrect target Id")
  else if p.loggedIn then
    if header.targetCompId ≠ p.userId then
      some (userReject header tag.senderCompId "Incorrect sender Id")
    else if header.msgSeqNum.setWidth 64 ≠ p.seqNum - 1 then some (seqNumReject header)
    else none
  else none

/-- The message types `Router::onInput` treats or gives to a handler. -/
def handlerTypes : List Char := ['5', '0', '1', '8', 'j', '3']

def route (p : Party 64) : Option (Party 64) :=
  match p.router with
  | [] => none
  | msg :: rest =>
    let q := { p with router := rest }
    if msg.header.msgType = 'A' then some { q with logon := p.logon ++ [msg] }
    else if msg.header.msgType ∈ handlerTypes then
      some { q with handled := p.handled ++ [(msg, p.userId)] }
    else some (q.append '3')

/-- `AuthHandler::handleLogon` on the next message. -/
def logon (valid : Bool) (p : Party 64) : Option (Party 64) :=
  match p.logon with
  | [] => none
  | msg :: rest =>
    let q := { p with logon := rest }
    if valid then
      some ((q.setSeqNumber ((msg.header.msgSeqNum + 1).setWidth 64)).login msg.header.targetCompId)
    else some (q.append '3')

/-- `FixBuilder::buildLogon`, on the logon of a front-end. -/
def buildLogon (p : Party 64) (userId : String) (seqNum : BitVec 32) : Party 64 :=
  (({ p with userId }).setSeqNumber (seqNum.setWidth 64)).append 'A'

/-- The client's output unit has no pool: one thread. -/
def run (cfg : Config) (p : Party 64) : Op → Option (Party 64 × Option Msg)
  | .append t => some (p.append t, none)
  | .take => (p.take 1).map (·, none)
  | .stamp k => (p.stamp (fill cfg.provider) k).map (·, none)
  | .count k => (p.count k).map (·, none)
  | .transmit k => (p.transmit k).map fun (p, msg) => (p, some msg)
  | .validate => (p.validate types (verifyUserSpecific cfg.provider)).map (·, none)
  | .route => (route p).map (·, none)
  | .logon valid => (logon valid p).map (·, none)

end Client

end Session

end Fix42
