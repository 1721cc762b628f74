import Fix42.Wire.Input
import Fix42.Wire.Output

/-!
# Before the login

What the server answers to a message of a client that is not logged in, and what the client backend
answers to one that it cannot take apart: the input unit, the header validation and the router of the
server, and the input unit of the client. Each message arrives alone in one receive, and neither side
closes the connection.

`code` is the number of a reject's reason, which the message library defines.
-/

namespace Fix42

namespace Wire

variable {H : Type*}

namespace tag

def refSeqNum : Nat := 45
def text : Nat := 58
def refTagId : Nat := 371
def refMsgType : Nat := 372
def sessionRejectReason : Nat := 373

end tag

/-- The fields of a `SessionReject`; those that are not set are left out. -/
def SessionReject.fields (code : Reason → Nat) (r : SessionReject) : List Field :=
  [⟨tag.refSeqNum, toChars r.refSeqNum.toNat⟩] ++
    (r.refTagId.toList.map fun t => ⟨tag.refTagId, toChars t⟩) ++
    (r.refMsgType.toList.map fun c => ⟨tag.refMsgType, [c]⟩) ++
    [⟨tag.sessionRejectReason, toChars (code r.sessionRejectReason)⟩, ⟨tag.text, ascii r.text⟩]

/-- The entry of the output queue. -/
def SessionReject.queued (fix : FixHeader H) (code : Reason → Nat) (r : SessionReject) : Queued :=
  ⟨51, fix.toString (r.fields code)⟩

/-- What becomes of a message. -/
inductive Answer
  | reject (r : SessionReject)
  /-- it goes on to a unit behind the ones modelled here -/
  | goesOn
  /-- the unit ends with an exception -/
  | crash
  deriving DecidableEq

/-! ## The server -/

namespace Server

/-- `HeaderValidation::verifyPositionValue`. -/
def verifyPositionValue (fix : FixHeader H) (h : H) : Option SessionReject :=
  let reject (reason : Reason) (refTagId : Nat) (text : String) : SessionReject :=
    { refSeqNum := fix.msgSeqNum h, refMsgType := some (fix.msgType h), sessionRejectReason := reason,
      refTagId := some refTagId, text }
  if fix.value h (toChars tag.beginString) ≠ ascii "FIX.4.2" then
    some (reject .valueOORange tag.beginString "Incorrect begin string. Expected FIX.4.2")
  else if ["0", "1", "3", "5", "8", "j", "A", "D", "F"].any fun t =>
      fix.value h (toChars tag.msgType) = ascii t then none
  else some (reject (.other 11) tag.msgType "Not supported message type")

/-- `HeaderValidation::verifyUserSpecific`, of a client that is not logged in. -/
def verifyUserSpecific (fix : FixHeader H) (provider : Bytes) (h : H) : Option SessionReject :=
  if fix.value h (toChars tag.targetCompId) ≠ provider then
    some { refSeqNum := fix.msgSeqNum h, refMsgType := some (fix.msgType h),
           sessionRejectReason := .valueOORange, refTagId := some tag.targetCompId,
           text := "Incorrect target Id" }
  else none

/-- `Router::treatRequireLogin`. -/
def requireLogin (fix : FixHeader H) (h : H) : SessionReject :=
  { refSeqNum := fix.msgSeqNum h, refMsgType := none, sessionRejectReason := .valueOORange,
    refTagId := some tag.msgType, text := "Accesing login required features will not logged in" }

/-- The answer to a client that is not logged in; only a Logon goes on. -/
def answer (fix : FixHeader H) (provider : Bytes) (seqNum : BitVec 32) (data : Bytes) : Answer :=
  match Server.buildHeader fix seqNum data with
  | .error (.reject r) => .reject r
  | .error .throw => .crash
  | .ok (h, _) =>
    match (verifyPositionValue fix h).or (verifyUserSpecific fix provider h) with
    | some r => .reject r
    | none =>
      if fix.value h (toChars tag.msgType) = ascii "A" then .goesOn
      else .reject (requireLogin fix h)

end Server

/-- The answer of the client backend. -/
def Client.answer (fix : FixHeader H) (seqNum : BitVec 64) (data : Bytes) : Answer :=
  match Client.buildHeader fix seqNum data with
  | .error (.reject r) => .reject r
  | .error .throw => .crash
  | .ok _ => .goesOn

/-! ## The two of them -/

/-- The message that is on its way. -/
inductive Flight
  | toClient (data : Bytes)
  | toServer (data : Bytes)

/-- One message between a client that is not logged in and the server, and the counter of each. -/
structure Talk where
  flight : Flight
  client : BitVec 64
  server : BitVec 32

/-- What the two run with. -/
structure TalkConfig (H : Type*) where
  fix : FixHeader H
  code : Reason → Nat
  provider : Bytes
  /-- the user id the client sends as its own -/
  userId : Bytes

/-- The message arrives and is answered, or the talk is over. Before the login an output unit counts
twice for each message. -/
def Talk.step (cfg : TalkConfig H) (t : Talk) (time : SendingTime) : Option Talk :=
  match t.flight with
  | .toClient data =>
    match Client.answer cfg.fix t.client data with
    | .reject r =>
      let input := r.queued cfg.fix cfg.code
      let header := Client.header cfg.provider cfg.userId (t.client + 1) time input
      some { t with flight := .toServer (send cfg.fix header input), client := t.client + 2 }
    | .goesOn | .crash => none
  | .toServer data =>
    match Server.answer cfg.fix cfg.provider t.server data with
    | .reject r =>
      let input := r.queued cfg.fix cfg.code
      let header := Server.header cfg.provider [] (t.server + 1) time input
      some { t with flight := .toClient (send cfg.fix header input), server := t.server + 2 }
    | .goesOn | .crash => none

/-- As many messages as there are times. -/
def Talk.run (cfg : TalkConfig H) : Talk → List SendingTime → Option Talk
  | t, [] => some t
  | t, time :: times => (t.step cfg time).bind fun t => Talk.run cfg t times

end Wire

end Fix42
