import Fix42.Lib.Split
import Fix42.Wire.Message

/-!
# The input units

What the server and the client backend do with the bytes of a receive: `buildHeader` splits them at
the SOH bytes, inserts the pieces into the header and then into the map, and verifies the checksum.
The two are one algorithm; they differ in whose counter a reject quotes.
-/

namespace Fix42

namespace Wire

open Getline (split)

abbrev MapMessage := List (Bytes × Bytes)

structure SessionReject where
  refSeqNum : BitVec 32
  refMsgType : Option UInt8
  sessionRejectReason : Reason
  refTagId : Option Nat := none
  text : String
  deriving DecidableEq

/-- How a message ends that is not forwarded. -/
inductive Stop
  | reject (reject : SessionReject)
  | throw
  deriving DecidableEq

/-! ## Numbers -/

def isDigit (b : UInt8) : Bool := 48 ≤ b && b ≤ 57

/-- `from_FIX` of an `uint8_t`. -/
def fromFix (value : Bytes) : Except RejectError UInt8 :=
  let digits := value.takeWhile isDigit
  if digits = [] then .error { reason := .incorrectFormat, message := "Expected an uint8_t" }
  else if 255 < number digits then
    .error { reason := .valueOORange, message := "Value out of range of uint8_t" }
  else if digits.length = value.length then .ok (UInt8.ofNat (number digits))
  else .error { reason := .incorrectFormat, message := "Unknow error will parsing uint8_t" }

def isSpace (b : UInt8) : Bool := b = 32 || (9 ≤ b && b ≤ 13)

/-- `std::stoi`; `none` if it throws. -/
def stoi (s : Bytes) : Option Int :=
  let s := s.dropWhile isSpace
  let negative := s.head? = some 45
  let digits := (if negative || s.head? = some 43 then s.tail else s).takeWhile isDigit
  let n : Int := if negative then -number digits else number digits
  if digits = [] then none else if -2 ^ 31 ≤ n ∧ n < 2 ^ 31 then some n else none

/-! ## Checksum -/

/-- A `char`, which is signed, as an `uint32_t`. -/
def charValue (c : UInt8) : UInt32 := c.toInt8.toInt32.toUInt32

/-- `CountCheckSum` of a piece, the separator behind it included. -/
def countCheckSum (data : Bytes) : UInt32 := data.foldl (fun count c => count + charValue c) 0 + 1

def verifyCheckSum (checksum : UInt32) (map : MapMessage) : Except RejectError MapMessage :=
  let missing : RejectError :=
    { reason := .reqTagMissing, message := "Last tag should be CheckSum", tag := tag.checkSum }
  match map.getLast? with
  | none => .error missing
  | some (k, value) =>
    if k = ascii "10" then do
      let outChecksum ← fromFix value
      if outChecksum ≠ checksum.toUInt8 then
        .error { reason := .valueOORange, message := "Miss match on checksum", tag := tag.checkSum }
      else .ok map.dropLast
    else .error missing

/-! ## buildHeader -/

/-- The variables of `buildHeader`. -/
structure Parse (H : Type*) where
  header : H
  tagset : List (BitVec 16)
  map : MapMessage
  headerComplet : Bool
  checksum : UInt32
  lastChecksum : UInt32

variable {H : Type*}

def Parse.new (fix : FixHeader H) : Parse H :=
  { header := fix.init, tagset := [], map := [], headerComplet := false, checksum := 0,
    lastChecksum := 0 }

/-- `HeaderVerifyPresence`, after the header's own check. -/
def verifyHeader (fix : FixHeader H) (header : H) (tagset : List (BitVec 16)) :
    Option RejectError :=
  match fix.verify header with
  | some error => some error
  | none =>
    match [tag.senderCompId, tag.targetCompId, tag.msgSeqNum, tag.sendingTime].find? fun t =>
      BitVec.ofNat 16 t ∉ tagset with
    | some t => some { reason := .reqTagMissing, tag := t,
                       message := "Non positional required tag missing" }
    | none => none

/-- The number and the type a reject quotes; both depend on the number being there. -/
def quoted (fix : FixHeader H) (seqNum : BitVec 32) (s : Parse H) : BitVec 32 × Option UInt8 :=
  if BitVec.ofNat 16 tag.msgSeqNum ∈ s.tagset then
    (fix.msgSeqNum s.header, some (fix.msgType s.header))
  else (seqNum, none)

def buildRejectFromError (fix : FixHeader H) (seqNum : BitVec 32) (s : Parse H)
    (error : RejectError) : SessionReject :=
  { refSeqNum := (quoted fix seqNum s).1, refMsgType := (quoted fix seqNum s).2,
    sessionRejectReason := error.reason, refTagId := error.tag, text := error.message }

/-- The loop's body, on one piece. -/
def parsePiece (fix : FixHeader H) (seqNum : BitVec 32) (s : Parse H) (result : Bytes) :
    Except Stop (Parse H) :=
  let lastChecksum := countCheckSum result
  let s := { s with checksum := s.checksum + lastChecksum, lastChecksum }
  let reject (s : Parse H) (error : RejectError) : Except Stop (Parse H) :=
    .error (.reject (buildRejectFromError fix seqNum s error))
  match split equals result with
  | [k, v] =>
    if s.headerComplet then .ok { s with map := s.map ++ [(k, v)] }
    else
      match fix.tryInsert k v s.header with
      | (.error error, header) => reject { s with header } error
      | (.ok false, header) =>
        match verifyHeader fix header s.tagset with
        | some error => reject { s with header } error
        | none => .ok { s with header, headerComplet := true, map := s.map ++ [(k, v)] }
      | (.ok true, header) =>
        match stoi k with
        | none => .error .throw
        | some t => .ok { s with header, tagset := BitVec.ofInt 16 t :: s.tagset }
  | _ => reject s { reason := .undefineTag, message := "Unable to parse header key-value" }

/-- The loop. -/
def parse (fix : FixHeader H) (seqNum : BitVec 32) (pieces : List Bytes) (s : Parse H) :
    Except Stop (Parse H) :=
  pieces.foldlM (parsePiece fix seqNum) s

/-- `buildHeader`: the header and the map that are forwarded. -/
def buildHeader (fix : FixHeader H) (seqNum : BitVec 32) (data : Bytes) :
    Except Stop (H × MapMessage) := do
  let s ← parse fix seqNum (split soh data) (Parse.new fix)
  match verifyCheckSum (s.checksum - s.lastChecksum) s.map with
  | .error error => .error (.reject (buildRejectFromError fix seqNum s error))
  | .ok map => .ok (s.header, map)

/-- `TcpInputNetwork::buildHeader` of the client backend, whose counter is wider. -/
def Client.buildHeader (fix : FixHeader H) (seqNum : BitVec 64) (data : Bytes) :
    Except Stop (H × MapMessage) :=
  Wire.buildHeader fix (seqNum.setWidth 32) data

/-- `TCPInputNetwork::buildHeader` of the server. -/
def Server.buildHeader (fix : FixHeader H) (seqNum : BitVec 32) (data : Bytes) :
    Except Stop (H × MapMessage) :=
  Wire.buildHeader fix seqNum data

/-! ## The units -/

/-- The receives of a unit one after the other, each with the counter at that time; an exception ends
the unit. -/
def process {w : Nat} (build : BitVec w → Bytes → Except Stop (H × MapMessage)) :
    List (BitVec w × Bytes) → List (Except Stop (H × MapMessage))
  | [] => []
  | (seqNum, data) :: rest =>
    match build seqNum data with
    | .error .throw => [.error .throw]
    | out => out :: process build rest

/-- `TCPInputNetwork`. -/
def Server.input (fix : FixHeader H) :
    List (BitVec 32 × Bytes) → List (Except Stop (H × MapMessage)) :=
  process (Server.buildHeader fix)

/-- `TcpInputNetwork` of the client backend. -/
def Client.input (fix : FixHeader H) :
    List (BitVec 64 × Bytes) → List (Except Stop (H × MapMessage)) :=
  process (Client.buildHeader fix)

/-! ## Frames -/

/-- The most a socket gives in one receive. -/
def receiveSize : Nat := 2048

/-- A message that is accepted when it arrives alone in one receive. -/
structure Frame (fix : FixHeader H) where
  data : Bytes
  message : H × MapMessage
  closed : data.getLast? = some soh
  fits : data.length ≤ receiveSize
  accepted : ∃ seqNum, buildHeader fix seqNum data = .ok message

/-- A stream as it is received: in pieces that are not empty and fit into a receive. -/
def Receives (chunks : List Bytes) (stream : Bytes) : Prop :=
  chunks.flatten = stream ∧ ∀ chunk ∈ chunks, chunk ≠ [] ∧ chunk.length ≤ receiveSize

end Wire

end Fix42
