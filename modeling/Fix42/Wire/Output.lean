import Fix42.Wire.Input

/-!
# The output units

What the server and the client backend send for a queued message: the header filled in, the body
behind it, and the checksum (`AddCheckSum`). The client swaps the two ids.
-/

namespace Fix42

namespace Wire

/-- A message of the output queue (`StringOutputQueue`). -/
structure Queued where
  msgType : UInt8
  message : Bytes

/-- The header filled for a message, with the counter and the time at which it is. -/
def fillHeader (senderCompId targetCompId : Bytes) (seqNum : BitVec 32) (time : SendingTime)
    (input : Queued) : Header :=
  { beginString := ascii "FIX.4.2", bodyLength := BitVec.ofNat 32 input.message.length,
    msgType := input.msgType, senderCompId, targetCompId, msgSeqNum := seqNum, sendingTime := time }

/-- The header `TcpOutputNetwork::onInput` of the server fills. -/
def Server.header (provider userId : Bytes) : BitVec 32 → SendingTime → Queued → Header :=
  fillHeader provider userId

/-- The header `TcpOutputNetwork::onInput` of the client backend fills. -/
def Client.header (provider userId : Bytes) (seqNum : BitVec 64) : SendingTime → Queued → Header :=
  fillHeader userId provider (seqNum.setWidth 32)

def checksum (msg : Bytes) : UInt32 := msg.foldl (fun checksum c => checksum + charValue c) 0

/-- `AddCheckSum`. -/
def addCheckSum (msg : Bytes) : Bytes :=
  msg ++ (ascii "10=" ++ toChars (checksum msg).toUInt8.toNat ++ [soh])

/-- The bytes given to the socket. -/
def send {H : Type*} (fix : FixHeader H) (header : Header) (input : Queued) : Bytes :=
  addCheckSum (fix.toString header.fields ++ input.message)

end Wire

end Fix42
