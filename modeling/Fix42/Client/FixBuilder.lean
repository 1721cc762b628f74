import Fix42.Ipc.Message
import Fix42.Ipc.Stream

/-!
# From the front-end's frames to FIX messages

`FixBuilder` of the client backend: a frame that is taken off the queue is read into the unit's header,
which lives as long as the unit, and then into a structure made for it; the FIX message is built from
whatever the structure holds. `Uninitialized` is what lies in the variables of a call that nothing was
written to.

`Faithful` is what the unit is meant to do with a frame; `Exact` is the condition on the frame.
-/

namespace Fix42

open Ipc Net

namespace FixBuilder

/-- A frame: a header and a body. -/
structure FrontFrame where
  msgType : Byte
  bodySize : BitVec 32
  body : Bytes

/-- The frame as the unit gets it, the cursor at its start. -/
def FrontFrame.buffer (f : FrontFrame) : Buffer :=
  ⟨true, 0, f.msgType :: bytes32 f.bodySize ++ f.body⟩

/-- The variables of the unit and of one round of its loop that have no initial value. -/
structure Uninitialized where
  /-- the locals of the operators of the enumerations -/
  msgType : Byte
  side : Byte
  /-- the members of `ipc::msg::Logon` -/
  seqNum : BitVec 32
  heartBeat : BitVec 32
  /-- the members of `ipc::msg::OrderSingle` -/
  price : Float32Bits
  quantity : Float32Bits

inductive EncryptionMethod
  | none' | pkcs | des | pkcsdes | pgpdes | pgpdesmd5 | pemdesmd5
  deriving DecidableEq

inductive HandleInstance
  | autoPrivate | autoPublic | manual
  deriving DecidableEq

/-- What is pushed to `m_output`: the tags a message sets. -/
inductive FixMessage
  | logon (encryptMethod : EncryptionMethod) (heartBtInt : BitVec 32)
  | newOrderSingle (clOrdId : Bytes) (handlInst : HandleInstance) (orderQty : Float32Bits)
      (ordType : OrderType) (price : Float32Bits) (side : Byte) (symbol : Bytes)
  deriving DecidableEq

/-- The header of the unit. -/
structure UnitHeader where
  msgType : Byte
  bodySize : BitVec 32

/-- The id and the number of `User`. -/
structure User where
  userId : Bytes
  seqNum : BitVec 32

structure State where
  header : UnitHeader
  user : User

/-! ## Reading -/

def float (x : Float32Bits) : Number := ⟨.float, (bytes32 x.bits).reverse, rfl⟩

def toFloat (n : Number) : Float32Bits := ⟨number32 n.bytes.reverse⟩

/-- `buffer >> header`. -/
def readHeader (u : Uninitialized) (header : UnitHeader) (b : Buffer) : UnitHeader × Buffer :=
  let type := (Number.ofByte u.msgType).read b
  let size := (Number.ofUInt32 header.bodySize).read type.buffer
  (⟨type.value.toByte, size.value.toUInt32⟩, size.buffer)

/-- `_buffer >> ipc_logon`. -/
def readLogon (u : Uninitialized) (b : Buffer) : Logon :=
  let userId := readString b
  let seqNum := (Number.ofUInt32 u.seqNum).read userId.buffer
  let heartBeat := (Number.ofUInt32 u.heartBeat).read seqNum.buffer
  { userId := userId.value, seqNum := seqNum.value.toUInt32, heartBeat := heartBeat.value.toUInt32 }

/-- `ipc::msg::OrderSingle` as it is read, with whatever byte for its side. -/
structure ReadOrder where
  symbol : Bytes
  orderId : Bytes
  price : Float32Bits
  quantity : Float32Bits
  type : Byte

/-- `_buffer >> ipc_order`. -/
def readOrder (u : Uninitialized) (b : Buffer) : ReadOrder :=
  let symbol := readString b
  let orderId := readString symbol.buffer
  let price := (float u.price).read orderId.buffer
  let quantity := (float u.quantity).read price.buffer
  let type := (Number.ofByte u.side).read quantity.buffer
  { symbol := symbol.value, orderId := orderId.value, price := toFloat price.value
    quantity := toFloat quantity.value, type := type.value.toByte }

/-! ## Building -/

def buildLogon (logon : Logon) : FixMessage × User :=
  (.logon .none' (logon.heartBeat + 1), ⟨logon.userId, logon.seqNum⟩)

def buildOrderSingle (order : ReadOrder) : FixMessage :=
  .newOrderSingle order.orderId .manual order.quantity .limit order.price order.type order.symbol

/-- One round of the loop of `runtime`. -/
def step (u : Uninitialized) (s : State) (b : Buffer) : State × Option FixMessage :=
  let (header, b) := readHeader u s.header b
  let s := { s with header }
  if header.msgType = enumByte 0 MessageType.all .logon then
    let (message, user) := buildLogon (readLogon u b)
    ({ s with user }, some message)
  else if header.msgType = enumByte 0 MessageType.all .orderSingle then
    (s, some (buildOrderSingle (readOrder u b)))
  else (s, none)

/-- `runtime`: each frame with the message that was pushed for it. -/
def runtime (s : State) : List (Uninitialized × FrontFrame) → List (FrontFrame × Option FixMessage)
  | [] => []
  | (u, f) :: inputs =>
    let (s, message) := step u s f.buffer
    (f, message) :: runtime s inputs

/-! ## What a frame is worth -/

/-- The order with its side as a byte. -/
def readOf (order : OrderSingle) : ReadOrder :=
  { symbol := order.symbol, orderId := order.orderId, price := order.price
    quantity := order.quantity, type := enumByte '1'.toNat sides order.type }

/-- A message is built only from the encoding of a structure, and from its values. -/
def Faithful (f : FrontFrame) (message : Option FixMessage) : Prop :=
  ∀ m ∈ message,
    (∃ logon : Logon, f.msgType = enumByte 0 MessageType.all .logon ∧
      f.body = (put ({} : Buffer) logon).data ∧ m = (buildLogon logon).1) ∨
    ∃ order : OrderSingle, f.msgType = enumByte 0 MessageType.all .orderSingle ∧
      f.body = (order.put {}).data ∧ m = buildOrderSingle (readOf order)

/-- How many bytes the string at the front of `l` takes, by its length. -/
def stringSize (l : Bytes) : Nat := 4 + (number32 (l.take 4)).toNat

/-- The sizes of a logon or an order add up to the body's, and the side of an order is one. -/
structure Exact (f : FrontFrame) : Prop where
  logon : f.msgType = enumByte 0 MessageType.all .logon → f.body.length = stringSize f.body + 4 + 4
  order : f.msgType = enumByte 0 MessageType.all .orderSingle →
    f.body.length = stringSize f.body + stringSize (f.body.drop (stringSize f.body)) + 4 + 4 + 1 ∧
      ∃ side ∈ sides, f.body.getLast? = some (enumByte '1'.toNat sides side)

end FixBuilder

end Fix42
