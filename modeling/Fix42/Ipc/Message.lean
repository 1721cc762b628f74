import Fix42.Core.Types
import Fix42.Ipc.Buffer

/-!
# The messages between the programs of the client suite

The structures of `ipc::msg` with their stream operators, the header, and what `ipc::Helper` builds.
`Message.encode` is the helper function of a structure and `decode` what a receiver does: it reads
the header, and then the structure its type stands for.
-/

namespace Fix42

namespace Ipc

open Net

/-! ## Enumerations in a byte -/

/-- The value of an enumerator: `first` is that of the first. -/
def enumByte {α : Type} [DecidableEq α] (first : Nat) (all : List α) (x : α) : Byte :=
  BitVec.ofNat 8 (first + all.idxOf x)

/-- `static_cast` to the enumeration; `none` is a value without an enumerator. -/
def enumOf {α : Type} (first : Nat) (all : List α) (b : Byte) : Option α :=
  if first ≤ b.toNat then all[b.toNat - first]? else none

inductive MessageType
  | reject | frontToInitiatorAuth | initiatorToFrontAuth | backToInitiatorAuth | initiatorToBackAuth
  | initiatorToFrontValidToken | frontToBackValidToken | backToFrontValidToken | handShakeAuth
  | status | logon | orderSingle | execNew | execEvent
  deriving DecidableEq

def MessageType.all : List MessageType :=
  [.reject, .frontToInitiatorAuth, .initiatorToFrontAuth, .backToInitiatorAuth,
    .initiatorToBackAuth, .initiatorToFrontValidToken, .frontToBackValidToken,
    .backToFrontValidToken, .handShakeAuth, .status, .logon, .orderSingle, .execNew, .execEvent]

inductive PUStatus
  | unknown | initialize' | running | stop
  deriving DecidableEq

def PUStatus.all : List PUStatus := [.unknown, .initialize', .running, .stop]

/-- The enumerators of `fix42::Side`, from `'1'`. -/
def sides : List Side :=
  [.buy, .sell, .buyMinus, .sellPlus, .sellShort, .sellShortExempt, .undisclosed, .cross, .crossShort]

/-! ## The header -/

structure Header where
  msgType : MessageType
  bodySize : BitVec 32
  deriving DecidableEq

/-- `sizeof(ipc::Header)`. -/
def Header.size : Nat := 5

def Header.put (b : Buffer) (h : Header) : Buffer :=
  Net.put (Net.put b (enumByte 0 MessageType.all h.msgType)) h.bodySize

def Header.extract : StateM Buffer (Option Header) := do
  let type : Byte ← Net.extract
  let bodySize : BitVec 32 ← Net.extract
  return (enumOf 0 MessageType.all type).map (⟨·, bodySize⟩)

/-! ## The structures -/

structure AuthFrontToInitiator where
  apikey : Bytes
  name : Bytes
  deriving DecidableEq

instance : Streamable AuthFrontToInitiator where
  put b auth := put (put b auth.apikey) auth.name
  extract := do
    let apikey ← extract
    let name ← extract
    return { apikey, name }

structure AuthInitiatorToFront where
  name : Bytes
  deriving DecidableEq

instance : Streamable AuthInitiatorToFront where
  put b auth := put b auth.name
  extract := do
    let name ← extract
    return { name }

structure AuthInitiatorToBack where
  token : Bytes
  apikey : Bytes
  deriving DecidableEq

instance : Streamable AuthInitiatorToBack where
  put b auth := put (put b auth.token) auth.apikey
  extract := do
    let token ← extract
    let apikey ← extract
    return { token, apikey }

structure AuthBackToInitiator where
  apikey : Bytes
  port : BitVec 32
  deriving DecidableEq

instance : Streamable AuthBackToInitiator where
  put b auth := put (put b auth.apikey) auth.port
  extract := do
    let apikey ← extract
    let port ← extract
    return { apikey, port }

structure InitiatorToFrontValidToken where
  token : Bytes
  port : BitVec 32
  deriving DecidableEq

instance : Streamable InitiatorToFrontValidToken where
  put b validation := put (put b validation.token) validation.port
  extract := do
    let token ← extract
    let port ← extract
    return { token, port }

structure FrontToBackValidToken where
  token : Bytes
  deriving DecidableEq

instance : Streamable FrontToBackValidToken where
  put b validation := put b validation.token
  extract := do
    let token ← extract
    return { token }

abbrev BackToFrontValidToken := FrontToBackValidToken

structure Reject where
  message : Bytes
  deriving DecidableEq

instance : Streamable Reject where
  put b reject := put b reject.message
  extract := do
    let message ← extract
    return { message }

structure Logon where
  userId : Bytes
  seqNum : BitVec 32
  heartBeat : BitVec 32
  deriving DecidableEq

instance : Streamable Logon where
  put b logon := put (put (put b logon.userId) logon.seqNum) logon.heartBeat
  extract := do
    let userId ← extract
    let seqNum ← extract
    let heartBeat ← extract
    return { userId, seqNum, heartBeat }

structure OrderSingle where
  symbol : Bytes
  orderId : Bytes
  price : Float32Bits
  quantity : Float32Bits
  type : Side
  deriving DecidableEq

def OrderSingle.put (b : Buffer) (order : OrderSingle) : Buffer :=
  Net.put (Net.put (Net.put (Net.put (Net.put b order.symbol) order.orderId) order.price)
    order.quantity) (enumByte '1'.toNat sides order.type)

/-- `none` where the side has no enumerator. -/
def OrderSingle.extract : StateM Buffer (Option OrderSingle) := do
  let symbol ← Net.extract
  let orderId ← Net.extract
  let price ← Net.extract
  let quantity ← Net.extract
  let type ← Net.extract
  return (enumOf '1'.toNat sides type).map ({ symbol, orderId, price, quantity, type := · })

structure Execution where
  symbol : Bytes
  orderId : Bytes
  execId : Bytes
  avgPrice : Float32Bits
  price : Float32Bits
  side : Side
  quantity : Float32Bits
  remainQty : Float32Bits
  deriving DecidableEq

def Execution.put (b : Buffer) (exec : Execution) : Buffer :=
  Net.put (Net.put (Net.put (Net.put (Net.put (Net.put (Net.put (Net.put b exec.symbol) exec.orderId)
    exec.execId) exec.avgPrice) exec.price) (enumByte '1'.toNat sides exec.side)) exec.quantity)
    exec.remainQty

def Execution.extract : StateM Buffer (Option Execution) := do
  let symbol ← Net.extract
  let orderId ← Net.extract
  let execId ← Net.extract
  let avgPrice ← Net.extract
  let price ← Net.extract
  let side ← Net.extract
  let quantity ← Net.extract
  let remainQty ← Net.extract
  return (enumOf '1'.toNat sides side).map
    ({ symbol, orderId, execId, avgPrice, price, side := ·, quantity, remainQty })

/-! ## `ipc::Helper` -/

namespace Helper

/-- A header with the body size `size`, cast to 32 bits, and the body. -/
def build (type : MessageType) (size : Nat) (body : Buffer → Buffer) : Buffer :=
  body (Header.put {} ⟨type, BitVec.ofNat 32 size⟩)

def authFrontToInitiator (auth : AuthFrontToInitiator) : Buffer :=
  build .frontToInitiatorAuth (4 * 2 + auth.apikey.length + auth.name.length) (put · auth)

def authInitiatorToFront (auth : AuthInitiatorToFront) : Buffer :=
  build .initiatorToFrontAuth (4 + auth.name.length) (put · auth)

def authBackToInitiator (auth : AuthBackToInitiator) : Buffer :=
  build .backToInitiatorAuth (4 * 2 + auth.apikey.length) (put · auth)

def authInitiatorToBack (auth : AuthInitiatorToBack) : Buffer :=
  build .initiatorToBackAuth (4 * 2 + auth.apikey.length + auth.token.length) (put · auth)

def authHandShake : Buffer := build .handShakeAuth 0 id

def validationTokenInitiatorToFront (validation : InitiatorToFrontValidToken) : Buffer :=
  build .initiatorToFrontValidToken (4 * 2 + validation.token.length) (put · validation)

def validationTokenFrontToBack (validation : FrontToBackValidToken) : Buffer :=
  build .frontToBackValidToken (4 + validation.token.length) (put · validation)

def validationTokenBackToFront (validation : BackToFrontValidToken) : Buffer :=
  build .backToFrontValidToken (4 + validation.token.length) (put · validation)

def reject (reject : Reject) : Buffer :=
  build .reject (4 + reject.message.length) (put · reject)

def status (status : PUStatus) : Buffer :=
  build .status 1 (put · (enumByte 0 PUStatus.all status))

def logon (logon : Logon) : Buffer :=
  build .logon (4 * 2 + logon.userId.length + 4) (put · logon)

def orderSingle (order : OrderSingle) : Buffer :=
  build .orderSingle (4 * 2 + order.symbol.length + order.orderId.length + 4 + 4 + 1) (order.put ·)

def executionEvent (exec : Execution) (type : MessageType) : Buffer :=
  build type (4 * 3 + exec.symbol.length + exec.orderId.length + exec.execId.length + 4 * 2 + 1 +
    4 * 2) (exec.put ·)

end Helper

/-! ## Messages -/

/-- A structure with the message type that stands for it. An execution is sent as one of two. -/
inductive Message
  | reject (reject : Reject)
  | frontToInitiatorAuth (auth : AuthFrontToInitiator)
  | initiatorToFrontAuth (auth : AuthInitiatorToFront)
  | backToInitiatorAuth (auth : AuthBackToInitiator)
  | initiatorToBackAuth (auth : AuthInitiatorToBack)
  | initiatorToFrontValidToken (validation : InitiatorToFrontValidToken)
  | frontToBackValidToken (validation : FrontToBackValidToken)
  | backToFrontValidToken (validation : BackToFrontValidToken)
  | handShakeAuth
  | status (status : PUStatus)
  | logon (logon : Logon)
  | orderSingle (order : OrderSingle)
  | execNew (exec : Execution)
  | execEvent (exec : Execution)
  deriving DecidableEq

namespace Message

def encode : Message → Buffer
  | .reject m => Helper.reject m
  | .frontToInitiatorAuth m => Helper.authFrontToInitiator m
  | .initiatorToFrontAuth m => Helper.authInitiatorToFront m
  | .backToInitiatorAuth m => Helper.authBackToInitiator m
  | .initiatorToBackAuth m => Helper.authInitiatorToBack m
  | .initiatorToFrontValidToken m => Helper.validationTokenInitiatorToFront m
  | .frontToBackValidToken m => Helper.validationTokenFrontToBack m
  | .backToFrontValidToken m => Helper.validationTokenBackToFront m
  | .handShakeAuth => Helper.authHandShake
  | .status m => Helper.status m
  | .logon m => Helper.logon m
  | .orderSingle m => Helper.orderSingle m
  | .execNew m => Helper.executionEvent m .execNew
  | .execEvent m => Helper.executionEvent m .execEvent

def strings : Message → List Bytes
  | .reject m => [m.message]
  | .frontToInitiatorAuth m => [m.apikey, m.name]
  | .initiatorToFrontAuth m => [m.name]
  | .backToInitiatorAuth m => [m.apikey]
  | .initiatorToBackAuth m => [m.token, m.apikey]
  | .initiatorToFrontValidToken m => [m.token]
  | .frontToBackValidToken m | .backToFrontValidToken m => [m.token]
  | .handShakeAuth | .status _ => []
  | .logon m => [m.userId]
  | .orderSingle m => [m.symbol, m.orderId]
  | .execNew m | .execEvent m => [m.symbol, m.orderId, m.execId]

/-- The bytes of the strings of a message. -/
def stringSize (m : Message) : Nat := (m.strings.map List.length).sum

end Message

/-- The structure a message type stands for. -/
def extractBody : MessageType → StateM Buffer (Option Message)
  | .reject => do return some (.reject (← extract))
  | .frontToInitiatorAuth => do return some (.frontToInitiatorAuth (← extract))
  | .initiatorToFrontAuth => do return some (.initiatorToFrontAuth (← extract))
  | .backToInitiatorAuth => do return some (.backToInitiatorAuth (← extract))
  | .initiatorToBackAuth => do return some (.initiatorToBackAuth (← extract))
  | .initiatorToFrontValidToken => do return some (.initiatorToFrontValidToken (← extract))
  | .frontToBackValidToken => do return some (.frontToBackValidToken (← extract))
  | .backToFrontValidToken => do return some (.backToFrontValidToken (← extract))
  | .handShakeAuth => return some .handShakeAuth
  | .status => do return (enumOf 0 PUStatus.all (← extract)).map .status
  | .logon => do return some (.logon (← extract))
  | .orderSingle => do return (← OrderSingle.extract).map .orderSingle
  | .execNew => do return (← Execution.extract).map .execNew
  | .execEvent => do return (← Execution.extract).map .execEvent

def decode : StateM Buffer (Option (Header × Message)) := do
  match ← Header.extract with
  | none => return none
  | some header => return (← extractBody header.msgType).map (header, ·)

/-- The receiver of the buffer `b` gets `m`: from the start, and with nothing left. -/
structure Received (b : Buffer) (m : Message) : Prop where
  decode : ∃ header, (decode b).1 = some (header, m)
  valid : (Ipc.decode b).2.valid = true
  consumed : (Ipc.decode b).2.read = b.data.length

/-- The header says how many bytes follow it. -/
def Sized (b : Buffer) : Prop :=
  ∃ header, (Header.extract b).1 = some header ∧
    header.bodySize.toNat = b.data.length - Header.size

end Ipc

end Fix42
