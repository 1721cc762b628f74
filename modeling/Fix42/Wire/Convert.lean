import Fix42.Core.Types
import Fix42.Wire.Output
import Fix42.Wire.Timestamp

/-!
# Field values

`from_FIX` and `to_FIX`, of every type that a field of the message definitions has, prices and quantities
(`float`) apart. What `from_FIX` leaves in its output when it fails is left out.

`Spells` is what a text stands for, and `Sendable` says of which values it is written so that it arrives.
-/

namespace Fix42

namespace Wire

/-! ## Enumerations of characters -/

/-- The enumerators from `first` on. -/
def consecutive {E : Type*} (first : UInt8) : List E → List (UInt8 × E)
  | [] => []
  | e :: es => (first, e) :: consecutive (first + 1) es

/-- An enumeration with the values of its enumerators, and what `from_FIX` says of others. -/
structure CharEnum (E : Type*) where
  cases : List (UInt8 × E)
  expected : String
  complete : ∀ e, e ∈ cases.map Prod.snd
  once : (cases.map Prod.fst).Nodup
  one_value : (cases.map Prod.snd).Nodup
  readable : (cases.all fun p => 1 < p.1 && p.1 ≠ equals) = true

namespace CharEnum

variable {E : Type*} [DecidableEq E]

def value (c : CharEnum E) (e : E) : UInt8 := ((c.cases.find? fun p => p.2 = e).map Prod.fst).getD 0

/-- The first character of a string is NUL if there is none. -/
def fromFix (c : CharEnum E) (value : Bytes) : Except RejectError E :=
  if 1 < value.length then .error { reason := .incorrectFormat, message := "Value to long" }
  else
    match c.cases.lookup (value.headD 0) with
    | some e => .ok e
    | none => .error { reason := .valueOORange, message := c.expected }

def toFix (c : CharEnum E) (e : E) : Bytes := [c.value e]

end CharEnum

inductive EncryptionMethod
  | none | pkcs | des | pkcsdes | pgpdes | pgpdesmd5 | pemdesmd5
  deriving DecidableEq

inductive HandleInstance
  | autoPrivate | autoPublic | manual
  deriving DecidableEq

def TransactionType.fix : CharEnum TransactionType where
  cases := consecutive 48 [.new, .cancel, .correct, .status]
  expected := "Expected: 0 GE value GE 3"
  complete e := by cases e <;> decide
  once := by decide
  one_value := by decide
  readable := by decide

def OrderStatus.fix : CharEnum OrderStatus where
  cases := consecutive 48 [.newOrder, .partiallyFilled, .filled, .doneForDay, .canceled, .replaced,
      .pendingCancel, .stopped, .rejected, .suspended] ++
    consecutive 65 [.pendingNew, .caluclated, .expired, .acceptedBiddingRestated, .pendingReplace]
  expected := "Expected: 0 GE value GE 9 || A GE value GE E"
  complete e := by cases e <;> decide
  once := by decide
  one_value := by decide
  readable := by decide

def OrderRejectReason.fix : CharEnum OrderRejectReason where
  cases := consecutive 48 [.brokerOption, .unknowSymbol, .exchangeClose, .orderExceedLimit, .tooLate,
    .unknownOrder, .duplicate, .duplicateVerbally, .staleOrder]
  expected := "Expected: 0 GE value GE 8"
  complete e := by cases e <;> decide
  once := by decide
  one_value := by decide
  readable := by decide

def Side.fix : CharEnum Side where
  cases := consecutive 49 [.buy, .sell, .buyMinus, .sellPlus, .sellShort, .sellShortExempt, .undisclosed,
    .cross, .crossShort]
  expected := "Expected: 1 GE value GE 9"
  complete e := by cases e <;> decide
  once := by decide
  one_value := by decide
  readable := by decide

def RejectReasonBusiness.fix : CharEnum RejectReasonBusiness where
  cases := consecutive 48 [.other, .unknownId, .unknownSecurity, .unsupportedMsgType, .appNotAvailable,
    .condReqFieldMissing]
  expected := "Expected: 0 GE value GE 5"
  complete e := by cases e <;> decide
  once := by decide
  one_value := by decide
  readable := by decide

def EncryptionMethod.fix : CharEnum EncryptionMethod where
  cases := consecutive 48 [.none, .pkcs, .des, .pkcsdes, .pgpdes, .pgpdesmd5, .pemdesmd5]
  expected := "Expected: 0 GE value GE 6"
  complete e := by cases e <;> decide
  once := by decide
  one_value := by decide
  readable := by decide

def HandleInstance.fix : CharEnum HandleInstance where
  cases := consecutive 49 [.autoPrivate, .autoPublic, .manual]
  expected := "Expected: 1 GE value GE 3"
  complete e := by cases e <;> decide
  once := by decide
  one_value := by decide
  readable := by decide

def OrderType.fix : CharEnum OrderType where
  cases := consecutive 49 [.market, .limit, .stop, .stopLimit, .marketOnClose, .withOrWithout,
      .limitOrBetter, .limitWithOrWithout, .onBasis] ++
    consecutive 65 [.onClose, .limitOnClose, .forexMarket, .prevQuoted, .prevIndicated, .forexLimit,
      .forexSwap, .forexPrevQuoted, .funari] ++
    consecutive 80 [.pegged]
  expected := "Expected: 1 GE value GE 9 || A GE value GE I || value EQ P"
  complete e := by cases e <;> decide
  once := by decide
  one_value := by decide
  readable := by decide

def CancelRejectResponseTo.fix : CharEnum CancelRejectResponseTo where
  cases := consecutive 49 [.cancelRequest, .replaceRequest]
  expected := "Expected: value EQ 1 OR 2"
  complete e := by cases e <;> decide
  once := by decide
  one_value := by decide
  readable := by decide

def CancelRejectReason.fix : CharEnum CancelRejectReason where
  cases := consecutive 48 [.tooLateCancel, .unknownOrderCancel, .brokerOptionCancel,
    .orderPendingCancelorReplace]
  expected := "Expected: 1 GE value GE 4"
  complete e := by cases e <;> decide
  once := by decide
  one_value := by decide
  readable := by decide

/-! ## Numbers -/

/-- `from_FIX` of an unsigned number of `w` bits. -/
def fromFixUInt (w : Nat) (name : String) (value : Bytes) : Except RejectError (BitVec w) :=
  let digits := value.takeWhile isDigit
  if digits = [] then .error { reason := .incorrectFormat, message := "Expected an " ++ name }
  else if 2 ^ w ≤ number digits then
    .error { reason := .valueOORange, message := "Value out of range of " ++ name }
  else if digits.length = value.length then .ok (BitVec.ofNat w (number digits))
  else .error { reason := .incorrectFormat, message := "Unknow error will parsing " ++ name }

inductive RejectReasonSession
  | invalidTagNum | requiredTagMissing | tagNotDefine | undefineTag | tagWithoutValue | valueOutOfRange
  | incorrectDataFormat | signatureProblem | compIDProblem | sendingTimeAccuracy | invalidMsgType
  deriving DecidableEq

namespace RejectReasonSession

def all : List RejectReasonSession :=
  [.invalidTagNum, .requiredTagMissing, .tagNotDefine, .undefineTag, .tagWithoutValue, .valueOutOfRange,
    .incorrectDataFormat, .signatureProblem, .compIDProblem, .sendingTimeAccuracy, .invalidMsgType]

def value (r : RejectReasonSession) : Nat := all.idxOf r + 1

def fromFix (value : Bytes) : Except RejectError RejectReasonSession := do
  let out ← fromFixUInt 8 "uint8_t" value
  match all.find? fun r => r.value = out.toNat with
  | some r => .ok r
  | none => .error { reason := .valueOORange, message := "Expected: 1 GE value GE 10" }

def toFix (r : RejectReasonSession) : Bytes := toChars r.value

end RejectReasonSession

/-! ## Characters -/

/-- `from_FIX` of a `char`. -/
def fromFixChar (value : Bytes) : Except RejectError UInt8 :=
  if 1 < value.length then .error { reason := .valueOORange, message := "Expected a char" }
  else .ok (value.headD 0)

/-! ## The types of a field -/

inductive EnumType
  | transactionType | orderStatus | orderRejectReason | side | rejectReasonBusiness | encryptionMethod
  | handleInstance | orderType | cancelRejectResponseTo | cancelRejectReason

namespace EnumType

def Val : EnumType → Type
  | transactionType => TransactionType
  | orderStatus => OrderStatus
  | orderRejectReason => OrderRejectReason
  | side => Side
  | rejectReasonBusiness => RejectReasonBusiness
  | encryptionMethod => EncryptionMethod
  | handleInstance => HandleInstance
  | orderType => OrderType
  | cancelRejectResponseTo => CancelRejectResponseTo
  | cancelRejectReason => CancelRejectReason

instance : (t : EnumType) → DecidableEq t.Val
  | transactionType => inferInstanceAs (DecidableEq TransactionType)
  | orderStatus => inferInstanceAs (DecidableEq OrderStatus)
  | orderRejectReason => inferInstanceAs (DecidableEq OrderRejectReason)
  | side => inferInstanceAs (DecidableEq Side)
  | rejectReasonBusiness => inferInstanceAs (DecidableEq RejectReasonBusiness)
  | encryptionMethod => inferInstanceAs (DecidableEq EncryptionMethod)
  | handleInstance => inferInstanceAs (DecidableEq HandleInstance)
  | orderType => inferInstanceAs (DecidableEq OrderType)
  | cancelRejectResponseTo => inferInstanceAs (DecidableEq CancelRejectResponseTo)
  | cancelRejectReason => inferInstanceAs (DecidableEq CancelRejectReason)

def fix : (t : EnumType) → CharEnum t.Val
  | transactionType => TransactionType.fix
  | orderStatus => OrderStatus.fix
  | orderRejectReason => OrderRejectReason.fix
  | side => Side.fix
  | rejectReasonBusiness => RejectReasonBusiness.fix
  | encryptionMethod => EncryptionMethod.fix
  | handleInstance => HandleInstance.fix
  | orderType => OrderType.fix
  | cancelRejectResponseTo => CancelRejectResponseTo.fix
  | cancelRejectReason => CancelRejectReason.fix

end EnumType

inductive FieldType
  | enum (t : EnumType)
  | rejectReasonSession
  | uint8 | uint16 | uint32
  | char | string | time

namespace FieldType

def Val : FieldType → Type
  | enum t => t.Val
  | rejectReasonSession => RejectReasonSession
  | uint8 => BitVec 8
  | uint16 => BitVec 16
  | uint32 => BitVec 32
  | char => UInt8
  | string => Bytes
  | time => Int

/-- The overloads of `from_FIX`; a local time is `offset` ahead. -/
def fromFix (offset : Int) : (t : FieldType) → Bytes → Except RejectError t.Val
  | enum t => t.fix.fromFix
  | rejectReasonSession => RejectReasonSession.fromFix
  | uint8 => fromFixUInt 8 "uint8_t"
  | uint16 => fromFixUInt 16 "uint16_t"
  | uint32 => fromFixUInt 32 "uint32_t"
  | char => fromFixChar
  | string => .ok
  | time => fromFixTime offset

/-- The overloads of `to_FIX`. -/
def toFix : (t : FieldType) → t.Val → Bytes
  | enum t, e => t.fix.toFix e
  | rejectReasonSession, r => r.toFix
  | uint8, n => toChars (BitVec.toNat (w := 8) n)
  | uint16, n => toChars (BitVec.toNat (w := 16) n)
  | uint32, n => toChars (BitVec.toNat (w := 32) n)
  | char, c => [c]
  | string, s => s
  | time, t => toFixTime t

end FieldType

/-- The digits of a number, with zeros in front. -/
def Numeral (s : Bytes) (n : Nat) : Prop := s ≠ [] ∧ s.all isDigit = true ∧ number s = n

namespace FieldType

/-- The texts of a value. -/
def Spells (offset : Int) : (t : FieldType) → Bytes → t.Val → Prop
  | enum t, s, e => s = [t.fix.value e]
  | rejectReasonSession, s, r => Numeral s (RejectReasonSession.value r)
  | uint8, s, n => Numeral s (BitVec.toNat (w := 8) n)
  | uint16, s, n => Numeral s (BitVec.toNat (w := 16) n)
  | uint32, s, n => Numeral s (BitVec.toNat (w := 32) n)
  | char, s, c => s = [c] ∨ s = [] ∧ c = (0 : UInt8)
  | string, s, v => s = v
  | time, s, t => ∃ stamp : Stamp, stamp.Fits ∧ stamp.text = s ∧ mktime offset stamp.tm = t ∧ t ≠ (-1 : Int)

/-- The values that arrive. -/
def Sendable (offset : Int) : (t : FieldType) → t.Val → Prop
  | char, c => c ≠ soh ∧ c ≠ equals
  | string, s => Clean s
  | time, t => offset = 0 ∧ t ≠ (-1 : Int) ∧ 0 ≤ 1900 + (gmtime t).year ∧ 1900 + (gmtime t).year < 10000
  | enum _, _ | rejectReasonSession, _ | uint8, _ | uint16, _ | uint32, _ => True

end FieldType

/-! ## Messages of typed fields -/

structure TypedField where
  tag : Nat
  type : FieldType
  value : type.Val
  not_header : tag ∉ headerTags

def TypedField.body (f : TypedField) : BodyField where
  tag := f.tag
  value := f.type.toFix f.value
  not_header := f.not_header

/-- The value of the field with a tag, if there is one. -/
def readField (offset : Int) (map : MapMessage) (tag : Nat) (t : FieldType) :
    Option (Except RejectError t.Val) :=
  (map.lookup (toChars tag)).map (t.fromFix offset)

end Wire

end Fix42
