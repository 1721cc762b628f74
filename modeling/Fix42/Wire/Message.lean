import Mathlib.Algebra.Group.Int.Defs
import Mathlib.Data.List.Basic
import Mathlib.Data.UInt

/-!
# Bytes and fields

Messages as they are sent: fields `tag=value`, each closed by a SOH byte. `FixHeader` stands for the
header type of the message library (`fix::Header`), which is not part of the repository, and `Lawful`
for what its documentation promises: it is rendered field by field, takes the fields it rendered,
and tells the first tag of the body from its own.
-/

namespace Fix42

namespace Wire

abbrev Bytes := List UInt8

def soh : UInt8 := 1

/-- The character `=`. -/
def equals : UInt8 := 61

/-- `std::to_chars` of an unsigned number. -/
def toChars (n : Nat) : Bytes := (Nat.toDigits 10 n).map fun c => UInt8.ofNat c.toNat

/-- The number a row of digits stands for. -/
def number (digits : Bytes) : Nat := digits.foldl (fun n d => 10 * n + (d.toNat - 48)) 0

/-- The characters of a constant text. -/
def ascii (s : String) : Bytes := s.toList.map fun c => UInt8.ofNat c.toNat

/-- A value that a reader of `tag=value` pieces takes for what it is. -/
def Clean (value : Bytes) : Prop := value ≠ [] ∧ soh ∉ value ∧ equals ∉ value

instance (value : Bytes) : Decidable (Clean value) := inferInstanceAs (Decidable (_ ∧ _))

structure Field where
  tag : Nat
  value : Bytes
  deriving DecidableEq

def Field.render (f : Field) : Bytes := toChars f.tag ++ equals :: (f.value ++ [soh])

/-- The pair a reader makes of a field. -/
def Field.pair (f : Field) : Bytes × Bytes := (toChars f.tag, f.value)

namespace tag

def beginString : Nat := 8
def bodyLength : Nat := 9
def checkSum : Nat := 10
def msgSeqNum : Nat := 34
def msgType : Nat := 35
def senderCompId : Nat := 49
def sendingTime : Nat := 52
def targetCompId : Nat := 56

end tag

/-! ## Header -/

/-- A broken-down time (`std::tm`). -/
structure SendingTime where
  year : Nat
  month : Fin 13
  day : Fin 32
  hour : Fin 24
  minute : Fin 60
  second : Fin 61

/-- New Year of 2025, for the runs on fixed input. -/
def midnight : SendingTime := ⟨2025, 1, 1, 0, 0, 0⟩

/-- The character of a digit. -/
def digit (n : Nat) : UInt8 := UInt8.ofNat (48 + n)

def SendingTime.toFix (t : SendingTime) : Bytes :=
  let two (n : Nat) : Bytes := [digit (n / 10), digit (n % 10)]
  [digit (t.year / 1000 % 10), digit (t.year / 100 % 10), digit (t.year / 10 % 10),
    digit (t.year % 10)] ++ two t.month ++ two t.day ++ [45] ++ two t.hour ++ [58] ++
    two t.minute ++ [58] ++ two t.second

structure Header where
  beginString : Bytes
  bodyLength : BitVec 32
  msgType : UInt8
  senderCompId : Bytes
  targetCompId : Bytes
  msgSeqNum : BitVec 32
  sendingTime : SendingTime

/-- The fields in the order of the header's definition. -/
def Header.fields (h : Header) : List Field :=
  [⟨tag.beginString, h.beginString⟩, ⟨tag.bodyLength, toChars h.bodyLength.toNat⟩,
    ⟨tag.msgType, [h.msgType]⟩, ⟨tag.senderCompId, h.senderCompId⟩,
    ⟨tag.targetCompId, h.targetCompId⟩, ⟨tag.msgSeqNum, toChars h.msgSeqNum.toNat⟩,
    ⟨tag.sendingTime, h.sendingTime.toFix⟩]

def headerTags : List Nat :=
  [tag.beginString, tag.bodyLength, tag.msgType, tag.senderCompId, tag.targetCompId, tag.msgSeqNum,
    tag.sendingTime]

/-- A field of a body; the message definitions have no tag of the header. -/
structure BodyField extends Field where
  not_header : tag ∉ headerTags

/-! ## The message library -/

inductive Reason
  | reqTagMissing | valueOORange | incorrectFormat | undefineTag | other (n : Nat)
  deriving DecidableEq

/-- `fix::RejectError`. -/
structure RejectError where
  reason : Reason
  message : String
  tag : Option Nat := none
  deriving DecidableEq

/-- `fix::Header` with the definition of `fix42::Header`, and the rendering of a message. -/
structure FixHeader (H : Type*) where
  init : H
  tryInsert : Bytes → Bytes → H → Except RejectError Bool × H
  verify : H → Option RejectError
  value : H → Bytes → Bytes
  msgSeqNum : H → BitVec 32
  msgType : H → UInt8
  toString : List Field → Bytes

namespace FixHeader

variable {H : Type*}

/-- The header after all fields were taken. -/
def insertAll (fix : FixHeader H) : List Field → H → Option H
  | [], h => some h
  | f :: fs, h => match fix.tryInsert (toChars f.tag) f.value h with
    | (.ok true, h') => fix.insertAll fs h'
    | _ => none

/-- A tag that is not of the header is reported, whatever its value. -/
def Reports (fix : FixHeader H) : Prop :=
  ∀ k, k ∉ headerTags.map toChars → ∀ value h, fix.tryInsert k value h = (.ok false, h)

structure Lawful (fix : FixHeader H) : Prop where
  render : ∀ fields, fix.toString fields = fields.flatMap Field.render
  reports : fix.Reports
  takes : ∀ header : Header, (∀ f ∈ header.fields, Clean f.value) →
    ∃ h, fix.insertAll header.fields fix.init = some h ∧ fix.verify h = none
  value_init : ∀ k, fix.value fix.init k = []
  value_insert : ∀ k v h h', fix.tryInsert k v h = (.ok true, h') →
    ∀ k', fix.value h' k' = if k' = k then v else fix.value h k'
  value_report : ∀ k v h h', fix.tryInsert k v h = (.ok false, h') →
    ∀ k', fix.value h' k' = fix.value h k'

/-- A header that keeps what it takes in a table. -/
def table : FixHeader (List (Bytes × Bytes)) where
  init := []
  tryInsert k v h := if k ∈ headerTags.map toChars then (.ok true, (k, v) :: h) else (.ok false, h)
  verify _ := none
  value h k := (h.lookup k).getD []
  msgSeqNum h := BitVec.ofNat 32 (number ((h.lookup (toChars tag.msgSeqNum)).getD []))
  msgType h := ((h.lookup (toChars tag.msgType)).getD []).headD 0
  toString fields := fields.flatMap Field.render

end FixHeader

end Wire

end Fix42
