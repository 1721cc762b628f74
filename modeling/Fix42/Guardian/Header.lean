import Mathlib.Data.List.Sort
import Fix42.Guardian.FixHelper

/-!
# The header of the test tool

`Header.FromString` takes the header off the front of a list of pairs: the positional properties in
their order, then whatever pairs have a tag of the header. What it has taken is gone from the list and
set in the object, also when it throws.

`HeaderGrammar` is what the front of the list is supposed to be.
-/

namespace Fix42

namespace Guardian

variable {Single : Type} {c : MessageClass} (culture : Culture Single)

def header : MessageClass where
  name := "Header"
  properties :=
    [{ name := "BeginString", tagId := 8, kind := .string, positionalTag := some 1 },
      { name := "BodyLength", tagId := 9, kind := .uint, positionalTag := some 2 },
      { name := "MsgType", tagId := 35, kind := .char, positionalTag := some 3 },
      { name := "SenderCompId", tagId := 49, kind := .string },
      { name := "TargetCompId", tagId := 56, kind := .string },
      { name := "MsgSeqNum", tagId := 34, kind := .uint },
      { name := "SendingTime", tagId := 52, kind := .dateTime }]
  distinct := by decide +kernel

namespace MessageClass

variable (c : MessageClass)

/-- `GlobalProperty`: the positional properties first. -/
def globalProperty : List c.Index :=
  c.indices.insertionSort fun i j =>
    (c.property i).positionalTag.getD 255 ≤ (c.property j).positionalTag.getD 255

/-- `PositionalProperty`. -/
def positionalProperty : List c.Index :=
  c.globalProperty.filter fun i => (c.property i).positionalTag.isSome

/-- The property of a tag, in the order of `GlobalProperty`. -/
def findGlobal (tag : UInt16) : Option c.Index :=
  c.globalProperty.find? fun i => (c.property i).tagId = tag

end MessageClass

/-- A header that is being read, and what is left of the list. -/
structure HeaderReading (Single : Type) (c : MessageClass) where
  header : Object Single c
  mapmsg : MapMessage

/-- The loop over the positional properties. -/
def readPositional : List c.Index → HeaderReading Single c → HeaderReading Single c × Option Exn
  | [], s => (s, none)
  | i :: is, s =>
    match s.mapmsg with
    | [] => (s, some (.fixDecode s!"Missing positional {(c.property i).name}"))
    | (tag, raw) :: mapmsg =>
      if (c.property i).tagId ≠ tag then
        (s, some (.fixDecode s!"Incorrect position tag: '{(c.property i).tagId}' != '{tag}'"))
      else
        match convertValue culture raw (c.property i).kind with
        | .error e => (s, some e)
        | .ok none => (s, some (.fixDecode s!"Null value for property: {(c.property i).name}"))
        | .ok (some value) => readPositional is ⟨s.header.set i value, mapmsg⟩

/-- The loop over the tags that follow. -/
def readTags (tagset : List UInt16) (header : Object Single c) :
    MapMessage → HeaderReading Single c × Option Exn
  | [] => (⟨header, []⟩, none)
  | (tag, raw) :: mapmsg =>
    let s : HeaderReading Single c := ⟨header, (tag, raw) :: mapmsg⟩
    if tag ∈ tagset then (s, some (.fixDecode s!"Key already parsed: {tag}"))
    else
      match c.findGlobal tag with
      | none => (s, none)
      | some i =>
        match convertValue culture raw (c.property i).kind with
        | .error e => (s, some e)
        | .ok none => (s, some (.fixDecode s!"Null value for property: {(c.property i).name}"))
        | .ok (some value) => readTags (tag :: tagset) (header.set i value) mapmsg

/-- `Header.FromString`, on the properties of a class. -/
def readHeader (c : MessageClass) (mapmsg : MapMessage) : HeaderReading Single c × Option Exn :=
  match readPositional culture c.positionalProperty ⟨Object.new, mapmsg⟩ with
  | (s, some e) => (s, some e)
  | (s, none) =>
    match readTags culture [] s.header s.mapmsg with
    | (s, some e) => (s, some e)
    | (s, none) =>
      match verifyRequired s.header with
      | .error e => (s, some e)
      | .ok _ => (s, none)

/-- `Header.FromString`. -/
def Header.fromString (mapmsg : MapMessage) : HeaderReading Single header × Option Exn :=
  readHeader culture header mapmsg

/-! ## What is supposed to be there -/

def tags (mapmsg : MapMessage) : List UInt16 := mapmsg.map Prod.fst

/-- The pairs at the front whose tags are the header's. -/
def headerRun (mapmsg : MapMessage) : MapMessage :=
  mapmsg.takeWhile fun p => p.1 ∈ header.properties.map Property.tagId

/-- The value that a pair gives to a property of the header. -/
def Gives (p : UInt16 × Text) (i : header.Index)
    (value : Carrier Single (header.property i).kind) : Prop :=
  p.1 = (header.property i).tagId ∧ convertValue culture p.2 (header.property i).kind = .ok (some value)

/-- The list starts with a header: the positional tags, then tags of the header in any order, none
twice and none that is required missing, and each value is one of its property's type. -/
structure HeaderGrammar (mapmsg : MapMessage) : Prop where
  positional : (tags (headerRun mapmsg)).take 3 = [8, 9, 35]
  once : (tags (headerRun mapmsg)).Nodup
  required : ∀ i, (header.property i).optionalTag = false →
    (header.property i).tagId ∈ tags (headerRun mapmsg)
  converts : ∀ p ∈ headerRun mapmsg, ∃ i value, Gives culture p i value

/-- The header is read off the list if there is one, and nothing else is. -/
def ReadsHeader (mapmsg : MapMessage) : Prop :=
  let r := Header.fromString culture mapmsg
  (r.2 = none ↔ HeaderGrammar culture mapmsg) ∧
  (r.2 = none → mapmsg = headerRun mapmsg ++ r.1.mapmsg ∧
    ∀ i value, r.1.header i = some value ↔ ∃ p ∈ headerRun mapmsg, Gives culture p i value)

/-- The list starts with the three positional tags and goes on as a header does, but for a positional
tag that comes once more. -/
structure PositionalAgain (mapmsg : MapMessage) : Prop where
  positional : (tags (headerRun mapmsg)).take 3 = [8, 9, 35]
  again : ∃ t ∈ [8, 9, 35], t ∈ (tags (headerRun mapmsg)).drop 3
  once : ((tags (headerRun mapmsg)).drop 3).Nodup
  required : ∀ i, (header.property i).optionalTag = false →
    (header.property i).tagId ∈ tags (headerRun mapmsg)
  converts : ∀ p ∈ headerRun mapmsg, ∃ i value, Gives culture p i value

end Guardian

end Fix42
