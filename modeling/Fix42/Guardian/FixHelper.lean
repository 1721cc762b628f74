import Fix42.Wire.Timestamp
import Fix42.Guardian.Text

/-!
# `FixHelper`

The messages of the test tool, and how `FixHelper` writes and reads them by reflection: a message class
is its properties, an object gives a value or nothing to each of them. What depends on the culture of
the thread, and on how .NET writes and reads a `float`, is a `Culture`.

`Object.Plain` and `Object.Defined` are what the values of a message are supposed to be.
-/

namespace Fix42

namespace Guardian

def NoSeparator (s : Text) : Prop := soh ∉ s ∧ equals ∉ s

instance (s : Text) : Decidable (NoSeparator s) := inferInstanceAs (Decidable (_ ∧ _))

/-! ## Values -/

/-- A `DateTime`, to the second. -/
structure DateTime extends Wire.Stamp where
  real : toStamp.Real
  range : 1 ≤ year ∧ year < 10000
  deriving DecidableEq

/-- A constant of an enumeration, with the value of its `EnumMember` attribute. -/
structure EnumConstant where
  name : String
  value : Int
  member : Option String := none
  deriving DecidableEq

/-- The name by which `ConvertValue` finds it. -/
def EnumConstant.key (c : EnumConstant) : Text := text (c.member.getD c.name)

/-- An enumeration. Its constants differ, also in their keys, are no negative numbers, and the members'
values do not look like numbers. -/
structure EnumType where
  name : String
  constants : List EnumConstant
  values : (constants.map EnumConstant.value).Nodup
  keys : (constants.map fun c => c.key.map upper).Nodup
  range : ∀ c ∈ constants, 0 ≤ c.value ∧ c.value < 2 ^ 31
  members : ∀ c ∈ constants, ∀ s ∈ c.member, text s ≠ [] ∧ NoSeparator (text s) ∧
    ∀ x ∈ text s, isDigit x = false

/-- The type of a property, with the `?` taken off. -/
inductive Kind
  | string | char | uint | ushort | single | dateTime
  | enum (type : EnumType)

/-- The values of a type; a `float` is a parameter. -/
def Carrier (Single : Type) : Kind → Type
  | .string => Text
  | .char => UInt16
  | .uint => UInt32
  | .ushort => UInt16
  | .single => Single
  | .dateTime => DateTime
  | .enum _ => Int

variable {Single : Type}

/-- The current culture: its signs, the texts of a `float` and of a time (`yyyyMMdd-HH:mm:ss`), and
`Enum.Parse`. A `float` is read back from its text, which is not empty and free of separators. -/
structure Culture (Single : Type) where
  signs : Signs
  formatSingle : Single → Text
  parseSingle : Text → Except Exn Single
  formatDate : DateTime → Text
  parseEnum : EnumType → Text → Except Exn Int
  parse_format : ∀ x, parseSingle (formatSingle x) = .ok x
  plain_format : ∀ x, formatSingle x ≠ [] ∧ NoSeparator (formatSingle x)

variable (culture : Culture Single)

/-! ### Writing -/

/-- What the invariant culture writes. -/
def DateTime.text (t : DateTime) : Text := widen t.toStamp.text

def getEnumValue (type : EnumType) (value : Int) : Text :=
  match (type.constants.find? fun c => c.value = value).bind EnumConstant.member with
  | some s => if s = "" then formatInt culture.signs value else text s
  | none => formatInt culture.signs value

/-- The text of a value. -/
def format : (k : Kind) → Carrier Single k → Text
  | .string, s => s
  | .char, c => [c]
  | .uint, n => digits (UInt32.toNat n)
  | .ushort, n => digits (UInt16.toNat n)
  | .single, x => culture.formatSingle x
  | .dateTime, t => culture.formatDate t
  | .enum type, n => getEnumValue culture type n

/-! ### Reading -/

/-- `DateTime.ParseExact` in the invariant culture. -/
def parseExact (raw : Text) : Except Exn DateTime :=
  let s := raw.map UInt16.toUInt8
  if raw.any (128 ≤ ·) ∨ s.length ≠ 17 ∨ s[8]? ≠ some 45 ∨ s[11]? ≠ some 58 ∨ s[14]? ≠ some 58 then
    .error .format
  else
    match Wire.parseDigits 4 s 0, Wire.parseDigits 2 s 4, Wire.parseDigits 2 s 6,
      Wire.parseDigits 2 s 9, Wire.parseDigits 2 s 12, Wire.parseDigits 2 s 15 with
    | some year, some month, some day, some hour, some minute, some second =>
      let t : Wire.Stamp := { year, month, day, hour, minute, second }
      if h : t.Real ∧ 1 ≤ t.year ∧ t.year < 10000 then .ok ⟨t, h.1, h.2⟩ else .error .format
    | _, _, _, _, _, _ => .error .format

/-- The parser of a type. -/
def parse : (k : Kind) → Text → Except Exn (Carrier Single k)
  | .string, raw => .ok raw
  | .char, raw => .ok (raw.headD 0)
  | .uint, raw => (parseUnsigned 32 .invariant raw).map UInt32.ofNat
  | .ushort, raw => (parseUnsigned 16 .invariant raw).map UInt16.ofNat
  | .single, raw => culture.parseSingle raw
  | .dateTime, raw => parseExact raw
  | .enum type, raw =>
    match tryParseInt culture.signs raw with
    | some n => .ok n
    | none =>
      match type.constants.find? fun c => c.key.map upper = raw.map upper with
      | some c => .ok c.value
      | none => culture.parseEnum type raw

def Kind.isString : Kind → Bool
  | .string => true
  | _ => false

/-- `ConvertValue`; `none` is a null. -/
def convertValue (raw : Text) (k : Kind) : Except Exn (Option (Carrier Single k)) :=
  if raw = [] ∧ ¬ k.isString then .ok none else (parse culture k raw).map some

/-! ## Messages -/

/-- A property with its attributes. -/
structure Property where
  name : String
  tagId : UInt16
  kind : Kind
  optionalTag : Bool := false
  positionalTag : Option UInt8 := none

/-- A class whose properties have different tags. -/
structure MessageClass where
  name : String
  properties : List Property
  distinct : (properties.map Property.tagId).Nodup

namespace MessageClass

variable (c : MessageClass)

abbrev Index := Fin c.properties.length

def property (i : c.Index) : Property := c.properties.get i

def indices : List c.Index := List.finRange _

/-- The property of a tag. -/
def find (tag : UInt16) : Option c.Index := c.indices.find? fun i => (c.property i).tagId = tag

end MessageClass

/-- The values of an object's properties. -/
def Object (Single : Type) (c : MessageClass) : Type :=
  (i : c.Index) → Option (Carrier Single (c.property i).kind)

namespace Object

variable {c : MessageClass}

/-- `new`, and `Clear`. -/
def new : Object Single c := fun _ => none

/-- `SetValue`. -/
def set (m : Object Single c) (i : c.Index) (value : Carrier Single (c.property i).kind) :
    Object Single c := Function.update m i (some value)

/-- The first property that is null and has to be there. -/
def missing (m : Object Single c) : Option c.Index :=
  c.indices.find? fun i => (m i).isNone && !(c.property i).optionalTag

end Object

inductive NullHandlingStrategy
  | none' | allowNull | nullAsEmpty | nullAsFullyEmpty
  deriving DecidableEq

/-- `tag=value` and a SOH. -/
def field (tag : UInt16) (value : Text) : Text := digits tag.toNat ++ equals :: (value ++ [soh])

variable {c : MessageClass}

/-- What `ToString` adds for a property. -/
def encode (strategy : NullHandlingStrategy) (m : Object Single c) (i : c.Index) : Except Exn Text :=
  match m i with
  | some value => .ok (field (c.property i).tagId (format culture _ value))
  | none =>
    if (c.property i).optionalTag then .ok []
    else match strategy with
      | .none' => .error (.fixEncode "Null value for property" (c.property i).tagId.toNat)
      | .nullAsEmpty => .ok (field (c.property i).tagId [])
      | .nullAsFullyEmpty => .ok [soh]
      | .allowNull => .ok []

/-- `ToString`. -/
def toString (strategy : NullHandlingStrategy) (m : Object Single c) : Except Exn Text :=
  (c.indices.mapM (encode culture strategy m)).map List.flatten

abbrev MapMessage := List (UInt16 × Text)

/-- The pair of a field. -/
def toPair (field : Text) : Except Exn (UInt16 × Text) :=
  match field.splitOn equals with
  | [k, v] => (toUInt16 culture.signs k).map (·, v)
  | _ => .error (.fixDecode "Message contain multiple '=' in a single field")

/-- `ToMap`. -/
def toMap (msg : Text) : Except Exn MapMessage :=
  let fields := msg.splitOn soh
  if fields.getLast? ≠ some [] then .error (.fixDecode "Message trailing is not empty")
  else if fields.dropLast.any (·.all isWhiteSpace) then
    .error (.fixDecode "Message split with empty value")
  else fields.dropLast.mapM (toPair culture)

/-- The loop of `FromString`. -/
def setAll (m : Object Single c) : MapMessage → Except Exn (Object Single c)
  | [] => .ok m
  | (tag, raw) :: mapmsg =>
    match c.find tag with
    | none => .error (.fixDecode s!"Undefined tag in message {c.name}: '{tag}'")
    | some i =>
      match convertValue culture raw (c.property i).kind with
      | .error e => .error e
      | .ok none => .error (.fixDecode "")
      | .ok (some value) => setAll (m.set i value) mapmsg

/-- The last loop of `FromString`. -/
def verifyRequired (m : Object Single c) : Except Exn (Object Single c) :=
  match m.missing with
  | some i =>
    .error (.fixDecode s!"Missing required tag: {(c.property i).name} ({(c.property i).tagId})")
  | none => .ok m

def fromString (c : MessageClass) (mapmsg : MapMessage) : Except Exn (Object Single c) :=
  (setAll culture Object.new mapmsg).bind verifyRequired

/-! ## What a message holds -/

/-- A string or a character is free of separators. -/
def Plain : (k : Kind) → Carrier Single k → Prop
  | .string, s => NoSeparator s
  | .char, x => NoSeparator [x]
  | _, _ => True

/-- An enumeration has one of its constants. -/
def Defined : (k : Kind) → Carrier Single k → Prop
  | .enum type, n => ∃ x ∈ type.constants, x.value = n
  | _, _ => True

/-- A date is written as the invariant culture does. -/
def DateInvariant : (k : Kind) → Carrier Single k → Prop
  | .dateTime, t => culture.formatDate t = DateTime.text t
  | _, _ => True

/-- Something holds of each value of an object. -/
def Object.Each (p : (k : Kind) → Carrier Single k → Prop) (m : Object Single c) : Prop :=
  ∀ i, ∀ value ∈ m i, p _ value

end Guardian

end Fix42
