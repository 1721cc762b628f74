import Mathlib.Algebra.Order.Ring.Nat
import Fix42.Ipc.Buffer

/-!
# The stream operators, access by access

`net::Buffer` once more, with what `Ipc.Buffer` leaves out: `checkSize` adds in `size_t`, a read
copies the bytes at positions it names (`touched`) into a variable, and the variable keeps its value
where nothing is read. `BufferOp.runs` is a buffer's history; a `char *` is written as the string it
is.

Memory is that of a little-endian machine, on which `htons` and `htonl` reverse the bytes.
-/

namespace Fix42

namespace Net

/-- The sum of two `size_t`. -/
def sizeAdd (m n : Nat) : Nat := (m + n) % 2 ^ 64

namespace Buffer

/-- The new `m_valid`, which `checkSize` returns too. -/
def fits (b : Buffer) (size : Nat) : Bool :=
  b.valid && decide (sizeAdd b.read size ≤ b.data.length) && !decide (sizeAdd b.read size < b.read)

/-- The positions `size` bytes at the cursor are at. -/
def positions (b : Buffer) (size : Nat) : List Nat := List.range' b.read size

/-- `std::memcpy` from these positions. -/
def copy (b : Buffer) (size : Nat) : Bytes := (b.positions size).map fun i => b.data.getD i 0

/-- `m_read += size`. -/
def advance (b : Buffer) (size : Nat) : Buffer := { b with read := sizeAdd b.read size }

def clear (b : Buffer) : Buffer := { b.reset with data := [] }

@[simp] theorem length_copy (b : Buffer) (size : Nat) : (b.copy size).length = size := by
  simp [copy, positions]

end Buffer

/-! ## Variables -/

/-- The numbers with stream operators, signed and unsigned alike. -/
inductive NumericType
  | bits8 | bits16 | bits32 | float | double | longDouble
  deriving DecidableEq

/-- `sizeof`. -/
def NumericType.size : NumericType → Nat
  | .bits8 => 1
  | .bits16 => 2
  | .bits32 | .float => 4
  | .double => 8
  | .longDouble => 16

/-- `convert`, between memory and the stream. -/
def NumericType.convert (t : NumericType) (bytes : Bytes) : Bytes :=
  match t with
  | .bits8 | .bits16 | .bits32 => bytes.reverse
  | .float | .double | .longDouble => bytes

@[simp] theorem NumericType.length_convert (t : NumericType) (bytes : Bytes) :
    (t.convert bytes).length = bytes.length := by
  cases t <;> simp [convert]

@[simp] theorem NumericType.convert_convert (t : NumericType) (bytes : Bytes) :
    t.convert (t.convert bytes) = bytes := by
  cases t <;> simp [convert]

/-- A number, by its bytes in memory. -/
structure Number where
  type : NumericType
  bytes : Bytes
  size : bytes.length = type.size
  deriving DecidableEq

/-- What a variable holds. The enumerations are over `uint8_t`. -/
inductive Value
  | number (n : Number)
  | enumeration (e : Byte)
  | string (s : Bytes)
  deriving DecidableEq

/-- The type of a variable. -/
inductive VarType
  | number (t : NumericType)
  | enumeration
  | string
  deriving DecidableEq

def Value.type : Value → VarType
  | .number n => .number n.type
  | .enumeration _ => .enumeration
  | .string _ => .string

def Number.ofByte (e : Byte) : Number := ⟨.bits8, [e], rfl⟩

def Number.ofUInt32 (n : BitVec 32) : Number := ⟨.bits32, (bytes32 n).reverse, rfl⟩

/-- The number as an `uint32_t`. -/
def Number.toUInt32 (n : Number) : BitVec 32 := number32 n.bytes.reverse

/-- The number as an `uint8_t`. -/
def Number.toByte (n : Number) : Byte := n.bytes.headD 0

/-! ## Writing -/

/-- The bytes that are appended for a value. -/
def Value.encode : Value → Bytes
  | .number n => n.type.convert n.bytes
  | .enumeration e => [e]
  | .string s =>
    let length := BitVec.ofNat 32 s.length
    bytes32 length ++ s.take length.toNat

def Buffer.write (b : Buffer) (v : Value) : Buffer := b.append v.encode

/-! ## Reading -/

/-- A read: the variable it is into, with the value it has before. An enumeration is read into an
`uint8_t` of the operator, and the variable set from that. -/
inductive TypedRead
  | number (target : Number)
  | enumeration (local' : Byte)
  | string (target : Bytes)
  deriving DecidableEq

def TypedRead.type : TypedRead → VarType
  | .number n => .number n.type
  | .enumeration _ => .enumeration
  | .string _ => .string

/-- How a read leaves the buffer and the variable, what the check it stands on said, and the
positions of the bytes it touched. -/
structure ReadOutcome (α : Type) where
  buffer : Buffer
  value : α
  ok : Bool
  touched : List Nat

def ReadOutcome.map {α β : Type} (f : α → β) (o : ReadOutcome α) : ReadOutcome β :=
  ⟨o.buffer, f o.value, o.ok, o.touched⟩

/-- `operator>>(T &)`. -/
def Number.read (target : Number) (b : Buffer) : ReadOutcome Number :=
  let size := target.type.size
  let b := { b with valid := b.fits size }
  if b.valid then
    { buffer := b.advance size
      value := ⟨target.type, target.type.convert (b.copy size), by simp [size]⟩
      ok := true
      touched := b.positions size }
  else { buffer := b, value := target, ok := false, touched := [] }

/-- `operator>>(std::string &)`. -/
def readString (b : Buffer) : ReadOutcome Bytes :=
  let prefix' := (Number.ofUInt32 0).read b
  let length := prefix'.value.toUInt32.toNat
  let b := prefix'.buffer
  if 0 < length then
    let b := { b with valid := b.fits length }
    if b.valid then
      { buffer := b.advance length
        value := b.copy length
        ok := true
        touched := prefix'.touched ++ b.positions length }
    else { buffer := b, value := [], ok := false, touched := prefix'.touched }
  else { prefix' with value := [] }

def TypedRead.exec (b : Buffer) : TypedRead → ReadOutcome Value
  | .number target => (target.read b).map .number
  | .enumeration local' => ((Number.ofByte local').read b).map fun n => .enumeration n.toByte
  | .string _ => (readString b).map .string

/-- What the variable holds where nothing was read. -/
def TypedRead.unread : TypedRead → Value
  | .number target => .number target
  | .enumeration local' => .enumeration local'
  | .string _ => .string []

/-- The reads `rs` in order. -/
def Buffer.reads (b : Buffer) : List TypedRead → List (ReadOutcome Value)
  | [] => []
  | r :: rs => r.exec b :: (r.exec b).buffer.reads rs

/-! ## Histories -/

inductive BufferOp
  | append (bytes : Bytes)
  | write (v : Value)
  | read (r : TypedRead)
  | reset
  | clear
  deriving DecidableEq

namespace BufferOp

def run (b : Buffer) : BufferOp → Buffer
  | .append bytes => b.append bytes
  | .write v => b.write v
  | .read r => (r.exec b).buffer
  | .reset => b.reset
  | .clear => b.clear

def runs (b : Buffer) (ops : List BufferOp) : Buffer := ops.foldl run b

/-- The operation sets the cursor back. -/
def resets : BufferOp → Bool
  | .reset | .clear => true
  | .append _ | .write _ | .read _ => false

/-- No read of the history failed. -/
def NoneFailed (b : Buffer) : List BufferOp → Prop
  | [] => True
  | op :: ops => (∀ r, op = .read r → (r.exec b).ok = true) ∧ NoneFailed (run b op) ops

end BufferOp

/-! ## Reuse -/

/-- The length of a string is a number of its prefix. -/
def Value.Short : Value → Prop
  | .string s => s.length < 2 ^ 32
  | .number _ | .enumeration _ => True

instance : (v : Value) → Decidable v.Short
  | .string s => inferInstanceAs (Decidable (s.length < 2 ^ 32))
  | .number _ | .enumeration _ => isTrue trivial

/-- After `clear`, the values written are read back into variables of their types, each read a
success. -/
def Buffer.RoundTrips (b : Buffer) (values : List Value) : Prop :=
  ∀ rs : List TypedRead, rs.map TypedRead.type = values.map Value.type →
    ((values.foldl Buffer.write b.clear).reads rs).map (fun o => (o.value, o.ok)) =
      values.map (·, true)

/-- After `reset`, every sequence of reads gives what it gives on a new buffer with the bytes. -/
def Buffer.ReadsLikeNew (b : Buffer) : Prop :=
  ∀ rs : List TypedRead, (b.reset.reads rs).map (fun o => (o.value, o.ok)) =
    ((Buffer.append {} b.data).reads rs).map fun o => (o.value, o.ok)

end Net

end Fix42
