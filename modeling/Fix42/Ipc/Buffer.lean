import Mathlib.Algebra.Order.Ring.Nat
import Mathlib.Logic.Basic
import Fix42.Lib.Reader

/-!
# `net::Buffer`

The buffer with its stream operators: `put` is `operator<<` and `extract` is `operator>>`, with an
instance for every type that has them. Numbers are written in network order, a `float` as it lies in
memory (least significant byte first), a string after its length. A value that is not there is read
as the default the source gives it, a number left without one as 0.
-/

namespace Fix42

abbrev Byte := BitVec 8

/-- A `std::string`. -/
abbrev Bytes := List Byte

namespace Net

structure Buffer where
  valid : Bool := true
  read : Nat := 0
  data : Bytes := []
  deriving DecidableEq

namespace Buffer

def append (b : Buffer) (bytes : Bytes) : Buffer := { b with data := b.data ++ bytes }

def reset (b : Buffer) : Buffer := { b with read := 0 }

/-- `checkSize`. -/
def checkSize (b : Buffer) (size : Nat) : Buffer :=
  { b with valid := b.valid && decide (b.read + size ≤ b.data.length) }

/-- Takes the next `size` bytes, if they are there. -/
def take (size : Nat) : StateM Buffer (Option Bytes) := fun b =>
  let b := b.checkSize size
  if b.valid then (some ((b.data.drop b.read).take size), { b with read := b.read + size })
  else (none, b)

end Buffer

/-- The two stream operators of a type. -/
class Streamable (α : Type) where
  put : Buffer → α → Buffer
  extract : StateM Buffer α

export Streamable (put extract)

instance : Streamable (BitVec 8) where
  put b n := b.append [n]
  extract := do
    match ← Buffer.take 1 with
    | some [n] => return n
    | _ => return 0

/-- `htonl` of a number, in memory. -/
def bytes32 (n : BitVec 32) : Bytes :=
  [BitVec.ofNat 8 (n.toNat / 2 ^ 24), BitVec.ofNat 8 (n.toNat / 2 ^ 16),
    BitVec.ofNat 8 (n.toNat / 2 ^ 8), BitVec.ofNat 8 n.toNat]

def number32 : Bytes → BitVec 32
  | [b3, b2, b1, b0] =>
    BitVec.ofNat 32 (b3.toNat * 2 ^ 24 + b2.toNat * 2 ^ 16 + b1.toNat * 2 ^ 8 + b0.toNat)
  | _ => 0

instance : Streamable (BitVec 32) where
  put b n := b.append (bytes32 n)
  extract := do
    match ← Buffer.take 4 with
    | some bytes => return number32 bytes
    | none => return 0

/-- A `float`, by its 32 bits. -/
structure Float32Bits where
  bits : BitVec 32
  deriving DecidableEq

instance : Streamable Float32Bits where
  put b x := b.append (bytes32 x.bits).reverse
  extract := do
    match ← Buffer.take 4 with
    | some bytes => return ⟨number32 bytes.reverse⟩
    | none => return ⟨0⟩

/-- The characters of a string. -/
def chars (length : Nat) : StateM Buffer Bytes :=
  if 0 < length then do
    match ← Buffer.take length with
    | some s => return s
    | none => return []
  else return []

instance : Streamable Bytes where
  put b s :=
    let length := BitVec.ofNat 32 s.length
    let b := put b length
    if 0 < length.toNat then b.append (s.take length.toNat) else b
  extract := do
    let length : BitVec 32 ← extract
    chars length.toNat

/-- A string as it is written. -/
def stringBytes (s : Bytes) : Bytes := bytes32 (BitVec.ofNat 32 s.length) ++ s

end Net

end Fix42
