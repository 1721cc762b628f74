import Fix42.Guardian.Text
import Fix42.Lib.Utf8

/-!
# The client of the test tool

The receive loop of `FixClient`: what a read of the socket gives is decoded and appended to the buffer,
and a message ends with the SOH behind the first `SOH 10=` in it. A call of `Receive` is followed up to
the message it extracts.

`Yields` is what the calls are supposed to make of the bytes of frames.
-/

namespace Fix42

namespace Guardian

open Utf8 (decode encode utf16)

/-- `\u000110=`. -/
def trailer : Text := [soh, 49, 48, equals]

/-- `IndexOf` of a text, `StringComparison.Ordinal`. -/
def indexOf (pattern : Text) : Text → Option Nat
  | [] => if pattern = [] then some 0 else none
  | c :: s => if pattern.isPrefixOf (c :: s) then some 0 else (indexOf pattern s).map (· + 1)

/-- `IndexOf` of a character, from `start` on. -/
def indexOfChar (c : UInt16) (start : Nat) (s : Text) : Option Nat :=
  ((s.drop start).findIdx? (· = c)).map (start + ·)

/-- `TryExtractMessage`: the message and the buffer behind it. -/
def tryExtractMessage (buffer : Text) : Option (Text × Text) :=
  match indexOf trailer buffer with
  | none => none
  | some checksumIndex =>
    match indexOfChar soh (checksumIndex + 4) buffer with
    | none => none
    | some endIndex => some (buffer.take (endIndex + 1), buffer.drop (endIndex + 1))

/-- How a call of `Receive` ends, with the buffer and the reads that are left. -/
inductive Received
  | message (msg buffer : Text) (reads : List (List UInt8))
  /-- a read of no bytes: `Connection closed by server` -/
  | closed
  /-- waiting for the next read -/
  | waiting

/-- The loop of `Receive`, over what the reads give. -/
def receive (buffer : Text) : List (List UInt8) → Received
  | [] =>
    match tryExtractMessage buffer with
    | some (msg, buffer) => .message msg buffer []
    | none => .waiting
  | bytes :: reads =>
    match tryExtractMessage buffer with
    | some (msg, buffer) => .message msg buffer (bytes :: reads)
    | none => if bytes = [] then .closed else receive (buffer ++ decode bytes) reads

/-- The messages of `n` calls, with the buffer and the reads left after them; `none` if a call does not
come back with a message. -/
def receiveAll : Nat → Text → List (List UInt8) → Option (List Text × Text × List (List UInt8))
  | 0, buffer, reads => some ([], buffer, reads)
  | n + 1, buffer, reads =>
    match receive buffer reads with
    | .message msg buffer reads => (receiveAll n buffer reads).map fun r => (msg :: r.1, r.2)
    | .closed | .waiting => none

/-- A text that ends with its trailer and has no other. -/
def IsFrame (s : Text) : Prop :=
  ∃ body value, s = body ++ trailer ++ value ++ [soh] ∧ soh ∉ value ∧
    ∀ x y, s = x ++ trailer ++ y → x = body

/-- The calls give the frames in their order, and nothing is left. -/
def Yields (frames : List (List Char)) (reads : List (List UInt8)) : Prop :=
  receiveAll frames.length [] reads = some (frames.map utf16, [], [])

instance (frames : List (List Char)) (reads : List (List UInt8)) : Decidable (Yields frames reads) :=
  inferInstanceAs (Decidable (_ = _))

end Guardian

end Fix42
