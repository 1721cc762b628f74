import Mathlib.Algebra.BigOperators.Group.List.Defs
import Fix42.Guardian.FixHelper
import Fix42.Lib.Utf16
import Fix42.Wire.Output

/-!
# Checksums between the test tool and the server

`FixHelper.AddCheckSum` sums up the characters of a text and `Assert.ValidCheckSum` those of the pairs a
text is split into; the server sums up bytes. `Verified` is the server's check of what the tool sends,
`Passes` the tool's check of what the server sends.
-/

namespace Fix42

namespace Guardian

variable {Single : Type}

/-! ## The tool's checksums -/

/-- The sum of an `int` and a character, which wraps around. -/
def addChar (n : Int) (c : UInt16) : Int := (n + c.toNat).bmod (2 ^ 32)

def addArbitraryCheckSum (signs : Signs) (message : Text) (checksum : Int) : Text :=
  message ++ (text "10=" ++ (formatInt signs checksum ++ [soh]))

def addCheckSum (signs : Signs) (message : Text) : Text :=
  addArbitraryCheckSum signs message ((message.foldl addChar 0).tmod 256)

/-- What `ValidCheckSum` adds for a pair. -/
def addPair (checksum : UInt32) (p : UInt16 × Text) : UInt32 :=
  (digits p.1.toNat ++ p.2).foldl (fun checksum c => checksum + c.toUInt32) checksum + 62

def validCheckSum (signs : Signs) (mapmsg : MapMessage) : Except Exn Unit :=
  match mapmsg.getLast? with
  | none => .error .invalidOperation
  | some (k, v) =>
    if k ≠ 10 then .error (.assertion "Checksum tag invalid")
    else
      let checksum := mapmsg.dropLast.foldl addPair 0
      match parseUnsigned 32 signs v with
      | .error e => .error e
      | .ok n =>
        if n = (checksum % 256).toNat then .ok () else .error (.assertion "CheckSum value invalid")

/-! ## Agreement -/

/-- The server's `verifyCheckSum` accepts the sum over the pieces before the last, and a map that the
last piece ends. -/
def Verified (data : Wire.Bytes) : Prop :=
  ∃ pieces last k v map m, Getline.split Wire.soh data = pieces ++ [last] ∧
    Getline.split Wire.equals last = [k, v] ∧
    Wire.verifyCheckSum (pieces.map Wire.countCheckSum).sum (map ++ [(k, v)]) = .ok m

/-- The tool takes the bytes for a map with a valid checksum. -/
def Passes (culture : Culture Single) (data : Wire.Bytes) : Prop :=
  ∃ map, toMap culture (Utf8.decode data) = .ok map ∧ validCheckSum culture.signs map = .ok ()

def unitSum (s : Text) : Nat := (s.map UInt16.toNat).sum

def byteSum (data : Wire.Bytes) : Nat := (data.map UInt8.toNat).sum

/-- The sum over pairs, each with a `=` and a SOH. -/
def pairSum (pairs : MapMessage) : Nat :=
  (pairs.map fun p => unitSum (digits p.1.toNat ++ p.2) + 62).sum

/-- A text ends with a SOH, its sum is not negative as an `int` unless it shows as 0, and its characters
have the sum of its bytes. -/
structure SameSum (message : Text) : Prop where
  closed : message = [] ∨ message.getLast? = some soh
  sign : 0 ≤ (unitSum message : Int).bmod (2 ^ 32) ∨ unitSum message % 256 = 0
  sum : unitSum message % 256 = byteSum (Utf8.getBytes message) % 256

/-- Bytes are decoded to a map and perhaps some of a tag, and the pairs of the map have the sum of the
bytes. -/
def SameMapSum (culture : Culture Single) (data : Wire.Bytes) : Prop :=
  ∃ x r pairs, Utf8.decode data = x ++ r ∧ NoSeparator r ∧ toMap culture x = .ok pairs ∧
    toUInt16 culture.signs (r ++ text "10") = .ok 10 ∧ pairSum pairs % 256 = byteSum data % 256

end Guardian

end Fix42
