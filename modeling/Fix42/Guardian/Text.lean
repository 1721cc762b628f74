import Fix42.Wire.Message

/-!
# Texts of the test tool

A `string` of .NET is a list of UTF-16 code units, and numbers are read off it as `NumberStyles.Integer`
says: white space, a sign of the culture, digits, white space again and null characters.
-/

namespace Fix42

namespace Guardian

abbrev Text := List UInt16

def soh : UInt16 := 1

/-- The character `=`. -/
def equals : UInt16 := 61

/-- ASCII bytes as characters. -/
def widen (s : Wire.Bytes) : Text := s.map UInt8.toUInt16

/-- The characters of a constant text. -/
def text (s : String) : Text := widen (Wire.ascii s)

/-- The digits of a number. -/
def digits (n : Nat) : Text := widen (Wire.toChars n)

/-- What is thrown. -/
inductive Exn
  | fixDecode (message : String)
  | fixEncode (message : String) (refTagId : Nat)
  /-- `FormatException` -/
  | format
  /-- `OverflowException` -/
  | overflow
  /-- `ArgumentException` -/
  | argument
  /-- `InvalidOperationException` -/
  | invalidOperation
  /-- `AssertionException` -/
  | assertion (message : String)
  /-- `Exception` -/
  | other (message : String)
  deriving DecidableEq

/-! ## Characters -/

def isDigit (c : UInt16) : Bool := 48 ≤ c && c ≤ 57

/-- White space around a number. -/
def isWhite (c : UInt16) : Bool := c = 32 || (9 ≤ c && c ≤ 13)

/-- `char.IsWhiteSpace`. -/
def isWhiteSpace (c : UInt16) : Bool :=
  isWhite c || c = 0x85 || c = 0xA0 || c = 0x1680 || (0x2000 ≤ c && c ≤ 0x200A) || c = 0x2028 ||
    c = 0x2029 || c = 0x202F || c = 0x205F || c = 0x3000

/-- A letter in upper case, as `OrdinalIgnoreCase` compares ASCII texts. -/
def upper (c : UInt16) : UInt16 := if 97 ≤ c ∧ c ≤ 122 then c - 32 else c

/-! ## Numbers -/

/-- The number a row of digits stands for. -/
def number (digits : Text) : Nat := digits.foldl (fun n d => 10 * n + (d.toNat - 48)) 0

/-- The signs of a culture, which do not start with a digit; there is a minus sign. -/
structure Signs where
  positive : Text
  negative : Text
  /-- `AllowHyphenDuringParsing` -/
  hyphen : Bool
  noDigit : ∀ c ∈ positive.head?.toList ++ negative.head?.toList, isDigit c = false
  minus : negative ≠ []
  plain : soh ∉ negative ∧ equals ∉ negative

theorem noDigit_of_any {s : Text} (h : s.any isDigit = false) : ∀ c ∈ s, isDigit c = false :=
  fun c hc => Bool.eq_false_iff.2 (List.any_eq_false.1 h c hc)

/-- Those of the invariant culture. -/
def Signs.invariant : Signs :=
  ⟨text "+", text "-", true, noDigit_of_any (by decide), by decide, by decide⟩

/-- Whether there is a minus sign, and what follows the sign. -/
def Signs.strip (g : Signs) (s : Text) : Bool × Text :=
  if g.hyphen && s.head? = some 45 then (true, s.tail)
  else if g.positive ≠ [] ∧ g.positive.isPrefixOf s then (false, s.drop g.positive.length)
  else if g.negative ≠ [] ∧ g.negative.isPrefixOf s then (true, s.drop g.negative.length)
  else (false, s)

/-- The sign and the digits of a number; `none` if that is not what the text holds. -/
def parseInteger (g : Signs) (s : Text) : Option (Bool × Nat) :=
  let (negative, s) := g.strip (s.dropWhile isWhite)
  let ds := s.takeWhile isDigit
  let rest := (s.dropWhile isDigit).dropWhile isWhite
  if ds ≠ [] ∧ rest.all (· = 0) then some (negative, number ds) else none

/-- `Parse` of an unsigned type of `w` bits. -/
def parseUnsigned (w : Nat) (g : Signs) (s : Text) : Except Exn Nat :=
  match parseInteger g s with
  | none => .error .format
  | some (negative, n) =>
    if negative ∧ n ≠ 0 ∨ 2 ^ w ≤ n then .error .overflow else .ok n

/-- `Convert.ToUInt16`. -/
def toUInt16 (g : Signs) (s : Text) : Except Exn UInt16 :=
  (parseUnsigned 16 g s).map UInt16.ofNat

/-- `int.TryParse`. -/
def tryParseInt (g : Signs) (s : Text) : Option Int :=
  match parseInteger g s with
  | none => none
  | some (negative, n) =>
    let n : Int := if negative then -n else n
    if -2 ^ 31 ≤ n ∧ n < 2 ^ 31 then some n else none

/-- `int.ToString`. -/
def formatInt (g : Signs) (n : Int) : Text :=
  if n < 0 then g.negative ++ digits n.natAbs else digits n.natAbs

end Guardian

end Fix42
