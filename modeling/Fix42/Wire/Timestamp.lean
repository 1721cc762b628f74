import Fix42.Lib.Calendar
import Fix42.Wire.Input

/-!
# Timestamps

`from_FIX` and `to_FIX` of a time point, a FIX `UTCTimestamp`. Time points are whole seconds since the
epoch; `gmtime` and `mktime` are those of the C library, the latter in a zone with a fixed offset.

`Stamp` is what such a text stands for.
-/

namespace Fix42

namespace Wire

open Calendar (days IsDate)

/-! ## The C library -/

/-- `std::tm`, the fields without their prefix. -/
structure Tm where
  year : Int
  mon : Int
  mday : Int
  hour : Int
  min : Int
  sec : Int
  deriving DecidableEq

def gmtime (time : Int) : Tm :=
  let (year, month, day) := civil (time / 86400)
  let second := time % 86400
  { year := year - 1900, mon := month - 1, mday := day, hour := second / 3600,
    min := second / 60 % 60, sec := second % 60 }

/-- Fields out of range are carried over; a local time is `offset` ahead. -/
def mktime (offset : Int) (tm : Tm) : Int :=
  let day := days (1900 + tm.year + tm.mon / 12, tm.mon % 12 + 1, 1) + (tm.mday - 1)
  86400 * day + 3600 * tm.hour + 60 * tm.min + tm.sec - offset

/-! ## from_FIX -/

/-- `parse2` and `parse4`. -/
def parseDigits (width : Nat) (str : Bytes) (pos : Nat) : Option Nat :=
  let digits := (str.drop pos).take width
  if digits.all isDigit then some (number digits) else none

def fromFixTime (offset : Int) (value : Bytes) : Except RejectError Int :=
  let format : RejectError := { reason := .incorrectFormat, message := "Awaited a time format" }
  if value.length ≠ 17 ∨ value[8]? ≠ some 45 ∨ value[11]? ≠ some 58 ∨ value[14]? ≠ some 58 then
    .error format
  else
    match parseDigits 4 value 0, parseDigits 2 value 4, parseDigits 2 value 6,
      parseDigits 2 value 9, parseDigits 2 value 12, parseDigits 2 value 15 with
    | some year, some month, some day, some hour, some min, some sec =>
      let tm : Tm := { year := year - 1900, mon := month - 1, mday := day, hour, min, sec }
      let time := mktime offset tm
      if time = -1 then
        .error { reason := .valueOORange, message := "Unknow error on time convertion" }
      else .ok time
    | _, _, _, _, _, _ => .error format

/-! ## to_FIX -/

/-- `'0' + n`, as a `char`. -/
def charOf (n : Int) : UInt8 := UInt8.ofInt (48 + n)

def toFixTime (time : Int) : Bytes :=
  let tm := gmtime time
  let year := 1900 + tm.year
  let month := tm.mon + 1
  [charOf ((year.tdiv 1000).tmod 10), charOf ((year.tdiv 100).tmod 10),
    charOf ((year.tdiv 10).tmod 10), charOf (year.tmod 10),
    charOf (month.tdiv 10), charOf (month.tmod 10),
    charOf (tm.mday.tdiv 10), charOf (tm.mday.tmod 10), 45,
    charOf (tm.hour.tdiv 10), charOf (tm.hour.tmod 10), 58,
    charOf (tm.min.tdiv 10), charOf (tm.min.tmod 10), 58,
    charOf (tm.sec.tdiv 10), charOf (tm.sec.tmod 10)]

/-! ## What a text stands for -/

/-- The numbers in a text `YYYYMMDD-HH:MM:SS`. -/
structure Stamp where
  year : Nat
  month : Nat
  day : Nat
  hour : Nat
  minute : Nat
  second : Nat
  deriving DecidableEq

/-- `n` in `width` decimal digits. -/
def decimal : Nat → Nat → Bytes
  | 0, _ => []
  | width + 1, n => decimal width (n / 10) ++ [digit (n % 10)]

namespace Stamp

def text (t : Stamp) : Bytes :=
  decimal 4 t.year ++ decimal 2 t.month ++ decimal 2 t.day ++ [45] ++ decimal 2 t.hour ++ [58] ++
    decimal 2 t.minute ++ [58] ++ decimal 2 t.second

/-- The numbers fit into their places. -/
structure Fits (t : Stamp) : Prop where
  year : t.year < 10000
  month : t.month < 100
  day : t.day < 100
  hour : t.hour < 100
  minute : t.minute < 100
  second : t.second < 100

/-- A date of the calendar and a time of the day. -/
def Real (t : Stamp) : Prop :=
  IsDate (t.year, t.month, t.day) ∧ t.hour < 24 ∧ t.minute < 60 ∧ t.second < 60

instance (t : Stamp) : Decidable t.Real := inferInstanceAs (Decidable (_ ∧ _))

/-- The fields `from_FIX` gives to `mktime`. -/
def tm (t : Stamp) : Tm :=
  { year := t.year - 1900, mon := t.month - 1, mday := t.day, hour := t.hour, min := t.minute,
    sec := t.second }

end Stamp

/-- The text is `YYYYMMDD-HH:MM:SS` with a real date and a time of the day. -/
def IsTimestamp (s : Bytes) : Prop := ∃ t : Stamp, t.Fits ∧ t.Real ∧ t.text = s

end Wire

end Fix42
