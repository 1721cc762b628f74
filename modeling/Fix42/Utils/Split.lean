import Fix42.Wire.Message

/-!
# utils::split

The loop of `std::getline` over a string stream that cuts a string at a delimiter.
-/

namespace Fix42

namespace Utils

/-- A `std::istringstream`: what is still to be read, and the state. -/
structure IStringStream where
  rest : Wire.Bytes
  eofbit : Bool := false
  failbit : Bool := false
  deriving DecidableEq

namespace IStringStream

variable (ss : IStringStream) (delim : UInt8)

def good : Bool := !ss.eofbit && !ss.failbit

def fail : Bool := ss.failbit

@[simp] theorem good_new (s : Wire.Bytes) : good { rest := s } = true := rfl

/-- `std::getline`: what is read is put in `token`. It fails on a stream that is not good, where `token`
stays, and where there is nothing more to read. -/
def getline (token : Wire.Bytes) : IStringStream × Wire.Bytes :=
  if ss.good then
    let token := ss.rest.takeWhile (· ≠ delim)
    match ss.rest.dropWhile (· ≠ delim) with
    | [] => ({ rest := [], eofbit := true, failbit := token = [] }, token)
    | _ :: rest => ({ ss with rest := rest }, token)
  else ({ ss with failbit := true }, token)

/-- How often it can be read from at most. -/
def reads : Nat := ss.rest.length + if ss.good then 1 else 0

theorem reads_getline {ss : IStringStream} {token : Wire.Bytes}
    (h : (ss.getline delim token).1.fail = false) : (ss.getline delim token).1.reads < ss.reads := by
  rw [getline] at h ⊢
  split at h
  case isFalse => cases h
  case isTrue hgood =>
    rw [if_pos hgood]
    have hlength := (List.dropWhile_sublist (l := ss.rest) (· ≠ delim)).length_le
    cases hdrop : ss.rest.dropWhile (· ≠ delim) with
    | nil =>
      have hbad (failbit : Bool) : good ⟨[], true, failbit⟩ = false := rfl
      simp only [reads, hgood, hbad]
      simp
    | cons c rest =>
      rw [hdrop, List.length_cons] at hlength
      have hsame : good { ss with rest := rest } = ss.good := rfl
      simp only [reads, hsame]
      omega

end IStringStream

/-- The loop in `split`. -/
def splitLoop (C : UInt8) (ss : IStringStream) (token : Wire.Bytes) (result : List Wire.Bytes) :
    List Wire.Bytes :=
  if _ : (ss.getline C token).1.fail = false then
    splitLoop C (ss.getline C token).1 (ss.getline C token).2 (result ++ [(ss.getline C token).2])
  else result
  termination_by ss.reads
  decreasing_by exact IStringStream.reads_getline C (by assumption)

/-- `utils::split<C>`. -/
def split (C : UInt8) (str : Wire.Bytes) : List Wire.Bytes := splitLoop C { rest := str } [] []

end Utils

end Fix42
