import Mathlib.Data.List.TakeWhile
import Fix42.Lib.Segments
import Fix42.Utils.Split

/-!
# What a string is split into

The loop reads one piece after the other (`splitLoop_eq`), so it gives the pieces that the readers of the
protocol are modelled with (`split_eq`). `split_law` says which segments of the string these are.
-/

namespace Fix42

namespace Utils

open Getline (MaximalSegment)

variable {C : UInt8} {x y token : Wire.Bytes} {result : List Wire.Bytes} {ss ss' : IStringStream}

/-! ## One read -/

/-- Up to a delimiter, which is read too. -/
theorem getline_piece (hx : C ∉ x) :
    IStringStream.getline { rest := x ++ C :: y } C token = ({ rest := y }, x) := by
  have hall := Getline.forall_ne_of_not_mem hx
  have htake : (x ++ C :: y).takeWhile (· ≠ C) = x := by
    rw [List.takeWhile_append_of_pos hall, List.takeWhile_cons_of_neg (by simp), List.append_nil]
  have hdrop : (x ++ C :: y).dropWhile (· ≠ C) = C :: y := by
    rw [List.dropWhile_append_of_pos hall, List.dropWhile_cons_of_neg (by simp)]
  rw [IStringStream.getline, if_pos (IStringStream.good_new _)]
  simp only [htake, hdrop]

/-- Up to the end. -/
theorem getline_last (hx : C ∉ x) :
    IStringStream.getline { rest := x } C token =
      ({ rest := [], eofbit := true, failbit := x = [] }, x) := by
  have hall := Getline.forall_ne_of_not_mem hx
  have htake : x.takeWhile (· ≠ C) = x := List.takeWhile_eq_self_iff.2 hall
  have hdrop : x.dropWhile (· ≠ C) = [] := List.dropWhile_eq_nil_iff.2 hall
  rw [IStringStream.getline, if_pos (IStringStream.good_new _)]
  simp only [htake, hdrop]

/-- Behind the end. -/
theorem fail_getline_of_eof (h : ss.eofbit = true) : (ss.getline C token).1.fail = true := by
  rw [IStringStream.getline, if_neg (by simp [IStringStream.good, h])]
  rfl

/-! ## The loop -/

theorem splitLoop_next (h : ss.getline C token = (ss', x)) (hfail : ss'.fail = false) :
    splitLoop C ss token result = splitLoop C ss' x (result ++ [x]) := by
  rw [splitLoop, dif_pos (by rw [h]; exact hfail), h]

theorem splitLoop_done (h : (ss.getline C token).1.fail = true) :
    splitLoop C ss token result = result := by
  rw [splitLoop, dif_neg (by simp [h])]

theorem splitLoop_eq (s : Wire.Bytes) :
    splitLoop C { rest := s } token result = result ++ Getline.split C s := by
  induction s using Getline.piece_induction (c := C) generalizing token result with
  | last x hx =>
    by_cases hnil : x = []
    · subst hnil
      rw [splitLoop_done (by rw [getline_last hx]; rfl), Getline.split_nil, List.append_nil]
    · -- the piece at the end is read, and then there is nothing behind it
      rw [splitLoop_next (getline_last hx) (by simp [IStringStream.fail, hnil]),
        splitLoop_done (fail_getline_of_eof rfl), Getline.split_of_not_mem hx hnil]
  | piece x y hx ih =>
    rw [splitLoop_next (getline_piece hx) rfl, ih, Getline.split_append_cons hx, List.append_assoc]
    rfl

theorem split_eq (s : Wire.Bytes) : split C s = Getline.split C s := splitLoop_eq s

/-! ## The law -/

/-- The pieces are the segments that are as long as they can be, in their order, but for an empty last
one. Joined they are the string without a delimiter at its end. -/
theorem split_law (C : UInt8) (s : Wire.Bytes) :
    (∀ x p y, MaximalSegment C s x p y ↔
      ∃ l r, s.splitOn C = l ++ p :: r ∧ x = Getline.join C l ∧ y = r.flatMap (C :: ·)) ∧
    split C s = (if (s.splitOn C).getLast? = some [] then (s.splitOn C).dropLast else s.splitOn C) ∧
    [C].intercalate (split C s) = (if s.getLast? = some C then s.dropLast else s) ∧
    split C [] = [] := by
  rw [split_eq, split_eq]
  exact ⟨fun x p y => Getline.maximalSegment_iff, Getline.split_eq_splitOn, Getline.intercalate_split,
    Getline.split_nil⟩

/-- What is joined is split into the same pieces, if the last of them is not empty. -/
theorem split_intercalate {ps : List Wire.Bytes} {p : Wire.Bytes} (hfree : ∀ q ∈ ps ++ [p], C ∉ q)
    (hp : p ≠ []) : split C ([C].intercalate (ps ++ [p])) = ps ++ [p] := by
  have hps : ∀ q ∈ ps, C ∉ q := fun q hq => hfree q (List.mem_append_left _ hq)
  rw [split_eq, Getline.intercalate_append_cons, List.flatMap_nil, List.append_nil,
    Getline.split_join_append hps, Getline.split_of_not_mem (hfree p (by simp)) hp]

end Utils

end Fix42
