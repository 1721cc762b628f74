import Mathlib.Data.List.TakeWhile
import Fix42.Guardian.Text

/-!
# Numbers in texts

A number is read back from its digits, whatever the signs of the culture are (`parseInteger_digits`),
and where there is no digit there is no number (`tryParseInt_noDigit`).
-/

namespace Fix42

namespace Guardian

variable {n : Nat} {c : UInt16} {s : Text}

theorem isDigit_of_mem_digits (h : c ∈ digits n) : isDigit c = true := by
  obtain ⟨b, hb, rfl⟩ := List.mem_map.1 h
  obtain ⟨d, hd, rfl⟩ := List.mem_map.1 hb
  have hdigit := Nat.isDigit_of_mem_toDigits (by decide) (by decide) hd
  simp only [Char.isDigit, Bool.and_eq_true, decide_eq_true_eq, ge_iff_le] at hdigit
  have h48 : 48 ≤ d.toNat := hdigit.1
  have h57 : d.toNat ≤ 57 := hdigit.2
  simp only [isDigit, Bool.and_eq_true, decide_eq_true_eq, UInt16.le_iff_toNat_le,
    UInt8.toNat_toUInt16, UInt8.toNat_ofNat']
  have hmod : d.toNat % 2 ^ 8 = d.toNat := Nat.mod_eq_of_lt (by omega)
  rw [hmod]
  exact ⟨h48, h57⟩

theorem digits_ne_nil (n : Nat) : digits n ≠ [] := by
  simp [digits, widen, Wire.toChars, Nat.toDigits_ne_nil]

theorem number_digits (n : Nat) : number (digits n) = n := by
  have hfold : ∀ (l : List Char) (a : Nat), (∀ d ∈ l, d.isDigit = true) →
      (l.map fun d => (UInt8.ofNat d.toNat).toUInt16).foldl
        (fun n d => 10 * n + (d.toNat - 48)) a = Nat.ofDigitChars 10 l a := by
    intro l
    induction l with
    | nil => intro a _; rfl
    | cons d l ih =>
      intro a hl
      have hdigit := hl d List.mem_cons_self
      simp only [Char.isDigit, Bool.and_eq_true, decide_eq_true_eq] at hdigit
      have h57 : d.toNat ≤ 57 := hdigit.2
      rw [List.map_cons, List.foldl_cons, ih _ fun e he => hl e (List.mem_cons_of_mem _ he),
        Nat.ofDigitChars_cons, UInt8.toNat_toUInt16, UInt8.toNat_ofNat', Nat.mod_eq_of_lt (by omega)]
      rfl
  rw [number, digits, widen, Wire.toChars, List.map_map]
  refine (hfold _ _ fun d hd => Nat.isDigit_of_mem_toDigits (by decide) (by decide) hd).trans ?_
  exact Nat.ofDigitChars_ten_toDigits

theorem parseInteger_of_digits (g : Signs) (hs : s ≠ []) (hdigits : ∀ c ∈ s, isDigit c = true) :
    parseInteger g s = some (false, number s) := by
  obtain ⟨c, s, rfl⟩ := List.exists_cons_of_ne_nil hs
  have hc := hdigits c List.mem_cons_self
  have hwhite : isWhite c = false := by
    refine Bool.eq_false_iff.2 fun hw => ?_
    simp only [isWhite, Bool.or_eq_true, decide_eq_true_eq, Bool.and_eq_true] at hw
    rcases hw with rfl | ⟨-, h13⟩
    · exact absurd hc (by decide)
    · simp only [isDigit, Bool.and_eq_true, decide_eq_true_eq] at hc
      exact absurd (UInt16.le_trans hc.1 h13) (by decide)
  have hstart : ∀ sign : Text, sign ≠ [] → (∀ d ∈ sign.head?, isDigit d = false) →
      sign.isPrefixOf (c :: s) = false := by
    rintro (_ | ⟨d, sign⟩) hne hd
    · cases hne rfl
    · have hdc : d ≠ c := by
        rintro rfl
        rw [hd d rfl] at hc
        cases hc
      simp [List.isPrefixOf, hdc]
  have hstrip : g.strip (c :: s) = (false, c :: s) := by
    have h45 : c ≠ 45 := by
      rintro rfl
      cases hc
    have hpos : ¬ (g.positive ≠ [] ∧ g.positive.isPrefixOf (c :: s) = true) := by
      rintro ⟨hne, hprefix⟩
      rw [hstart _ hne fun d hd => g.noDigit d (by simp [Option.mem_def.1 hd])] at hprefix
      cases hprefix
    have hneg : ¬ (g.negative ≠ [] ∧ g.negative.isPrefixOf (c :: s) = true) := by
      rintro ⟨hne, hprefix⟩
      rw [hstart _ hne fun d hd => g.noDigit d (by simp [Option.mem_def.1 hd])] at hprefix
      cases hprefix
    rw [Signs.strip, if_neg (by simp [h45]), if_neg hpos, if_neg hneg]
  have htake : (c :: s).takeWhile isDigit = c :: s := List.takeWhile_eq_self_iff.2 hdigits
  have hdrop : (c :: s).dropWhile isDigit = [] := List.dropWhile_eq_nil_iff.2 hdigits
  rw [parseInteger, List.dropWhile_cons_of_neg (by simp [hwhite]), hstrip]
  simp only [htake, hdrop, List.dropWhile_nil, List.all_nil, ne_eq, reduceCtorEq, not_false_eq_true,
    and_self, if_true]

theorem parseInteger_digits (g : Signs) (n : Nat) : parseInteger g (digits n) = some (false, n) := by
  rw [parseInteger_of_digits g (digits_ne_nil n) fun _ => isDigit_of_mem_digits, number_digits]

theorem parseUnsigned_digits {w : Nat} (g : Signs) (h : n < 2 ^ w) :
    parseUnsigned w g (digits n) = .ok n := by
  rw [parseUnsigned, parseInteger_digits]
  exact if_neg (by simp [h])

theorem toUInt16_digits (g : Signs) (n : UInt16) : toUInt16 g (digits n.toNat) = .ok n := by
  rw [toUInt16, parseUnsigned_digits g n.toNat_lt, Except.map, UInt16.ofNat_toNat]

theorem tryParseInt_digits (g : Signs) (h : n < 2 ^ 31) : tryParseInt g (digits n) = some n := by
  rw [tryParseInt, parseInteger_digits]
  refine (if_pos ?_).trans rfl
  simp only [Bool.false_eq_true, if_false]
  omega

/-- Without a digit there is no number. -/
theorem tryParseInt_noDigit (g : Signs) (h : ∀ c ∈ s, isDigit c = false) : tryParseInt g s = none := by
  have hsub : ∀ c ∈ (g.strip (s.dropWhile isWhite)).2, c ∈ s := by
    intro c hc
    refine (List.dropWhile_suffix isWhite).subset ?_
    rw [Signs.strip] at hc
    split at hc
    · exact List.mem_of_mem_tail hc
    split at hc
    · exact List.mem_of_mem_drop hc
    split at hc
    · exact List.mem_of_mem_drop hc
    · exact hc
  have htake : (g.strip (s.dropWhile isWhite)).2.takeWhile isDigit = [] := by
    refine List.eq_nil_iff_forall_not_mem.2 fun c hc => ?_
    have hdigit := h c (hsub c ((List.takeWhile_prefix _).subset hc))
    rw [List.mem_takeWhile_imp hc] at hdigit
    cases hdigit
  rw [tryParseInt, parseInteger]
  simp only [htake, ne_eq, not_true_eq_false, false_and, if_false]

theorem not_mem_digits (h : isDigit c = false) : c ∉ digits n := by
  intro hc
  rw [isDigit_of_mem_digits hc] at h
  cases h

end Guardian

end Fix42
