import Mathlib.Tactic.ByContra
import Fix42.Lib.Utf8

/-!
# Code units in UTF-8

`getBytes` writes UTF-16 code units as UTF-8, a half of a pair that stands alone as a replacement
character. ASCII is written as it is wherever it stands (`getBytes_append_ascii`), and what is above it
above it.
-/

namespace Utf8

def IsHigh (u : UInt16) : Prop := 0xD800 ≤ u.toNat ∧ u.toNat < 0xDC00

def IsLow (u : UInt16) : Prop := 0xDC00 ≤ u.toNat ∧ u.toNat < 0xE000

instance (u : UInt16) : Decidable (IsHigh u) := inferInstanceAs (Decidable (_ ∧ _))

instance (u : UInt16) : Decidable (IsLow u) := inferInstanceAs (Decidable (_ ∧ _))

/-- The character of a code unit that is no half of a pair; a half is replaced. -/
def single (u : UInt16) : Char :=
  if IsHigh u ∨ IsLow u then Char.ofNat 0xFFFD else Char.ofNat u.toNat

/-- The characters of code units. -/
def chars : List UInt16 → List Char
  | [] => []
  | [u] => [single u]
  | u :: v :: us =>
    if IsHigh u ∧ IsLow v then
      Char.ofNat (0x10000 + (u.toNat - 0xD800) * 0x400 + (v.toNat - 0xDC00)) :: chars us
    else single u :: chars (v :: us)

/-- The bytes of code units. -/
def getBytes (us : List UInt16) : List UInt8 := encode (chars us)

variable {a : UInt8} {c : Char} {cs : List Char} {n : Nat} {u : UInt16} {us vs : List UInt16}

theorem toNat_char (h : n < 0xD800 ∨ 0xDFFF < n ∧ n < 0x110000) : (Char.ofNat n).toNat = n := by
  rw [Char.ofNat, dif_pos h]
  rfl

theorem single_ascii (hu : u.toNat < 0x80) : single u = Char.ofNat u.toNat := by
  rw [single, if_neg]
  rintro (h | h)
  · have := h.1
    omega
  · have := h.1
    omega

theorem single_high (hu : 0x80 ≤ u.toNat) : 0x80 ≤ (single u).toNat := by
  have hlt := u.toNat_lt
  rw [single]
  split
  · decide
  case isFalse h =>
    rw [not_or, IsHigh, IsLow] at h
    rw [toNat_char (by omega)]
    exact hu

theorem chars_cons_of_not (h : ∀ v ∈ us.head?, ¬ (IsHigh u ∧ IsLow v)) :
    chars (u :: us) = single u :: chars us := by
  cases us with
  | nil => rfl
  | cons v us => rw [chars, if_neg (h v rfl)]

/-- A code unit of the ASCII range is a character of its own. -/
theorem chars_append_ascii (hu : u.toNat < 0x80) :
    chars (us ++ u :: vs) = chars us ++ Char.ofNat u.toNat :: chars vs := by
  have hlow : ¬ IsLow u := fun h => by
    have := h.1
    omega
  have hhigh : ¬ IsHigh u := fun h => by
    have := h.1
    omega
  have hbase : chars (u :: vs) = Char.ofNat u.toNat :: chars vs := by
    rw [chars_cons_of_not fun v _ h => hhigh h.1, single_ascii hu]
  induction us using chars.induct with
  | case1 => exact hbase
  | case2 w =>
    have hw : chars (w :: u :: vs) = single w :: chars (u :: vs) :=
      chars_cons_of_not fun v hv h => hlow (Option.some.inj hv ▸ h.2)
    rw [List.singleton_append, hw, hbase]
    rfl
  | case3 w v us h ih =>
    rw [List.cons_append, List.cons_append, chars, if_pos h, ih, chars, if_pos h, List.cons_append]
  | case4 w v us h ih =>
    rw [List.cons_append, List.cons_append, chars, if_neg h, ← List.cons_append, ih, chars, if_neg h,
      List.cons_append]

theorem encodeChar_ascii (h : n < 0x80) : String.utf8EncodeChar (Char.ofNat n) = [UInt8.ofNat n] := by
  have hn : (Char.ofNat n).toNat = n := toNat_char (by omega)
  rcases encode_cases (Char.ofNat n) with ⟨-, hc⟩ | ⟨b, q, s, hc, hlead, hends, -⟩
  · rwa [hn] at hc
  · rw [String.utf8EncodeChar, show (Char.ofNat n).val.toNat = n from hn]
    exact if_pos (by omega)

theorem encode_append {cs' : List Char} : encode (cs ++ cs') = encode cs ++ encode cs' :=
  List.flatMap_append

theorem getBytes_cons_ascii (ha : a.toNat < 0x80) :
    getBytes (us ++ a.toUInt16 :: vs) = getBytes us ++ a :: getBytes vs := by
  rw [getBytes, chars_append_ascii (by exact ha), encode_append, encode_cons,
    encodeChar_ascii (by exact ha), UInt8.toNat_toUInt16, UInt8.ofNat_toNat]
  rfl

/-- Bytes of the ASCII range are written as they are. -/
theorem getBytes_append_ascii {t : List UInt8} (h : ∀ a ∈ t, a.toNat < 0x80) :
    getBytes (us ++ t.map UInt8.toUInt16) = getBytes us ++ t := by
  induction t generalizing us with
  | nil => rw [List.map_nil, List.append_nil, List.append_nil]
  | cons a t ih =>
    obtain ⟨ha, ht⟩ := List.forall_mem_cons.1 h
    have htail : getBytes (t.map UInt8.toUInt16) = t := @ih [] ht
    rw [List.map_cons, getBytes_cons_ascii ha, htail]

/-- The bytes of a character above the ASCII range are above it. -/
theorem encodeChar_high (hc : 0x80 ≤ c.toNat) : ∀ b ∈ String.utf8EncodeChar c, 0x80 ≤ b.toNat := by
  rcases encode_cases c with ⟨hlt, -⟩ | ⟨b, q, s, hbytes, hlead, hends, -⟩
  · omega
  · rw [hbytes, List.forall_mem_cons]
    refine ⟨?_, fun b' hb' => (hends.continuation b' hb').1⟩
    by_contra hb
    rw [lead, if_pos (by omega)] at hlead
    obtain ⟨rfl, -⟩ := Prod.mk.inj hlead
    cases hends

theorem pair_high {v : UInt16} : 0x80 ≤ (Char.ofNat (0x10000 + (u.toNat - 0xD800) * 0x400 +
    (v.toNat - 0xDC00))).toNat ∨ ¬ (IsHigh u ∧ IsLow v) := by
  by_cases h : IsHigh u ∧ IsLow v
  · obtain ⟨⟨hu, hu'⟩, hv, hv'⟩ := h
    rw [toNat_char (by omega)]
    omega
  · exact .inr h

/-- What starts above the ASCII range is written so. -/
theorem getBytes_head (hu : 0x80 ≤ u.toNat) : ∃ b bs, getBytes (u :: us) = b :: bs ∧ 0x80 ≤ b.toNat := by
  have hhead : ∃ c cs, chars (u :: us) = c :: cs ∧ 0x80 ≤ c.toNat := by
    cases us with
    | nil => exact ⟨_, _, rfl, single_high hu⟩
    | cons v us =>
      rw [chars]
      split
      case isTrue h => exact ⟨_, _, rfl, pair_high.resolve_right (not_not.2 h)⟩
      case isFalse => exact ⟨_, _, rfl, single_high hu⟩
  obtain ⟨c, cs, hcs, hc⟩ := hhead
  obtain ⟨b, q, hb⟩ := List.exists_cons_of_ne_nil (encodeChar_ne_nil c)
  refine ⟨b, q ++ encode cs, ?_, encodeChar_high hc b (hb ▸ List.mem_cons_self)⟩
  rw [getBytes, hcs, encode_cons, hb, List.cons_append]

/-- What ends above the ASCII range is written so. -/
theorem getBytes_last (hu : 0x80 ≤ u.toNat) :
    ∃ bs b, getBytes (us ++ [u]) = bs ++ [b] ∧ 0x80 ≤ b.toNat := by
  have hlast : ∃ cs c, chars (us ++ [u]) = cs ++ [c] ∧ 0x80 ≤ c.toNat := by
    induction us using chars.induct with
    | case1 => exact ⟨[], _, rfl, single_high hu⟩
    | case2 w =>
      rw [List.singleton_append, chars]
      split
      case isTrue h => exact ⟨[], _, rfl, pair_high.resolve_right (not_not.2 h)⟩
      case isFalse => exact ⟨[single w], _, rfl, single_high hu⟩
    | case3 w v us h ih =>
      obtain ⟨cs, c, hcs, hc⟩ := ih
      rw [List.cons_append, List.cons_append, chars, if_pos h, hcs]
      exact ⟨_ :: cs, c, rfl, hc⟩
    | case4 w v us h ih =>
      obtain ⟨cs, c, hcs, hc⟩ := ih
      rw [List.cons_append, List.cons_append, chars, if_neg h, ← List.cons_append, hcs]
      exact ⟨_ :: cs, c, rfl, hc⟩
  obtain ⟨cs, c, hcs, hc⟩ := hlast
  obtain ⟨q, b, hb⟩ := (List.eq_nil_or_concat' _).resolve_left (encodeChar_ne_nil c)
  refine ⟨encode cs ++ q, b, ?_, encodeChar_high hc b (hb ▸ List.mem_concat_self)⟩
  rw [getBytes, hcs, encode_append, encode_cons, hb]
  simp [encode]

/-- Bytes of the ASCII range between code units are written as they are. -/
theorem getBytes_append_append {t : List UInt8} (h : ∀ a ∈ t, a.toNat < 0x80) (ht : t ≠ []) :
    getBytes (us ++ (t.map UInt8.toUInt16 ++ vs)) = getBytes us ++ (t ++ getBytes vs) := by
  obtain ⟨t, a, rfl⟩ := (List.eq_nil_or_concat' t).resolve_left ht
  rw [List.map_append, List.append_assoc, ← List.append_assoc us, List.map_singleton,
    List.singleton_append, getBytes_cons_ascii (h a List.mem_concat_self),
    getBytes_append_ascii fun b hb => h b (List.mem_append_left _ hb)]
  simp only [List.append_assoc, List.singleton_append]

theorem getBytes_eq_nil : getBytes us = [] ↔ us = [] := by
  refine ⟨fun h => ?_, fun h => h ▸ rfl⟩
  obtain rfl | ⟨us, u, rfl⟩ := List.eq_nil_or_concat' us
  · rfl
  by_cases hu : 0x80 ≤ u.toNat
  · obtain ⟨bs, b, hb, -⟩ := @getBytes_last u us hu
    simp [hb] at h
  · have hunit : u = (u.toUInt8).toUInt16 := UInt16.toNat_inj.1 (by simp; omega)
    rw [hunit, getBytes_cons_ascii (by simp; omega)] at h
    simp at h

/-- The last byte, if it is of the ASCII range, is the last code unit. -/
theorem getLast?_getBytes (ha : a.toNat < 0x80) :
    (getBytes us).getLast? = some a ↔ us.getLast? = some a.toUInt16 := by
  obtain rfl | ⟨us, u, rfl⟩ := List.eq_nil_or_concat' us
  · exact iff_of_false nofun nofun
  rw [List.getLast?_concat, Option.some.injEq]
  by_cases hu : 0x80 ≤ u.toNat
  · obtain ⟨bs, b, hbytes, hb⟩ := @getBytes_last u us hu
    rw [hbytes, List.getLast?_concat, Option.some.injEq]
    refine iff_of_false ?_ ?_
    · rintro rfl
      omega
    · rintro rfl
      rw [UInt8.toNat_toUInt16] at hu
      omega
  · have hunit : u = (u.toUInt8).toUInt16 := UInt16.toNat_inj.1 (by simp; omega)
    have hbytes : getBytes (us ++ [u]) = getBytes us ++ [u.toUInt8] := by
      rw [hunit, getBytes_cons_ascii (by simp; omega), ← hunit]
      rfl
    rw [hbytes, List.getLast?_concat, Option.some.injEq]
    refine ⟨fun h => h ▸ hunit, fun h => ?_⟩
    rw [h, UInt8.toUInt8_toUInt16]

theorem mem_chars (hc : c.toNat < 0x80) (h : c ∈ chars us) : UInt16.ofNat c.toNat ∈ us := by
  have hsingle : ∀ {u : UInt16}, c = single u → UInt16.ofNat c.toNat = u := by
    rintro u rfl
    have hu : u.toNat < 0x80 := by
      by_contra hu
      have := single_high (u := u) (by omega)
      omega
    rw [single_ascii hu, toNat_char (by omega), UInt16.ofNat_toNat]
  induction us using chars.induct with
  | case1 => cases h
  | case2 u => rw [hsingle (List.mem_singleton.1 h)]; exact List.mem_singleton_self u
  | case3 u v us hpair ih =>
    rw [chars, if_pos hpair] at h
    rcases List.mem_cons.1 h with hlow | h
    · rw [hlow] at hc
      exact absurd (pair_high.resolve_right (not_not.2 hpair)) (Nat.not_le_of_lt hc)
    · exact List.mem_cons_of_mem _ (List.mem_cons_of_mem _ (ih h))
  | case4 u v us hpair ih =>
    rw [chars, if_neg hpair] at h
    rcases List.mem_cons.1 h with hu | h
    · exact hsingle hu ▸ List.mem_cons_self
    · exact List.mem_cons_of_mem _ (ih h)

/-- A byte of the ASCII range is a code unit. -/
theorem mem_getBytes (ha : a.toNat < 0x80) (h : a ∈ getBytes us) : a.toUInt16 ∈ us := by
  obtain ⟨c, hc, hac⟩ := List.mem_flatMap.1 h
  have hlt : c.toNat < 0x80 := by
    by_contra hge
    have := encodeChar_high (c := c) (by omega) a hac
    omega
  have hbytes : String.utf8EncodeChar c = [UInt8.ofNat c.toNat] := by
    rw [← encodeChar_ascii hlt, Char.ofNat_toNat]
  rw [hbytes, List.mem_singleton] at hac
  have hunit : a.toUInt16 = UInt16.ofNat c.toNat :=
    UInt16.toNat_inj.1 (by rw [hac]; simp; omega)
  exact hunit ▸ mem_chars hlt hc

end Utf8
