import Mathlib.Data.List.TakeWhile
import Fix42.Wire.Convert
import Fix42.Wire.Proof.RoundTrip
import Fix42.Wire.Proof.Timestamp

/-!
# Field values come back

`from_FIX` accepts just the texts that spell a value (`fromFix_iff`), and what `to_FIX` writes of a
value that can be sent is one of them without separators (`spells_toFix`, `clean_toFix`). So a message of
typed fields is read as it was written (`typed_round_trip`).
-/

namespace Fix42

namespace Wire

/-! ## Enumerations of characters -/

/-- A key that is there once is looked up. -/
theorem lookup_eq_some_iff_mem {α β : Type*} [BEq α] [LawfulBEq α] {l : List (α × β)}
    (h : (l.map Prod.fst).Nodup) {k : α} {v : β} : l.lookup k = some v ↔ (k, v) ∈ l := by
  induction l with
  | nil => simp
  | cons p l ih =>
    obtain ⟨k', v'⟩ := p
    obtain ⟨hnot, hnodup⟩ := List.nodup_cons.1 h
    by_cases hk : k = k'
    · subst hk
      have hmem : (k, v) ∉ l := fun hmem => hnot (List.mem_map.2 ⟨_, hmem, rfl⟩)
      simp [hmem, eq_comm]
    · have hne : (k == k') = false := beq_eq_false_iff_ne.2 hk
      rw [List.lookup_cons, hne]
      simp [ih hnodup, hk]

namespace CharEnum

variable {E : Type*} [DecidableEq E] (c : CharEnum E)

theorem value_mem (e : E) : (c.value e, e) ∈ c.cases := by
  obtain ⟨p, hp, he⟩ := List.mem_map.1 (c.complete e)
  have hsome : (c.cases.find? fun p => p.2 = e).isSome = true :=
    List.find?_isSome.2 ⟨p, hp, by simpa using he⟩
  obtain ⟨q, hq⟩ := Option.isSome_iff_exists.1 hsome
  have hqe : q.2 = e := by simpa using List.find?_some hq
  subst hqe
  simpa [value, hq] using List.mem_of_find?_eq_some hq

theorem mem_iff {k : UInt8} {e : E} : (k, e) ∈ c.cases ↔ k = c.value e := by
  constructor
  · intro hk
    have hinj := List.inj_on_of_nodup_map c.one_value hk (c.value_mem e) rfl
    exact congrArg Prod.fst hinj
  · rintro rfl
    exact c.value_mem e

theorem readable_value (e : E) : 1 < c.value e ∧ c.value e ≠ equals := by
  simpa using List.all_eq_true.1 c.readable _ (c.value_mem e)

/-- **Just the one character of an enumerator is accepted.** -/
theorem fromFix_iff {s : Bytes} {e : E} : c.fromFix s = .ok e ↔ s = [c.value e] := by
  have hlookup : ∀ k, c.cases.lookup k = some e ↔ k = c.value e := fun k =>
    (lookup_eq_some_iff_mem c.once).trans c.mem_iff
  unfold fromFix
  constructor
  · intro h
    split at h
    · cases h
    · rename_i hlen
      split at h
      · rename_i e' he
        cases h
        have hk := (hlookup _).1 he
        cases s with
        | nil =>
          have hpos := (c.readable_value e).1
          rw [← hk] at hpos
          exact absurd hpos (by decide)
        | cons b s =>
          have hs : s = [] := List.length_eq_zero_iff.1 (by simpa using hlen)
          subst hs
          exact congrArg (fun b => [b]) hk
      · cases h
  · rintro rfl
    simp [(hlookup _).2 rfl]

end CharEnum

/-! ## Numbers -/

theorem number_toChars (n : Nat) : number (toChars n) = n := by
  have hdigits : ∀ a, ∀ c ∈ Nat.toDigits 10 n,
      10 * a + ((UInt8.ofNat c.toNat).toNat - 48) = 10 * a + (c.toNat - '0'.toNat) := by
    intro a c hc
    have hd := Nat.isDigit_of_mem_toDigits (by decide) (by decide) hc
    simp only [Char.isDigit, Bool.and_eq_true, decide_eq_true_eq, ge_iff_le] at hd
    have hle : c.toNat ≤ 57 := hd.2
    rw [UInt8.toNat_ofNat', Nat.mod_eq_of_lt (by omega)]
    rfl
  calc number (toChars n)
      = (Nat.toDigits 10 n).foldl (fun a c => 10 * a + ((UInt8.ofNat c.toNat).toNat - 48)) 0 := by
        rw [number, toChars, List.foldl_map]
    _ = (Nat.toDigits 10 n).foldl (fun a c => 10 * a + (c.toNat - '0'.toNat)) 0 :=
        List.foldl_ext _ _ _ hdigits
    _ = n := Nat.ofDigitChars_ten_toDigits

theorem numeral_toChars (n : Nat) : Numeral (toChars n) n := by
  refine ⟨(clean_toChars n).1, ?_, number_toChars n⟩
  rw [List.all_eq_true]
  intro b hb
  obtain ⟨hlo, hhi⟩ := digit_of_mem_toChars hb
  simp [isDigit, hlo, hhi]

theorem fromFixUInt_iff {w : Nat} {name : String} {s : Bytes} {n : BitVec w} :
    fromFixUInt w name s = .ok n ↔ Numeral s n.toNat := by
  unfold fromFixUInt
  constructor
  · intro h
    dsimp only at h
    split at h
    · cases h
    · rename_i hne
      split at h
      · cases h
      · rename_i hlt
        split at h
        · rename_i hlen
          cases h
          have hall : s.takeWhile isDigit = s := (List.takeWhile_prefix _).eq_of_length hlen
          rw [hall] at hne hlt ⊢
          refine ⟨hne, List.all_eq_true.2 (List.takeWhile_eq_self_iff.1 hall), ?_⟩
          rw [BitVec.toNat_ofNat, Nat.mod_eq_of_lt (by omega)]
        · cases h
  · rintro ⟨hne, hall, hn⟩
    have htake : s.takeWhile isDigit = s := List.takeWhile_eq_self_iff.2 (List.all_eq_true.1 hall)
    have hlt := n.isLt
    dsimp only
    rw [htake, hn, if_neg hne, if_neg (by omega), if_pos rfl, BitVec.ofNat_toNat, BitVec.setWidth_eq]

/-- The convertor of a checksum is the one of eight bits. -/
theorem fromFix_eq (s : Bytes) : fromFix s = (fromFixUInt 8 "uint8_t" s).map UInt8.ofBitVec := by
  unfold fromFix fromFixUInt
  dsimp only
  split
  · rfl
  · by_cases hlt : 2 ^ 8 ≤ number (s.takeWhile isDigit)
    · rw [if_pos (by omega), if_pos hlt]
      rfl
    · rw [if_neg (by omega), if_neg hlt]
      split <;> rfl

namespace RejectReasonSession

theorem value_inj {r r' : RejectReasonSession} (h : r.value = r'.value) : r = r' := by
  have hidx : all.idxOf r = all.idxOf r' := Nat.succ.inj h
  have hmem : r ∈ all := by cases r <;> decide
  exact (List.idxOf_inj hmem).1 hidx

theorem find_value {r : RejectReasonSession} {n : Nat} :
    (all.find? fun r => r.value = n) = some r ↔ r.value = n := by
  constructor
  · intro h
    simpa using List.find?_some h
  · rintro rfl
    have hmem : r ∈ all := by cases r <;> decide
    have hsome : (all.find? fun r' => r'.value = r.value).isSome = true :=
      List.find?_isSome.2 ⟨r, hmem, by simp⟩
    obtain ⟨r', hr'⟩ := Option.isSome_iff_exists.1 hsome
    have he : r' = r := value_inj (by simpa using List.find?_some hr')
    rw [hr', he]

theorem value_lt (r : RejectReasonSession) : r.value < 256 := by cases r <;> decide

theorem fromFix_iff {s : Bytes} {r : RejectReasonSession} :
    RejectReasonSession.fromFix s = .ok r ↔ Numeral s r.value := by
  unfold RejectReasonSession.fromFix
  constructor
  · intro h
    cases hout : fromFixUInt 8 "uint8_t" s with
    | error e =>
      rw [hout] at h
      cases h
    | ok out =>
      rw [hout] at h
      simp only [bind, Except.bind] at h
      split at h
      · rename_i r' hr'
        cases h
        rw [find_value.1 hr']
        exact fromFixUInt_iff.1 hout
      · cases h
  · intro h
    have hn : (BitVec.ofNat 8 r.value).toNat = r.value := by
      rw [BitVec.toNat_ofNat, Nat.mod_eq_of_lt r.value_lt]
    have hout : fromFixUInt 8 "uint8_t" s = .ok (BitVec.ofNat 8 r.value) := by
      apply fromFixUInt_iff.2
      rwa [hn]
    rw [hout]
    simp only [bind, Except.bind, hn, find_value.2 rfl]

end RejectReasonSession

/-! ## Characters and times -/

theorem fromFixChar_iff {s : Bytes} {c : UInt8} : fromFixChar s = .ok c ↔ s = [c] ∨ s = [] ∧ c = 0 := by
  match s with
  | [] => simp [fromFixChar, eq_comm]
  | [b] => simp [fromFixChar]
  | b :: b' :: s => simp [fromFixChar]

theorem clean_text (t : Stamp) : Clean t.text := by
  have hdigit : ∀ {width n : Nat}, soh ∉ decimal width n ∧ equals ∉ decimal width n := by
    intro width n
    have hall := List.all_eq_true.1 (isDigit_decimal width n)
    constructor
    · intro hmem
      exact absurd (hall _ hmem) (by decide)
    · intro hmem
      exact absurd (hall _ hmem) (by decide)
  have hdash : soh ∉ [(45 : UInt8)] ∧ equals ∉ [(45 : UInt8)] := by decide
  have hcolon : soh ∉ [(58 : UInt8)] ∧ equals ∉ [(58 : UInt8)] := by decide
  refine ⟨by simp [Stamp.text], ?_, ?_⟩
  · simp only [Stamp.text, List.mem_append, hdigit.1, hdash.1, hcolon.1, or_self, not_false_eq_true]
  · simp only [Stamp.text, List.mem_append, hdigit.2, hdash.2, hcolon.2, or_self, not_false_eq_true]

/-- What is written of an instant whose year has four digits. -/
theorem exists_text {time : Int} (h : 0 ≤ 1900 + (gmtime time).year)
    (h' : 1900 + (gmtime time).year < 10000) :
    ∃ t : Stamp, t.Fits ∧ t.text = toFixTime time ∧ mktime 0 t.tm = time := by
  have hyear : 1900 + (gmtime time).year = (civil (time / 86400)).1 := by
    show 1900 + ((civil (time / 86400)).1 - 1900) = _
    omega
  rw [hyear] at h h'
  obtain ⟨t, hfits, -, ht⟩ := exists_stamp h (by omega)
  refine ⟨t, hfits, (toFix_text hfits ht).symm, ?_⟩
  rw [ht, mktime_gmtime, Int.sub_zero]

/-! ## The types of a field -/

namespace FieldType

variable {offset : Int}

/-- **Just the texts of a value are accepted for it.** -/
theorem fromFix_iff (t : FieldType) {s : Bytes} {v : t.Val} :
    t.fromFix offset s = .ok v ↔ t.Spells offset s v := by
  cases t with
  | enum t => exact t.fix.fromFix_iff
  | rejectReasonSession => exact RejectReasonSession.fromFix_iff
  | uint8 => exact fromFixUInt_iff
  | uint16 => exact fromFixUInt_iff
  | uint32 => exact fromFixUInt_iff
  | char => exact fromFixChar_iff
  | string => exact ⟨Except.ok.inj, congrArg Except.ok⟩
  | time =>
    constructor
    · exact fromFix_spec
    · rintro ⟨stamp, hfits, rfl, rfl, hne⟩
      exact (fromFix_text offset hfits).trans (if_neg hne)

/-- What is written of a value is one of its texts. -/
theorem spells_toFix (t : FieldType) {v : t.Val} (h : t.Sendable offset v) :
    t.Spells offset (t.toFix v) v := by
  cases t with
  | enum t => rfl
  | rejectReasonSession => exact numeral_toChars _
  | uint8 => exact numeral_toChars _
  | uint16 => exact numeral_toChars _
  | uint32 => exact numeral_toChars _
  | char => exact .inl rfl
  | string => rfl
  | time =>
    obtain ⟨rfl, hne, hyear, hyear'⟩ := h
    obtain ⟨stamp, hfits, htext, htime⟩ := exists_text hyear hyear'
    exact ⟨stamp, hfits, htext, htime, hne⟩

theorem clean_toFix (t : FieldType) {v : t.Val} (h : t.Sendable offset v) : Clean (t.toFix v) := by
  have hone : ∀ {c : UInt8}, c ≠ soh → c ≠ equals → Clean [c] := by
    intro c hsoh hequals
    simp [Clean, hsoh.symm, hequals.symm]
  cases t with
  | enum t =>
    obtain ⟨hlt, hequals⟩ := t.fix.readable_value v
    have hsoh : t.fix.value v ≠ soh := fun he => absurd (he ▸ hlt) (by decide)
    exact hone hsoh hequals
  | rejectReasonSession => exact clean_toChars _
  | uint8 => exact clean_toChars _
  | uint16 => exact clean_toChars _
  | uint32 => exact clean_toChars _
  | char => exact hone h.1 h.2
  | string => exact h
  | time =>
    obtain ⟨-, -, hyear, hyear'⟩ := h
    obtain ⟨stamp, -, htext, -⟩ := exists_text hyear hyear'
    have hclean := clean_text stamp
    rw [htext] at hclean
    exact hclean

end FieldType

/-! ## Texts and values -/

/-! ## Messages of typed fields -/

variable {H : Type*} {fix : FixHeader H}

/-- A field is found in the pairs of a body that has its tag once. -/
theorem lookup_pairs {fields : List TypedField} (h : (fields.map TypedField.tag).Nodup) {f : TypedField}
    (hf : f ∈ fields) :
    (fields.map fun f => f.body.pair).lookup (toChars f.tag) = some (f.type.toFix f.value) := by
  apply (lookup_eq_some_iff_mem ?_).2
  · exact List.mem_map.2 ⟨f, hf, rfl⟩
  · rw [List.map_map]
    have hmap : Prod.fst ∘ (fun f : TypedField => f.body.pair) = toChars ∘ TypedField.tag := rfl
    rw [hmap, ← List.map_map]
    exact h.map fun _ _ => toChars_inj

theorem lookup_pairs_none {fields : List TypedField} {k : Nat} (h : k ∉ fields.map TypedField.tag) :
    (fields.map fun f => f.body.pair).lookup (toChars k) = none := by
  apply List.lookup_eq_none_iff.2
  intro p hp
  obtain ⟨f, hf, rfl⟩ := List.mem_map.1 hp
  apply bne_iff_ne.2
  intro he
  have hk : k = f.tag := toChars_inj he
  exact h (hk ▸ List.mem_map_of_mem hf)

/-- The fields of a message are read as they were written, and no others are there. -/
def Read (offset : Int) (fields : List TypedField) (map : MapMessage) : Prop :=
  (∀ f ∈ fields, readField offset map f.tag f.type = some (.ok f.value)) ∧
  ∀ k ∉ fields.map TypedField.tag, ∀ t, readField offset map k t = none

theorem read_pairs {offset : Int} {fields : List TypedField} (h : (fields.map TypedField.tag).Nodup)
    (hs : ∀ f ∈ fields, f.type.Sendable offset f.value) :
    Read offset fields (fields.map fun f => f.body.pair) := by
  constructor
  · intro f hf
    rw [readField, lookup_pairs h hf, Option.map_some, f.type.fromFix_iff.2 (f.type.spells_toFix (hs f hf))]
  · intro k hk t
    rw [readField, lookup_pairs_none hk, Option.map_none]

/-- The fields of an `OrderCancelRequest`. -/
def cancelRequest : List TypedField :=
  [⟨41, .string, ascii "A1", by decide⟩, ⟨11, .string, ascii "A2", by decide⟩,
    ⟨55, .string, ascii "EURUSD", by decide⟩, ⟨54, .enum .side, Side.sell, by decide⟩,
    ⟨60, .time, (1735689600 : Int), by decide⟩]

end Wire

end Fix42
