import Fix42.Guardian.Messages
import Fix42.Guardian.Proof.Text
import Fix42.Lib.Fallible
import Fix42.Wire.Proof.Timestamp

/-!
# Messages that are read back

Type by type, `ConvertValue` undoes `ToString` (`convertValue_format`), and the text of a value is free of
separators (`noSeparator_format`). From there `ToMap` gives the fields back (`toMap_fields`), and
`FromString` sets the properties one after the other (`setAll_pairs`).
-/

namespace Fix42

namespace Guardian

open Fallible (find?_key mapM_ok mapM_error)
open Getline (join)

variable {Single : Type} {culture : Culture Single} {c : MessageClass}

/-! ## Texts -/

theorem NoSeparator.append {x y : Text} (hx : NoSeparator x) (hy : NoSeparator y) :
    NoSeparator (x ++ y) :=
  ⟨fun h => (List.mem_append.1 h).elim hx.1 hy.1, fun h => (List.mem_append.1 h).elim hx.2 hy.2⟩

theorem noSeparator_digits (n : Nat) : NoSeparator (digits n) :=
  ⟨not_mem_digits (by decide), not_mem_digits (by decide)⟩

theorem noSeparator_widen {s : Wire.Bytes} (h : ∀ b ∈ s, 45 ≤ b ∧ b ≤ 58) : NoSeparator (widen s) := by
  constructor
  · intro hs
    obtain ⟨b, hb, heq⟩ := List.mem_map.1 hs
    have hlt := UInt8.le_iff_toNat_le.1 (h b hb).1
    have hnat := congrArg UInt16.toNat heq
    rw [UInt8.toNat_toUInt16] at hnat
    rw [hnat] at hlt
    exact absurd hlt (by decide)
  · intro hs
    obtain ⟨b, hb, heq⟩ := List.mem_map.1 hs
    have hle := UInt8.le_iff_toNat_le.1 (h b hb).2
    have hnat := congrArg UInt16.toNat heq
    rw [UInt8.toNat_toUInt16] at hnat
    rw [hnat] at hle
    exact absurd hle (by decide)

/-! ## Dates -/

theorem DateTime.fits (t : DateTime) : t.toStamp.Fits := by
  obtain ⟨⟨hmonth, hmonth', hday, hday'⟩, hhour, hminute, hsecond⟩ := t.real
  have hlength := Calendar.monthLength_le t.year t.month
  have hrange := t.range
  simp only at hmonth hmonth' hday hday'
  constructor <;> omega

theorem decimal_range {width n : Nat} : ∀ b ∈ Wire.decimal width n, 45 ≤ b ∧ b ≤ 58 := by
  intro b hb
  have hdigit := List.all_eq_true.1 (Wire.isDigit_decimal width n) b hb
  simp only [Wire.isDigit, Bool.and_eq_true, decide_eq_true_eq] at hdigit
  exact ⟨UInt8.le_trans (by decide) hdigit.1, UInt8.le_trans hdigit.2 (by decide)⟩

theorem stamp_range (t : Wire.Stamp) : ∀ b ∈ t.text, 45 ≤ b ∧ b ≤ 58 := by
  intro b hb
  simp only [Wire.Stamp.text, List.mem_append, List.mem_singleton] at hb
  rcases hb with (((((((hb | hb) | hb) | rfl) | hb) | rfl) | hb) | rfl) | hb
  all_goals first | exact decimal_range b hb | decide

theorem parseExact_text (t : DateTime) : parseExact t.text = .ok t := by
  have hback : t.text.map UInt16.toUInt8 = t.toStamp.text := by
    rw [DateTime.text, widen, List.map_map]
    exact (List.map_congr_left fun b _ => UInt8.toUInt8_toUInt16 b).trans (List.map_id _)
  have hascii : t.text.any (128 ≤ ·) = false := by
    refine List.any_eq_false.2 fun x hx => ?_
    obtain ⟨b, hb, rfl⟩ := List.mem_map.1 hx
    have hle := UInt8.le_iff_toNat_le.1 (stamp_range _ b hb).2
    rw [decide_eq_true_eq, UInt16.le_iff_toNat_le, UInt8.toNat_toUInt16, Nat.not_le]
    exact Nat.lt_of_le_of_lt hle (by decide)
  have hshape : ¬ (t.text.any (128 ≤ ·) = true ∨ t.toStamp.text.length ≠ 17 ∨
      t.toStamp.text[8]? ≠ some 45 ∨ t.toStamp.text[11]? ≠ some 58 ∨
      t.toStamp.text[14]? ≠ some 58) := by
    simp [hascii, Wire.text_eq, Wire.length_decimal]
  obtain ⟨hyear, hmonth, hday, hhour, hminute, hsecond⟩ := Wire.parseDigits_text t.fits
  have hreal : t.toStamp.Real ∧ 1 ≤ t.year ∧ t.year < 10000 := ⟨t.real, t.range⟩
  rw [parseExact]
  simp only [hback]
  rw [if_neg hshape, hyear, hmonth, hday, hhour, hminute, hsecond]
  exact dif_pos hreal

theorem DateTime.text_ne_nil (t : DateTime) : t.text ≠ [] := by
  rw [DateTime.text, Wire.text_eq]
  exact List.cons_ne_nil _ _

/-! ## Enumerations -/

theorem formatInt_natCast {g : Signs} {n : Int} (h : 0 ≤ n) : formatInt g n = digits n.natAbs :=
  if_neg (Int.not_lt.2 h)

/-- A constant is written as its number, or as the value of its `EnumMember`. -/
theorem getEnumValue_spec (type : EnumType) {x : EnumConstant} (hx : x ∈ type.constants) :
    (x.member = none ∧ getEnumValue culture type x.value = digits x.value.natAbs) ∨
      ∃ s, x.member = some s ∧ getEnumValue culture type x.value = text s := by
  have hfind : (type.constants.find? fun y => y.value = x.value) = some x :=
    find?_key type.values hx
  rw [getEnumValue, hfind, Option.bind_some]
  cases hm : x.member with
  | none => exact .inl ⟨rfl, formatInt_natCast (type.range x hx).1⟩
  | some s =>
    refine .inr ⟨s, rfl, if_neg ?_⟩
    rintro rfl
    exact (type.members x hx "" hm).1 (by decide)

theorem parse_getEnumValue (type : EnumType) {x : EnumConstant} (hx : x ∈ type.constants) :
    parse culture (.enum type) (getEnumValue culture type x.value) = .ok x.value := by
  have hrange := type.range x hx
  rcases @getEnumValue_spec _ culture type x hx with ⟨-, hvalue⟩ | ⟨s, hm, hvalue⟩
  · rw [hvalue, parse, tryParseInt_digits _ (by omega)]
    exact congrArg Except.ok (Int.natAbs_of_nonneg hrange.1)
  · rw [hvalue, parse, tryParseInt_noDigit _ (type.members x hx s hm).2.2]
    have hfind : (type.constants.find? fun y => y.key.map upper = x.key.map upper) = some x :=
      find?_key type.keys hx
    rw [EnumConstant.key.eq_def x, hm, Option.getD_some] at hfind
    simp only [hfind]

/-! ## Values -/

theorem noSeparator_format {k : Kind} {value : Carrier Single k} (hplain : Plain k value)
    (hdefined : Defined k value) (hdate : DateInvariant culture k value) :
    NoSeparator (format culture k value) := by
  cases k with
  | string | char => exact hplain
  | uint | ushort => exact noSeparator_digits _
  | single => exact (culture.plain_format value).2
  | dateTime =>
    rw [format, show culture.formatDate value = _ from hdate]
    exact noSeparator_widen (stamp_range _)
  | enum type =>
    obtain ⟨x, hx, rfl⟩ := hdefined
    change NoSeparator (getEnumValue culture type x.value)
    rcases @getEnumValue_spec _ culture type x hx with ⟨-, hvalue⟩ | ⟨s, hm, hvalue⟩
    · rw [hvalue]
      exact noSeparator_digits _
    · rw [hvalue]
      exact (type.members x hx s hm).2.1

theorem format_ne_nil {k : Kind} {value : Carrier Single k} (hstring : k.isString = false)
    (hdefined : Defined k value) (hdate : DateInvariant culture k value) :
    format culture k value ≠ [] := by
  cases k with
  | string => cases hstring
  | char => exact List.cons_ne_nil _ _
  | uint | ushort => exact digits_ne_nil _
  | single => exact (culture.plain_format value).1
  | dateTime =>
    rw [format, show culture.formatDate value = _ from hdate]
    exact DateTime.text_ne_nil value
  | enum type =>
    obtain ⟨x, hx, rfl⟩ := hdefined
    change getEnumValue culture type x.value ≠ []
    rcases @getEnumValue_spec _ culture type x hx with ⟨-, hvalue⟩ | ⟨s, hm, hvalue⟩
    · rw [hvalue]
      exact digits_ne_nil _
    · rw [hvalue]
      exact (type.members x hx s hm).1

theorem parse_format {k : Kind} {value : Carrier Single k} (hdefined : Defined k value)
    (hdate : DateInvariant culture k value) :
    parse culture k (format culture k value) = .ok value := by
  cases k with
  | string | char => rfl
  | uint =>
    rw [format, parse, parseUnsigned_digits _ (UInt32.toNat_lt value)]
    exact congrArg Except.ok UInt32.ofNat_toNat
  | ushort =>
    rw [format, parse, parseUnsigned_digits _ (UInt16.toNat_lt value)]
    exact congrArg Except.ok UInt16.ofNat_toNat
  | single => exact culture.parse_format value
  | dateTime =>
    rw [format, show culture.formatDate value = _ from hdate]
    exact parseExact_text value
  | enum type =>
    obtain ⟨x, hx, rfl⟩ := hdefined
    exact parse_getEnumValue type hx

/-- Each branch of `ConvertValue` undoes its counterpart in `ToString`. -/
theorem convertValue_format {k : Kind} {value : Carrier Single k} (hdefined : Defined k value)
    (hdate : DateInvariant culture k value) :
    convertValue culture (format culture k value) k = .ok (some value) := by
  have hnull : ¬ (format culture k value = [] ∧ ¬ k.isString = true) := by
    rintro ⟨hnil, hstring⟩
    exact format_ne_nil (Bool.eq_false_iff.2 hstring) hdefined hdate hnil
  rw [convertValue, if_neg hnull, parse_format hdefined hdate]
  rfl

/-! ## ToMap -/

/-- A field without its SOH. -/
def piece (p : UInt16 × Text) : Text := digits p.1.toNat ++ equals :: p.2

theorem splitOn_join {fs : List Text} {r : Text} (h : ∀ f ∈ fs, soh ∉ f) (hr : soh ∉ r) :
    (join soh fs ++ r).splitOn soh = fs ++ [r] := by
  induction fs with
  | nil => exact List.splitOn_eq_singleton hr
  | cons f fs ih =>
    rw [Getline.join_cons, List.append_assoc, List.cons_append,
      List.splitOn_append_cons_self_of_not_mem (h f List.mem_cons_self),
      ih fun g hg => h g (List.mem_cons_of_mem _ hg)]
    rfl

/-- Fields are taken for a map. -/
theorem toMap_join {fs : List Text} {map : MapMessage} (h : ∀ f ∈ fs, soh ∉ f) :
    toMap culture (join soh fs) = .ok map ↔
      fs.any (·.all isWhiteSpace) = false ∧ fs.mapM (toPair culture) = .ok map := by
  have hsplit : (join soh fs).splitOn soh = fs ++ [[]] := by
    simpa using splitOn_join (r := []) h List.not_mem_nil
  rw [toMap, hsplit]
  simp only [List.getLast?_concat, List.dropLast_concat, ne_eq, not_true_eq_false, if_false]
  split
  case isTrue hblank => simp [hblank]
  case isFalse hblank => rw [and_iff_right (Bool.not_eq_true _ ▸ hblank)]

theorem not_mem_piece {p : UInt16 × Text} (h : NoSeparator p.2) : soh ∉ piece p := by
  rw [piece, List.mem_append, List.mem_cons]
  rintro (hd | heq | hv)
  · exact (noSeparator_digits _).1 hd
  · exact absurd heq (by decide)
  · exact h.1 hv

theorem flatMap_field (ps : MapMessage) :
    (ps.flatMap fun p => field p.1 p.2) = join soh (ps.map piece) := by
  rw [join, List.flatMap_map]
  refine congrArg ps.flatMap (funext fun p => ?_)
  rw [field, piece, List.append_assoc, List.cons_append]

theorem toPair_piece {p : UInt16 × Text} (h : NoSeparator p.2) :
    toPair culture (piece p) = .ok p := by
  have hsplit : (piece p).splitOn equals = [digits p.1.toNat, p.2] := by
    rw [piece, List.splitOn_append_cons_self_of_not_mem (noSeparator_digits _).2,
      List.splitOn_eq_singleton h.2]
  rw [toPair, hsplit]
  simp only [toUInt16_digits]
  rfl

/-- `ToMap` gives the tags and values of a row of fields. -/
theorem toMap_fields {ps : MapMessage} (h : ∀ p ∈ ps, NoSeparator p.2) :
    toMap culture (ps.flatMap fun p => field p.1 p.2) = .ok ps := by
  have hpieces : ∀ f ∈ ps.map piece, soh ∉ f := by
    intro f hf
    obtain ⟨p, hp, rfl⟩ := List.mem_map.1 hf
    exact not_mem_piece (h p hp)
  have hblank : (ps.map piece).any (·.all isWhiteSpace) = false := by
    rw [List.any_eq_false]
    rintro x hx hall
    obtain ⟨p, -, rfl⟩ := List.mem_map.1 hx
    have hequals : equals ∈ piece p := List.mem_append_right _ List.mem_cons_self
    exact absurd (List.all_eq_true.1 hall equals hequals) (by decide)
  rw [flatMap_field, toMap_join hpieces, List.mapM_map]
  refine ⟨hblank, (mapM_ok (g := id) fun p hp => toPair_piece (h p hp)).trans ?_⟩
  rw [List.map_id]

/-! ## FromString -/

namespace MessageClass

theorem mem_indices (i : c.Index) : i ∈ c.indices := List.mem_finRange i

theorem find_tagId (i : c.Index) : c.find (c.property i).tagId = some i := by
  refine find?_key (g := fun i => (c.property i).tagId) ?_ (mem_indices i)
  have hmap : c.indices.map (fun i => (c.property i).tagId) = c.properties.map Property.tagId :=
    calc c.indices.map (fun i => (c.property i).tagId)
        = (c.indices.map c.properties.get).map Property.tagId := List.map_map.symm
      _ = c.properties.map Property.tagId := by
        rw [indices, ← List.ofFn_eq_map, List.ofFn_get]
  rw [hmap]
  exact c.distinct

end MessageClass

namespace Object

variable {m : Object Single c}

@[simp] theorem set_self {i : c.Index} {value : Carrier Single (c.property i).kind} :
    m.set i value i = some value := Function.update_self ..

theorem set_of_ne {i j : c.Index} {value : Carrier Single (c.property i).kind} (h : j ≠ i) :
    m.set i value j = m j := Function.update_of_ne h ..

/-- The tag and the text of a property's value. -/
def pair (culture : Culture Single) (m : Object Single c) (i : c.Index) : Option (UInt16 × Text) :=
  (m i).map fun value => ((c.property i).tagId, format culture _ value)

def pairs (culture : Culture Single) (m : Object Single c) (l : List c.Index) : MapMessage :=
  l.filterMap (m.pair culture)

/-- What a message has to be to come back. -/
structure Good (culture : Culture Single) (m : Object Single c) : Prop where
  plain : m.Each Plain
  defined : m.Each Defined
  date : m.Each (DateInvariant culture)

theorem Good.noSeparator (h : m.Good culture) {l : List c.Index} :
    ∀ p ∈ m.pairs culture l, NoSeparator p.2 := by
  intro p hp
  obtain ⟨i, -, hi⟩ := List.mem_filterMap.1 hp
  obtain ⟨value, hvalue, rfl⟩ := Option.map_eq_some_iff.1 hi
  exact noSeparator_format (h.plain i value hvalue) (h.defined i value hvalue) (h.date i value hvalue)

/-- The properties of a row of pairs get the values of `m`, the others keep theirs. -/
theorem Good.setAll_pairs (h : m.Good culture) {l : List c.Index} (hl : l.Nodup) {o : Object Single c}
    (ho : ∀ i ∈ l, o i = none) :
    setAll culture o (m.pairs culture l) = .ok fun i => if i ∈ l then m i else o i := by
  induction l generalizing o with
  | nil => simp [pairs, setAll]
  | cons i l ih =>
    obtain ⟨hi, hl⟩ := List.nodup_cons.1 hl
    cases hm : m i with
    | none =>
      have hpairs : m.pairs culture (i :: l) = m.pairs culture l := by simp [pairs, pair, hm]
      rw [hpairs, ih hl fun j hj => ho j (List.mem_cons_of_mem _ hj)]
      refine congrArg Except.ok (funext fun j => ?_)
      by_cases hj : j = i
      · subst hj
        simp [hi, hm, ho j List.mem_cons_self]
      · simp [hj]
    | some value =>
      have hpairs : m.pairs culture (i :: l) =
          ((c.property i).tagId, format culture _ value) :: m.pairs culture l := by simp [pairs, pair, hm]
      have hconvert := convertValue_format (h.defined i value hm) (h.date i value hm)
      have hset : ∀ j ∈ l, o.set i value j = none := by
        intro j hj
        have hji : j ≠ i := by
          rintro rfl
          exact hi hj
        rw [set_of_ne hji]
        exact ho j (List.mem_cons_of_mem _ hj)
      rw [hpairs, setAll, MessageClass.find_tagId]
      simp only [hconvert]
      rw [ih hl hset]
      refine congrArg Except.ok (funext fun j => ?_)
      by_cases hj : j = i
      · subst hj
        simp [hi, hm]
      · simp [hj, set_of_ne hj]

theorem Good.fromString_pairs (h : m.Good culture) (hm : m.missing = none) :
    fromString culture c (m.pairs culture c.indices) = .ok m := by
  have hall : (fun i => if i ∈ c.indices then m i else Object.new i) = m :=
    funext fun i => if_pos (MessageClass.mem_indices i)
  have hset := h.setAll_pairs (o := new) (List.nodup_finRange c.properties.length) fun _ _ => rfl
  rw [fromString, MessageClass.indices, hset]
  change verifyRequired (fun i => if i ∈ c.indices then m i else new i) = _
  rw [hall]
  rw [verifyRequired, hm]

/-! ## ToString -/

/-- What `ToString` adds for a property that may be as it is. -/
theorem encode_eq {i : c.Index} (h : ((m i).isNone && !(c.property i).optionalTag) = false) :
    encode culture .none' m i = .ok ((m.pair culture i).toList.flatMap fun p => field p.1 p.2) := by
  rw [encode]
  cases hm : m i with
  | some value => simp [pair, hm]
  | none =>
    rw [hm, Option.isNone_none, Bool.true_and, Bool.not_eq_false'] at h
    simp [pair, hm, h]

theorem toString_complete (h : m.missing = none) : toString culture .none' m =
    .ok ((m.pairs culture c.indices).flatMap fun p => field p.1 p.2) := by
  have hencode : ∀ i ∈ c.indices, encode culture .none' m i =
      .ok ((m.pair culture i).toList.flatMap fun p => field p.1 p.2) := fun i hi =>
    encode_eq (Bool.eq_false_iff.2 (List.find?_eq_none.1 h i hi))
  rw [toString, mapM_ok hencode, Except.map]
  rw [pairs, List.filterMap_eq_flatMap_toList, List.flatMap_assoc, List.flatMap_def]

theorem toString_missing {i : c.Index} (h : m.missing = some i) : toString culture .none' m =
    .error (.fixEncode "Null value for property" (c.property i).tagId.toNat) := by
  obtain ⟨hi, l, r, hindices, hl⟩ := List.find?_eq_some_iff_append.1 h
  obtain ⟨hnone, hrequired⟩ := (Bool.and_eq_true _ _).mp hi
  have hencode : ∀ j ∈ l, encode culture .none' m j =
      .ok ((m.pair culture j).toList.flatMap fun p => field p.1 p.2) := fun j hj =>
    encode_eq (Bool.not_eq_true' _ ▸ hl j hj)
  have herror : encode culture .none' m i =
      .error (.fixEncode "Null value for property" (c.property i).tagId.toNat) := by
    rw [encode, Option.isNone_iff_eq_none.1 hnone]
    exact if_neg (by simpa using hrequired)
  rw [toString, hindices, mapM_error hencode herror]
  rfl

end Object

/-- **Round trip.** A message that lacks something required is not written: `ToString` throws for the first
such property. Any other message is read back as it was, if the culture writes its dates as they are
read. -/
theorem message_round_trip (culture : Culture Single) (m : Object Single c) (hplain : m.Each Plain)
    (hdefined : m.Each Defined) :
    (∀ i, m.missing = some i → toString culture .none' m =
      .error (.fixEncode "Null value for property" (c.property i).tagId.toNat)) ∧
    (m.missing = none → m.Each (DateInvariant culture) →
      (do fromString culture c (← toMap culture (← toString culture .none' m))) = .ok m) := by
  refine ⟨fun i => Object.toString_missing, fun hm hdate => ?_⟩
  have hgood : m.Good culture := ⟨hplain, hdefined, hdate⟩
  rw [Object.toString_complete hm]
  change (toMap culture _).bind _ = _
  rw [toMap_fields hgood.noSeparator]
  exact hgood.fromString_pairs hm

/-- The invariant culture, for a `float` that is a whole number below 2^24. -/
def Culture.whole : Culture (Fin (2 ^ 24)) where
  signs := .invariant
  formatSingle x := digits x
  parseSingle raw :=
    match parseInteger .invariant raw with
    | some (false, n) => if h : n < 2 ^ 24 then .ok ⟨n, h⟩ else .error .format
    | _ => .error .format
  formatDate := DateTime.text
  parseEnum _ _ := .error .argument
  parse_format x := by
    rw [parseInteger_digits]
    exact dif_pos x.isLt
  plain_format x := ⟨digits_ne_nil _, noSeparator_digits _⟩

/-- A logon with a heartbeat of 30. -/
def logonOf30 : Object (Fin (2 ^ 24)) logon :=
  let m : Object (Fin (2 ^ 24)) logon := Object.new.set ⟨0, by decide⟩ (0 : Int)
  m.set ⟨1, by decide⟩ (30 : UInt32)

theorem logon_read_back :
    (do fromString .whole logon (← toMap .whole (← toString .whole .none' logonOf30))) =
      .ok logonOf30 := by
  have hplain : logonOf30.Each Plain := by
    intro i value _
    match i with
    | ⟨0, _⟩ | ⟨1, _⟩ => trivial
  have hdefined : logonOf30.Each Defined := by
    intro i value hvalue
    match i with
    | ⟨0, _⟩ =>
      exact ⟨⟨"None", 0, none⟩, by decide +kernel, Option.some.inj hvalue⟩
    | ⟨1, _⟩ => trivial
  refine (message_round_trip .whole logonOf30 hplain hdefined).2 (by decide +kernel) fun i value _ => ?_
  match i with
  | ⟨0, _⟩ | ⟨1, _⟩ => trivial

/-- A logon in which nothing is set is not written. -/
theorem logon_not_written :
    toString .whole .none' (Object.new : Object (Fin (2 ^ 24)) logon) =
      .error (.fixEncode "Null value for property" 98) ∧
    (Object.new : Object (Fin (2 ^ 24)) logon).Each Plain ∧
    (Object.new : Object (Fin (2 ^ 24)) logon).Each Defined :=
  ⟨rfl, nofun, nofun⟩

end Guardian

end Fix42
