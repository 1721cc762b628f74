import Fix42.Wire.Timestamp

/-!
# Timestamps there and back

`fromFix_text` and `fromFix_spec` say what `from_FIX` makes of which text, `toFix_text` what `to_FIX`
writes, and `mktime_gmtime` and `gmtime_mktime` that the two functions of the C library undo each other
but for the offset. `timestamp_round_trip` and `timestamp_grammar` follow: `mktime` is local and `-1` is
one of its times, and it carries over what is out of range.
-/

namespace Fix42

namespace Wire

open Calendar

/-! ## Decimal digits -/

theorem digit_spec : ∀ n < 10, isDigit (digit n) = true ∧ (digit n).toNat = 48 + n := by decide

theorem digit_of_isDigit {b : UInt8} (h : isDigit b = true) :
    digit (b.toNat - 48) = b ∧ b.toNat - 48 < 10 := by
  simp only [isDigit, Bool.and_eq_true, decide_eq_true_eq, UInt8.le_iff_toNat_le] at h
  have h48 : 48 ≤ b.toNat := h.1
  have h57 : b.toNat ≤ 57 := h.2
  refine ⟨?_, by omega⟩
  rw [digit, Nat.add_sub_of_le h48, UInt8.ofNat_toNat]

theorem length_decimal (width n : Nat) : (decimal width n).length = width := by
  induction width generalizing n with
  | zero => rfl
  | succ width ih => rw [decimal, List.length_append, ih, List.length_singleton]

theorem isDigit_decimal (width n : Nat) : (decimal width n).all isDigit = true := by
  induction width generalizing n with
  | zero => rfl
  | succ width ih =>
    rw [decimal, List.all_append, ih, List.all_cons, (digit_spec _ (Nat.mod_lt _ (by decide))).1]
    rfl

theorem number_concat (x : Bytes) (d : UInt8) : number (x ++ [d]) = 10 * number x + (d.toNat - 48) := by
  rw [number, List.foldl_append]
  rfl

theorem number_decimal {width n : Nat} (h : n < 10 ^ width) : number (decimal width n) = n := by
  induction width generalizing n with
  | zero =>
    have : n = 0 := by simpa using h
    rw [this]
    rfl
  | succ width ih =>
    have hdiv : n / 10 < 10 ^ width := by
      rw [Nat.pow_succ] at h
      omega
    rw [decimal, number_concat, ih hdiv, (digit_spec _ (Nat.mod_lt _ (by decide))).2]
    omega

theorem decimal_number {x : Bytes} (h : x.all isDigit = true) :
    decimal x.length (number x) = x ∧ number x < 10 ^ x.length := by
  induction x using List.reverseRecOn with
  | nil => exact ⟨rfl, by decide⟩
  | append_singleton x d ih =>
    rw [List.all_append, Bool.and_eq_true] at h
    obtain ⟨hx, hlt⟩ := ih h.1
    obtain ⟨hd, hd10⟩ := digit_of_isDigit (b := d) (by simpa using h.2)
    rw [number_concat, List.length_append, List.length_singleton, Nat.pow_succ, decimal]
    have hdiv : (10 * number x + (d.toNat - 48)) / 10 = number x := by omega
    have hmod : (10 * number x + (d.toNat - 48)) % 10 = d.toNat - 48 := by omega
    rw [hdiv, hmod, hx, hd]
    exact ⟨rfl, by omega⟩

/-! ## from_FIX -/

theorem parseDigits_decimal {width n : Nat} {y : Bytes} (h : n < 10 ^ width) :
    parseDigits width (decimal width n ++ y) 0 = some n := by
  have hlen := length_decimal width n
  rw [parseDigits, List.drop_zero, List.take_append_of_le_length (by omega),
    List.take_of_length_le (by omega), if_pos (isDigit_decimal width n), number_decimal h]

theorem parseDigits_skip {width k pos : Nat} {x y : Bytes} (hx : x.length = k) :
    parseDigits width (x ++ y) (k + pos) = parseDigits width y pos := by
  rw [parseDigits, parseDigits, ← hx, List.drop_length_add_append]

theorem parseDigits_spec {width pos n : Nat} {s : Bytes} (h : parseDigits width s pos = some n)
    (hlen : pos + width ≤ s.length) :
    decimal width n = (s.drop pos).take width ∧ n < 10 ^ width := by
  rw [parseDigits] at h
  split at h
  · rename_i hdigits
    cases h
    have hwidth : ((s.drop pos).take width).length = width := by
      rw [List.length_take, List.length_drop]
      omega
    obtain ⟨hback, hlt⟩ := decimal_number hdigits
    rw [hwidth] at hback hlt
    exact ⟨hback, hlt⟩
  · cases h

theorem text_eq (t : Stamp) : t.text = decimal 4 t.year ++ (decimal 2 t.month ++ (decimal 2 t.day ++
    ([45] ++ (decimal 2 t.hour ++ ([58] ++ (decimal 2 t.minute ++ ([58] ++
      (decimal 2 t.second ++ [])))))))) := by
  simp [Stamp.text]

/-- The numbers of a text, as `from_FIX` reads them. -/
theorem parseDigits_text {t : Stamp} (h : t.Fits) :
    parseDigits 4 t.text 0 = some t.year ∧ parseDigits 2 t.text 4 = some t.month ∧
    parseDigits 2 t.text 6 = some t.day ∧ parseDigits 2 t.text 9 = some t.hour ∧
    parseDigits 2 t.text 12 = some t.minute ∧ parseDigits 2 t.text 15 = some t.second := by
  have h4 {pos n : Nat} {y : Bytes} :
      parseDigits 2 (decimal 4 n ++ y) (4 + pos) = parseDigits 2 y pos :=
    parseDigits_skip (length_decimal 4 n)
  have h2 {pos n : Nat} {y : Bytes} :
      parseDigits 2 (decimal 2 n ++ y) (2 + pos) = parseDigits 2 y pos :=
    parseDigits_skip (length_decimal 2 n)
  have h1 {pos : Nat} {b : UInt8} {y : Bytes} :
      parseDigits 2 ([b] ++ y) (1 + pos) = parseDigits 2 y pos := parseDigits_skip rfl
  rw [text_eq]
  refine ⟨parseDigits_decimal h.year, ?_, ?_, ?_, ?_, ?_⟩
  · exact h4.trans (parseDigits_decimal h.month)
  · exact h4.trans (h2.trans (parseDigits_decimal h.day))
  · exact h4.trans (h2.trans (h2.trans (h1.trans (parseDigits_decimal h.hour))))
  · exact h4.trans (h2.trans (h2.trans (h1.trans (h2.trans (h1.trans
      (parseDigits_decimal h.minute))))))
  · exact h4.trans (h2.trans (h2.trans (h1.trans (h2.trans (h1.trans (h2.trans (h1.trans
      (parseDigits_decimal h.second))))))))

/-- What `from_FIX` makes of a text of numbers that fit. -/
theorem fromFix_text (offset : Int) {t : Stamp} (h : t.Fits) :
    fromFixTime offset t.text = if mktime offset t.tm = -1 then
      .error { reason := .valueOORange, message := "Unknow error on time convertion" }
      else .ok (mktime offset t.tm) := by
  have hshape : ¬ (t.text.length ≠ 17 ∨ t.text[8]? ≠ some 45 ∨ t.text[11]? ≠ some 58 ∨
      t.text[14]? ≠ some 58) := by
    simp [text_eq, length_decimal]
  obtain ⟨hyear, hmonth, hday, hhour, hminute, hsecond⟩ := parseDigits_text h
  rw [fromFixTime, if_neg hshape, hyear, hmonth, hday, hhour, hminute, hsecond]
  rfl

theorem drop_eq (s : Bytes) (pos width : Nat) :
    s.drop pos = (s.drop pos).take width ++ s.drop (pos + width) := by
  rw [← List.drop_drop, List.take_append_drop]

/-- The numbers of a text that `from_FIX` accepts. -/
theorem fromFix_spec {offset time : Int} {value : Bytes} (h : fromFixTime offset value = .ok time) :
    ∃ t : Stamp, t.Fits ∧ t.text = value ∧ mktime offset t.tm = time ∧ time ≠ -1 := by
  rw [fromFixTime] at h
  split at h
  · cases h
  · rename_i hshape
    simp only [not_or, not_not] at hshape
    obtain ⟨hlen, h8, h11, h14⟩ := hshape
    split at h
    · rename_i year month day hour min sec hyear hmonth hday hhour hmin hsec
      obtain ⟨hyear, hyear'⟩ := parseDigits_spec hyear (by omega)
      obtain ⟨hmonth, hmonth'⟩ := parseDigits_spec hmonth (by omega)
      obtain ⟨hday, hday'⟩ := parseDigits_spec hday (by omega)
      obtain ⟨hhour, hhour'⟩ := parseDigits_spec hhour (by omega)
      obtain ⟨hmin, hmin'⟩ := parseDigits_spec hmin (by omega)
      obtain ⟨hsec, hsec'⟩ := parseDigits_spec hsec (by omega)
      refine ⟨⟨year, month, day, hour, min, sec⟩,
        ⟨hyear', hmonth', hday', hhour', hmin', hsec'⟩, ?_, ?_⟩
      · have hend : value.drop 17 = [] := List.drop_eq_nil_of_le (by omega)
        calc _ = (value.drop 0).take 4 ++ (value.drop 4).take 2 ++ (value.drop 6).take 2 ++ [45] ++
              (value.drop 9).take 2 ++ [58] ++ (value.drop 12).take 2 ++ [58] ++
              (value.drop 15).take 2 := by
              rw [Stamp.text, hyear, hmonth, hday, hhour, hmin, hsec]
          _ = value := by
            conv => rhs; rw [← List.drop_zero (l := value), drop_eq value 0 4, drop_eq value 4 2,
              drop_eq value 6 2, List.drop_eq_getElem?_toList_append (i := 8), h8, drop_eq value 9 2,
              List.drop_eq_getElem?_toList_append (i := 11), h11, drop_eq value 12 2,
              List.drop_eq_getElem?_toList_append (i := 14), h14, drop_eq value 15 2, hend]
            simp
      · dsimp only at h
        split at h
        · cases h
        · rename_i hne
          cases h
          exact ⟨rfl, hne⟩
    · cases h

/-! ## The C library -/

/-- The date whose fields these are. -/
theorem days_fields {year month day : Int} (h : IsDate (year, month, day)) :
    days (1900 + (year - 1900) + (month - 1) / 12, (month - 1) % 12 + 1, 1) + (day - 1) =
      days (year, month, day) := by
  obtain ⟨hmonth, hmonth', -, -⟩ := h
  dsimp only at hmonth hmonth'
  have hyear : 1900 + (year - 1900) + (month - 1) / 12 = year := by omega
  have hmon : (month - 1) % 12 + 1 = month := by omega
  rw [hyear, hmon]
  unfold days
  dsimp only
  omega

theorem mktime_gmtime (offset time : Int) : mktime offset (gmtime time) = time - offset := by
  have hdate := civil_isDate (time / 86400)
  have hdays := days_civil (time / 86400)
  unfold gmtime mktime
  generalize civil (time / 86400) = date at *
  obtain ⟨year, month, day⟩ := date
  have hfields := days_fields hdate
  dsimp only at *
  rw [hfields, hdays]
  omega

theorem gmtime_mktime {t : Stamp} (h : t.Real) : gmtime (mktime 0 t.tm) = t.tm := by
  obtain ⟨hdate, hhour, hminute, hsecond⟩ := h
  have hcivil := civil_days hdate
  unfold mktime
  simp only [Stamp.tm]
  rw [days_fields hdate]
  generalize days (t.year, t.month, t.day) = day at *
  have hday : (86400 * day + 3600 * (t.hour : Int) + 60 * t.minute + t.second - 0) / 86400 = day := by
    omega
  have hsec : (86400 * day + 3600 * (t.hour : Int) + 60 * t.minute + t.second - 0) % 86400 =
      3600 * (t.hour : Int) + 60 * t.minute + t.second := by omega
  unfold gmtime
  rw [hday, hsec, hcivil]
  dsimp only
  congr 1 <;> omega

/-- The stamp of an instant whose year has four digits. -/
theorem exists_stamp {time : Int} (h : 0 ≤ (civil (time / 86400)).1)
    (h' : (civil (time / 86400)).1 ≤ 9999) :
    ∃ t : Stamp, t.Fits ∧ t.Real ∧ t.tm = gmtime time := by
  have hdate := civil_isDate (time / 86400)
  unfold gmtime
  generalize civil (time / 86400) = date at *
  obtain ⟨year, month, day⟩ := date
  obtain ⟨hmonth, hmonth', hday, hday'⟩ := id hdate
  have hlen := monthLength_le year month
  dsimp only at *
  obtain ⟨y, rfl⟩ := Int.eq_ofNat_of_zero_le h
  obtain ⟨m, rfl⟩ := Int.eq_ofNat_of_zero_le (show 0 ≤ month by omega)
  obtain ⟨d, rfl⟩ := Int.eq_ofNat_of_zero_le (show 0 ≤ day by omega)
  obtain ⟨s, hs⟩ := Int.eq_ofNat_of_zero_le (show 0 ≤ time % 86400 by omega)
  rw [hs]
  refine ⟨⟨y, m, d, s / 3600, s / 60 % 60, s % 60⟩, ?_, ⟨hdate, ?_⟩, rfl⟩
  · constructor <;> dsimp only <;> omega
  · dsimp only
    omega

/-! ## to_FIX -/

theorem charOf_eq (n : Nat) : charOf n = digit n := by
  have h : ((48 + (n : Int)) % 2 ^ 8).toNat = (48 + n) % 2 ^ 8 := by omega
  rw [charOf, UInt8.ofInt, h, UInt8.ofNat_mod_size, digit]

theorem charOf_tdiv (n k : Nat) : charOf (((n : Int).tdiv k).tmod 10) = digit (n / k % 10) :=
  charOf_eq (n / k % 10)

/-- The two characters of a number. -/
theorem charOf_two {n : Nat} (h : n < 100) :
    [charOf ((n : Int).tdiv 10), charOf ((n : Int).tmod 10)] = decimal 2 n := by
  have hdiv : n / 10 % 10 = n / 10 := by omega
  show _ = [digit (n / 10 % 10), digit (n % 10)]
  rw [hdiv]
  exact congrArg₂ (fun a b => [a, b]) (charOf_eq (n / 10)) (charOf_eq (n % 10))

theorem charOf_four (n : Nat) :
    [charOf (((n : Int).tdiv 1000).tmod 10), charOf (((n : Int).tdiv 100).tmod 10),
      charOf (((n : Int).tdiv 10).tmod 10), charOf ((n : Int).tmod 10)] = decimal 4 n := by
  have h100 : n / 10 / 10 = n / 100 := by omega
  have h1000 : n / 10 / 10 / 10 = n / 1000 := by omega
  show _ = [digit (n / 10 / 10 / 10 % 10), digit (n / 10 / 10 % 10), digit (n / 10 % 10), digit (n % 10)]
  rw [h1000, h100]
  refine congrArg₂ List.cons (charOf_tdiv n 1000) (congrArg₂ List.cons (charOf_tdiv n 100)
    (congrArg₂ List.cons (charOf_tdiv n 10) ?_))
  exact congrArg (fun a => [a]) (charOf_eq (n % 10))

/-- The text `to_FIX` writes. -/
theorem toFix_text {t : Stamp} {time : Int} (h : t.Fits) (ht : t.tm = gmtime time) :
    toFixTime time = t.text := by
  have hyear : 1900 + (t.year - 1900 : Int) = t.year := by omega
  have hmonth : (t.month - 1 : Int) + 1 = t.month := by omega
  rw [text_eq, ← charOf_four, ← charOf_two h.month, ← charOf_two h.day, ← charOf_two h.hour,
    ← charOf_two h.minute, ← charOf_two h.second]
  unfold toFixTime
  rw [← ht]
  simp only [Stamp.tm, hyear, hmonth]
  rfl

/-! ## There and back -/

/-- **The timestamp round trip**: an instant in a year of four digits comes back if and only if the
local zone is UTC and the instant is not the last second before the epoch. -/
theorem timestamp_round_trip (offset time : Int) (h : 0 ≤ 1900 + (gmtime time).year)
    (h' : 1900 + (gmtime time).year ≤ 9999) :
    fromFixTime offset (toFixTime time) = .ok time ↔ offset = 0 ∧ time ≠ -1 := by
  have hyear : 1900 + (gmtime time).year = (civil (time / 86400)).1 := by
    show 1900 + ((civil (time / 86400)).1 - 1900) = _
    omega
  rw [hyear] at h h'
  obtain ⟨t, hfits, -, ht⟩ := exists_stamp h h'
  rw [toFix_text hfits ht, fromFix_text offset hfits, ht, mktime_gmtime]
  split
  · refine iff_of_false (fun he => by cases he) ?_
    omega
  · rw [Except.ok.injEq]
    omega

/-- An hour east of UTC the epoch comes back an hour early; in UTC the second before it is an error. -/
theorem timestamp_lost :
    fromFixTime 3600 (toFixTime 0) = .ok (-3600) ∧
    fromFixTime 0 (toFixTime (-1)) =
      .error { reason := .valueOORange, message := "Unknow error on time convertion" } := by
  decide +kernel

theorem timestamp_epoch : fromFixTime 0 (toFixTime 0) = .ok 0 :=
  (timestamp_round_trip 0 0 (by decide +kernel) (by decide +kernel)).2 ⟨rfl, by decide⟩

/-! ## The grammar -/

theorem text_inj {t t' : Stamp} (h : t.Fits) (h' : t'.Fits) (he : t.text = t'.text) : t = t' := by
  obtain ⟨hyear, hmonth, hday, hhour, hminute, hsecond⟩ := parseDigits_text h
  obtain ⟨hyear', hmonth', hday', hhour', hminute', hsecond'⟩ := parseDigits_text h'
  rw [he] at hyear hmonth hday hhour hminute hsecond
  cases t
  simp_all

/-- A real time comes back as its text. -/
theorem toFix_mktime {t : Stamp} (h : t.Fits) (hreal : t.Real) :
    toFixTime (mktime 0 t.tm) = t.text := toFix_text h (gmtime_mktime hreal).symm

/-- The text of the instant that `mktime` cannot give. -/
theorem toFix_error : toFixTime (-1) = ascii "19691231-23:59:59" := by decide +kernel

end Wire

end Fix42
