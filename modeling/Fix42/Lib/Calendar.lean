import Mathlib.Data.Int.Basic

/-!
# The calendar

Days counted from the epoch, 1970-01-01, and the dates of the Gregorian calendar, which is taken to
hold at all times. `civil` gives the date of a day and `days` the day of a date; they are inverse to
each other on real dates (`days_civil`, `civil_days`).
-/

namespace Fix42

/-- Year, month and day of a day counted from the epoch. Years start in March, so that the leap day
comes last; 400 years are 146097 days. -/
def civil (day : Int) : Int × Int × Int :=
  let z := day + 719468
  let dayOfEra := z % 146097
  let yearOfEra := (dayOfEra - dayOfEra / 1460 + dayOfEra / 36524 - dayOfEra / 146096) / 365
  let dayOfYear := dayOfEra - (365 * yearOfEra + yearOfEra / 4 - yearOfEra / 100)
  let month := (5 * dayOfYear + 2) / 153
  let year := yearOfEra + z / 146097 * 400
  (if month < 10 then year else year + 1, if month < 10 then month + 3 else month - 9,
    dayOfYear - (153 * month + 2) / 5 + 1)

namespace Calendar

def Leap (year : Int) : Prop := year % 4 = 0 ∧ (year % 100 ≠ 0 ∨ year % 400 = 0)

instance (year : Int) : Decidable (Leap year) := inferInstanceAs (Decidable (_ ∧ _))

def monthLength (year month : Int) : Int :=
  if month = 2 then if Leap year then 29 else 28
  else if month = 4 ∨ month = 6 ∨ month = 9 ∨ month = 11 then 30 else 31

theorem monthLength_le (year month : Int) : monthLength year month ≤ 31 := by
  unfold monthLength
  repeat' split
  all_goals omega

/-- The date is in the calendar. -/
def IsDate (date : Int × Int × Int) : Prop :=
  1 ≤ date.2.1 ∧ date.2.1 ≤ 12 ∧ 1 ≤ date.2.2 ∧ date.2.2 ≤ monthLength date.1 date.2.1

instance (date : Int × Int × Int) : Decidable (IsDate date) := inferInstanceAs (Decidable (_ ∧ _))

/-- The days of an era before a year of it, both counted from March. -/
def yearStart (year : Int) : Int := 365 * year + year / 4 - year / 100

/-- The days of a year before a month of it, both counted from March. -/
def monthStart (month : Int) : Int := (153 * month + 2) / 5

/-- The day of a date, counted from the epoch. -/
def days (date : Int × Int × Int) : Int :=
  let year := if date.2.1 ≤ 2 then date.1 - 1 else date.1
  let month := if date.2.1 ≤ 2 then date.2.1 + 9 else date.2.1 - 3
  year / 400 * 146097 + yearStart (year % 400) + monthStart month + date.2.2 - 1 - 719468

/-! ## The years of an era -/

/-- The year in which a day of an era lies, as `civil` computes it. -/
def yearOfEra (day : Int) : Int := (day - day / 1460 + day / 36524 - day / 146096) / 365

/-- The day `u` of the year `y` of an era; only a leap year has a last day of number 365. -/
def InEra (y u : Int) : Prop :=
  0 ≤ y ∧ y < 400 ∧ 0 ≤ u ∧ u ≤ 365 ∧ (u = 365 → Leap (y + 1))

/-- A year by its century, its four years and its place in them. -/
theorem year_parts {y : Int} (h : 0 ≤ y ∧ y < 400) : ∃ a b t : Int, y = 100 * a + 4 * b + t ∧
    0 ≤ a ∧ a ≤ 3 ∧ 0 ≤ b ∧ b ≤ 24 ∧ 0 ≤ t ∧ t ≤ 3 :=
  ⟨y / 100, y % 100 / 4, y % 4, by omega, by omega, by omega, by omega, by omega, by omega, by omega⟩

theorem yearStart_parts {a b t : Int} (hb : 0 ≤ b ∧ b ≤ 24) (ht : 0 ≤ t ∧ t ≤ 3) :
    yearStart (100 * a + 4 * b + t) = 36524 * a + 1461 * b + 365 * t := by
  unfold yearStart
  omega

theorem yearOfEra_eq {y u : Int} (h : InEra y u) : yearOfEra (yearStart y + u) = y := by
  obtain ⟨hy, hy', hu, hu', hleap⟩ := h
  obtain ⟨a, b, t, rfl, ha, ha', hb, hb', ht, ht'⟩ := year_parts ⟨hy, hy'⟩
  rw [yearStart_parts ⟨hb, hb'⟩ ⟨ht, ht'⟩]
  have hlast : u = 365 → t = 3 ∧ (b = 24 → a = 3) := by
    intro hu
    obtain ⟨h4, h100⟩ := hleap hu
    omega
  obtain ⟨c, hc⟩ : ∃ c, c = 24 * a + b + 365 * t + u := ⟨_, rfl⟩
  have hcycles : (36524 * a + 1461 * b + 365 * t + u) / 1460 = 25 * a + b + c / 1460 := by omega
  by_cases hend : 36524 * a + 1461 * b + 365 * t + u = 146096
  · rw [hend]
    have hparts : a = 3 ∧ b = 24 ∧ t = 3 := by omega
    rw [hparts.1, hparts.2.1, hparts.2.2]
    decide
  · have hcenturies : (36524 * a + 1461 * b + 365 * t + u) / 36524 = a := by omega
    have hera : (36524 * a + 1461 * b + 365 * t + u) / 146096 = 0 := by omega
    -- A leap day is taken off once a cycle, from its last year.
    have hfirst : u = 0 → c / 1460 = 0 := by omega
    have hlast' : u = 365 → c / 1460 = 1 := by omega
    have hcycle : 0 ≤ c / 1460 ∧ c / 1460 ≤ 1 := by omega
    rw [yearOfEra, hcycles, hcenturies, hera]
    omega

/-- Each day of an era is in one of its years. -/
theorem exists_year {n : Int} (h : 0 ≤ n ∧ n < 146097) : ∃ y u, InEra y u ∧ n = yearStart y + u := by
  obtain ⟨a, r, hn, ha, ha', hr, hr', hlast⟩ : ∃ a r : Int, n = 36524 * a + r ∧ 0 ≤ a ∧ a ≤ 3 ∧
      0 ≤ r ∧ r ≤ 36524 ∧ (r = 36524 → a = 3) :=
    ⟨min (n / 36524) 3, n - 36524 * min (n / 36524) 3, by omega, by omega, by omega, by omega,
      by omega, by omega⟩
  obtain ⟨b, s, hr0, hb, hb', hs, hs'⟩ : ∃ b s : Int, r = 1461 * b + s ∧ 0 ≤ b ∧ b ≤ 24 ∧ 0 ≤ s ∧
      s ≤ 1460 := ⟨r / 1461, r % 1461, by omega, by omega, by omega, by omega, by omega⟩
  obtain ⟨t, u, hs0, ht, ht', hu, hu', hleap⟩ : ∃ t u : Int, s = 365 * t + u ∧ 0 ≤ t ∧ t ≤ 3 ∧
      0 ≤ u ∧ u ≤ 365 ∧ (u = 365 → t = 3) :=
    ⟨min (s / 365) 3, s - 365 * min (s / 365) 3, by omega, by omega, by omega, by omega, by omega,
      by omega⟩
  refine ⟨100 * a + 4 * b + t, u, ⟨by omega, by omega, hu, hu', fun h365 => ?_⟩, ?_⟩
  · unfold Leap
    omega
  · rw [yearStart_parts ⟨hb, hb'⟩ ⟨ht, ht'⟩]
    omega

theorem InEra.range {y u : Int} (h : InEra y u) : 0 ≤ yearStart y + u ∧ yearStart y + u < 146097 := by
  obtain ⟨hy, hy', hu, hu', hleap⟩ := h
  have hlast : y = 399 ∨ yearStart y + 365 < 146097 := by
    unfold yearStart
    omega
  unfold yearStart at *
  omega

/-! ## The months of a year -/

/-- The month in which a day of a year lies, both counted from March. -/
def monthOfYear (u : Int) : Int := (5 * u + 2) / 153

theorem monthOfYear_spec {u : Int} (h : 0 ≤ u ∧ u ≤ 365) : 0 ≤ monthOfYear u ∧ monthOfYear u ≤ 11 ∧
    monthStart (monthOfYear u) ≤ u ∧ u < monthStart (monthOfYear u + 1) := by
  unfold monthStart monthOfYear
  omega

theorem monthOfYear_eq {m d : Int} (hd : 0 ≤ d)
    (hlt : monthStart m + d < monthStart (m + 1)) : monthOfYear (monthStart m + d) = m := by
  unfold monthStart monthOfYear at *
  omega

/-- The lengths of the months, from March on; February ends the year. -/
theorem monthLength_march {m : Int} (hm : 0 ≤ m ∧ m ≤ 10) (year : Int) :
    monthLength year (if m < 10 then m + 3 else m - 9) = monthStart (m + 1) - monthStart m := by
  have h : m = 0 ∨ m = 1 ∨ m = 2 ∨ m = 3 ∨ m = 4 ∨ m = 5 ∨ m = 6 ∨ m = 7 ∨ m = 8 ∨ m = 9 ∨ m = 10 := by
    omega
  rcases h with rfl | rfl | rfl | rfl | rfl | rfl | rfl | rfl | rfl | rfl | rfl <;> rfl

/-! ## Days and dates -/

theorem civil_unfold {day n era y u : Int} (hn : (day + 719468) % 146097 = n)
    (hera : (day + 719468) / 146097 = era) (hy : yearOfEra n = y) (hu : n - yearStart y = u) :
    civil day = (if monthOfYear u < 10 then y + era * 400 else y + era * 400 + 1,
      if monthOfYear u < 10 then monthOfYear u + 3 else monthOfYear u - 9,
      u - monthStart (monthOfYear u) + 1) := by
  subst hn hera hy hu
  rfl

theorem civil_eq {y u : Int} (era : Int) (h : InEra y u) :
    civil (era * 146097 + yearStart y + u - 719468) =
      (if monthOfYear u < 10 then y + era * 400 else y + era * 400 + 1,
        if monthOfYear u < 10 then monthOfYear u + 3 else monthOfYear u - 9,
        u - monthStart (monthOfYear u) + 1) := by
  have hrange := h.range
  exact civil_unfold (n := yearStart y + u) (by omega) (by omega) (yearOfEra_eq h) (by omega)

/-- Each day, by its era and its place in it. -/
theorem exists_day (day : Int) :
    ∃ era y u, InEra y u ∧ day = era * 146097 + yearStart y + u - 719468 := by
  obtain ⟨y, u, h, hn⟩ := exists_year (n := (day + 719468) % 146097) (by omega)
  exact ⟨(day + 719468) / 146097, y, u, h, by omega⟩

theorem civil_isDate (day : Int) : IsDate (civil day) := by
  obtain ⟨era, y, u, h, rfl⟩ := exists_day day
  obtain ⟨-, -, hu, hu', hleap⟩ := id h
  obtain ⟨hm, hm', hstart, hend⟩ := monthOfYear_spec ⟨hu, hu'⟩
  rw [civil_eq era h]
  generalize monthOfYear u = m at *
  by_cases hfeb : m = 11
  · subst hfeb
    have hlast : u = 365 → Leap (y + era * 400 + 1) := by
      intro h365
      have := hleap h365
      unfold Leap at *
      omega
    have h337 : monthStart 11 = 337 := rfl
    show IsDate (y + era * 400 + 1, 2, u - monthStart 11 + 1)
    rw [h337] at hstart ⊢
    refine ⟨show (1 : Int) ≤ 2 by decide, show (2 : Int) ≤ 12 by decide, ?_, ?_⟩
    · show 1 ≤ u - 337 + 1
      omega
    · show u - 337 + 1 ≤ if Leap (y + era * 400 + 1) then 29 else 28
      split
      · omega
      · rename_i hcommon
        have : u ≠ 365 := fun h365 => hcommon (hlast h365)
        omega
  · have hlen := monthLength_march (m := m) (by omega)
      (if m < 10 then y + era * 400 else y + era * 400 + 1)
    unfold IsDate
    dsimp only
    rw [hlen]
    refine ⟨by split <;> omega, by split <;> omega, by omega, by omega⟩

theorem days_civil (day : Int) : days (civil day) = day := by
  obtain ⟨era, y, u, h, rfl⟩ := exists_day day
  obtain ⟨hy, hy', hu, hu', -⟩ := id h
  obtain ⟨hm, hm', -, -⟩ := monthOfYear_spec ⟨hu, hu'⟩
  rw [civil_eq era h]
  generalize monthOfYear u = m at *
  have hyear : (y + era * 400) / 400 = era ∧ (y + era * 400) % 400 = y := by omega
  unfold days
  dsimp only
  by_cases h10 : m < 10
  · rw [if_pos h10, if_pos h10, if_neg (by omega), if_neg (by omega), hyear.1, hyear.2,
      Int.add_sub_cancel]
    omega
  · rw [if_neg h10, if_neg h10, if_pos (by omega), if_pos (by omega), Int.add_sub_cancel, hyear.1,
      hyear.2, Int.sub_add_cancel]
    omega

/-- The last day of February is in the calendar in leap years only. -/
theorem IsDate.dayOfYear {year month day m : Int} (h : IsDate (year, month, day))
    (hm : 0 ≤ m ∧ m ≤ 11) (hmonth : month = if m < 10 then m + 3 else m - 9) :
    monthStart m + (day - 1) < monthStart (m + 1) ∧ monthStart m + (day - 1) ≤ 365 ∧
      (monthStart m + (day - 1) = 365 → m = 11 ∧ Leap year) := by
  obtain ⟨-, -, hday, hlen⟩ := h
  dsimp only at hday hlen
  by_cases hfeb : m = 11
  · subst hfeb
    obtain rfl : month = 2 := hmonth
    have h337 : monthStart 11 = 337 ∧ monthStart (11 + 1) = 367 := ⟨rfl, rfl⟩
    rw [h337.1, h337.2]
    rw [monthLength, if_pos rfl] at hlen
    split at hlen
    · rename_i hleap
      exact ⟨by omega, by omega, fun _ => ⟨rfl, hleap⟩⟩
    · exact ⟨by omega, by omega, fun h365 => by omega⟩
  · rw [hmonth, monthLength_march (by omega)] at hlen
    have hlast : monthStart (m + 1) ≤ 337 := by
      unfold monthStart
      omega
    exact ⟨by omega, by omega, fun h365 => by omega⟩

/-- A date with its year and its month counted from March, and its day by them. -/
theorem days_march (year : Int) {month : Int} (day : Int) (hmonth : 1 ≤ month ∧ month ≤ 12) :
    ∃ y m : Int, 0 ≤ m ∧ m ≤ 11 ∧ month = (if m < 10 then m + 3 else m - 9) ∧
      year = (if m < 10 then y else y + 1) ∧ days (year, month, day) =
        y / 400 * 146097 + yearStart (y % 400) + (monthStart m + (day - 1)) - 719468 := by
  by_cases hm : month ≤ 2
  · refine ⟨year - 1, month + 9, by omega, by omega, ?_, ?_, ?_⟩
    · rw [if_neg (by omega)]
      omega
    · rw [if_neg (by omega)]
      omega
    · unfold days
      dsimp only
      rw [if_pos hm, if_pos hm]
      omega
  · refine ⟨year, month - 3, by omega, by omega, ?_, ?_, ?_⟩
    · rw [if_pos (by omega)]
      omega
    · rw [if_pos (by omega)]
    · unfold days
      dsimp only
      rw [if_neg hm, if_neg hm]
      omega

theorem civil_days {date : Int × Int × Int} (h : IsDate date) : civil (days date) = date := by
  obtain ⟨year, month, day⟩ := date
  have hday : 1 ≤ day := h.2.2.1
  obtain ⟨y, m, hm0, hm11, hmonth, hyear, hdays⟩ := days_march year day ⟨h.1, h.2.1⟩
  obtain ⟨hend, h365, hleap⟩ := h.dayOfYear ⟨hm0, hm11⟩ hmonth
  have hera : InEra (y % 400) (monthStart m + (day - 1)) := by
    have hstart : 0 ≤ monthStart m := by
      unfold monthStart
      omega
    refine ⟨by omega, by omega, by omega, h365, fun hlast => ?_⟩
    obtain ⟨rfl, hleap⟩ := hleap hlast
    unfold Leap at *
    omega
  rw [hdays, civil_eq _ hera, monthOfYear_eq (by omega) hend, ← hmonth]
  refine Prod.ext ?_ (Prod.ext rfl ?_)
  · rw [hyear]
    show (if m < 10 then y % 400 + y / 400 * 400 else y % 400 + y / 400 * 400 + 1) = _
    rw [Int.emod_add_ediv_mul]
  · show monthStart m + (day - 1) - monthStart m + 1 = day
    omega

end Calendar

end Fix42
