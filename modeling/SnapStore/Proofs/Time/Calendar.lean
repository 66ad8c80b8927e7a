import Mathlib.Order.Monotone.Basic
import Mathlib.Tactic.IntervalCases
import SnapStore.Time.Calendar

/-!
# The calendar, day by day

`SnapStore.Date.ofDay` computes a date by divisions. Here the calendar is stated by its rules
instead: which years have a leap day (`SnapStore.Date.IsLeap`), how long the months are
(`SnapStore.Date.monthLength`), and which date follows a date (`SnapStore.Date.next`).

By these rules, day zero is the first of January 1970 and each day has the date that follows the
date of the day before (`SnapStore.Date.IsGregorian`). The computation keeps them, and nothing else
does (`SnapStore.Date.isGregorian_iff`). It is inverse to `SnapStore.Date.toDay` on the dates that
there are (`SnapStore.Date.toDay_ofDay`, `SnapStore.Date.ofDay_toDay`), and later days have later
dates (`SnapStore.Date.rank_ofDay_lt_iff`).

The bridge between the two is a date told from March on (`SnapStore.Date.ofMarch`): its month is a
matter of the day of the year alone, since a leap day ends its year.
-/

namespace SnapStore.Date

/-! ### The rules -/

/-- Whether the year has a leap day: every fourth has one, but a century only if 400 divides it. -/
def IsLeap (year : Int) : Prop := year % 4 = 0 ∧ (year % 100 = 0 → year % 400 = 0)

instance (year : Int) : Decidable (IsLeap year) := inferInstanceAs (Decidable (_ ∧ _))

/-- The number of days of a month. -/
def monthLength (year : Int) (month : Nat) : Nat :=
  if month = 2 then if IsLeap year then 29 else 28
  else if month = 4 ∨ month = 6 ∨ month = 9 ∨ month = 11 then 30
  else 31

/-- Whether the calendar has the date: the year has the month, and the month has the day. -/
structure IsValid (d : Date) : Prop where
  one_le_month : 1 ≤ d.month
  month_le : d.month ≤ 12
  one_le_day : 1 ≤ d.day
  day_le : d.day ≤ monthLength d.year d.month

instance (d : Date) : Decidable d.IsValid :=
  decidable_of_iff (1 ≤ d.month ∧ d.month ≤ 12 ∧ 1 ≤ d.day ∧ d.day ≤ monthLength d.year d.month)
    ⟨fun ⟨a, b, c, e⟩ => ⟨a, b, c, e⟩, fun ⟨a, b, c, e⟩ => ⟨a, b, c, e⟩⟩

/-- The date of the following day. -/
def next (d : Date) : Date :=
  if d.day < monthLength d.year d.month then { d with day := d.day + 1 }
  else if d.month < 12 then ⟨d.year, d.month + 1, 1⟩
  else ⟨d.year + 1, 1, 1⟩

/-- Whether days have their dates by the proleptic Gregorian calendar. -/
structure IsGregorian (dateOf : Int → Date) : Prop where
  zero : dateOf 0 = ⟨1970, 1, 1⟩
  isValid : ∀ n, (dateOf n).IsValid
  succ : ∀ n, dateOf (n + 1) = (dateOf n).next

theorem monthLength_le (year : Int) (month : Nat) : monthLength year month ≤ 31 := by
  unfold monthLength
  split <;> split <;> omega

theorem one_le_monthLength (year : Int) (month : Nat) : 1 ≤ monthLength year month := by
  unfold monthLength
  split <;> split <;> omega

theorem IsValid.next {d : Date} (h : d.IsValid) : d.next.IsValid := by
  obtain ⟨hmonth, hmonth', hday, hday'⟩ := h
  unfold Date.next
  split
  · exact ⟨hmonth, hmonth', by simp, by simpa⟩
  · split
    · exact ⟨by simp, by simpa using by omega, by simp, one_le_monthLength _ _⟩
    · exact ⟨by simp, by simp, by simp, one_le_monthLength _ _⟩

/-! ### Dates from March on -/

/-- The number of days from the first of March of the year 0 to that of the given year: the leap
day of each year counts to the year before. -/
def yearStart (year : Int) : Int := 365 * year + year / 4 - year / 100 + year / 400

/-- A date, given by the year that starts in March, the month of it, March being month 0, and the
number of days of the month before it. -/
def ofMarch (year : Int) (month day : Nat) : Date where
  year := year + if month < 10 then 0 else 1
  month := if month < 10 then month + 3 else month - 9
  day := day + 1

/-- The number of days of the year that starts in March of the given one. -/
def yearLength (year : Int) : Nat := if IsLeap (year + 1) then 366 else 365

theorem yearStart_succ (year : Int) : yearStart (year + 1) = yearStart year + yearLength year := by
  unfold yearStart yearLength
  by_cases hleap : IsLeap (year + 1)
  · rw [if_pos hleap]
    unfold IsLeap at hleap
    omega
  · rw [if_neg hleap]
    unfold IsLeap at hleap
    omega

theorem yearLength_bounds (year : Int) : 365 ≤ yearLength year ∧ yearLength year ≤ 366 := by
  unfold yearLength
  split <;> omega

theorem yearStart_lt_iff {y z : Int} : yearStart y < yearStart z ↔ y < z := by
  have hmono : StrictMono yearStart := strictMono_int_of_lt_succ fun year => by
    have hlength := yearLength_bounds year
    rw [yearStart_succ]
    omega
  exact hmono.lt_iff_lt

/-- A day lies in one year only. -/
theorem eq_of_yearStart_le {y z s : Int} (hy : yearStart y ≤ s) (hy' : s < yearStart (y + 1))
    (hz : yearStart z ≤ s) (hz' : s < yearStart (z + 1)) : y = z := by
  have hyz : y < z + 1 := yearStart_lt_iff.1 (by omega)
  have hzy : z < y + 1 := yearStart_lt_iff.1 (by omega)
  omega

/-- A day of a year lies in the month that the division finds. -/
theorem monthOfYear_eq_iff {n month : Nat} :
    monthOfYear n = month ↔ daysBeforeMonth month ≤ n ∧ n < daysBeforeMonth (month + 1) := by
  unfold monthOfYear daysBeforeMonth
  omega

/-- The months from March to January have their lengths in every year; February, the last, ends
with the year. -/
theorem monthLength_ofMarch {month : Nat} (hmonth : month < 12) (year : Int) (day : Nat) :
    monthLength (ofMarch year month day).year (ofMarch year month day).month =
      min (daysBeforeMonth (month + 1)) (yearLength year) - daysBeforeMonth month := by
  by_cases hleap : IsLeap (year + 1) <;>
    interval_cases month <;> simp [ofMarch, monthLength, daysBeforeMonth, yearLength, hleap]

theorem isValid_ofMarch_iff {month : Nat} (hmonth : month < 12) (year : Int) (day : Nat) :
    (ofMarch year month day).IsValid ↔
      daysBeforeMonth month + day < min (daysBeforeMonth (month + 1)) (yearLength year) := by
  have hlength := monthLength_ofMarch hmonth year day
  constructor
  · rintro ⟨-, -, -, hday⟩
    rw [hlength] at hday
    simp only [ofMarch] at hday
    omega
  · intro hday
    refine ⟨?_, ?_, ?_, hlength ▸ ?_⟩ <;> simp only [ofMarch]
    · split <;> omega
    · split <;> omega
    · omega
    · omega

/-- Every date can be told from March on. -/
theorem exists_ofMarch {d : Date} (h : d.IsValid) :
    ∃ year month day, month < 12 ∧ d = ofMarch year month day := by
  obtain ⟨year, month, day⟩ := d
  obtain ⟨hmonth, hmonth', hday, -⟩ := h
  simp only at hmonth hmonth' hday
  by_cases hearly : month ≤ 2
  · refine ⟨year - 1, month + 9, day - 1, by omega, ?_⟩
    simp only [ofMarch, mk.injEq]
    rw [if_neg (by omega), if_neg (by omega)]
    omega
  · refine ⟨year, month - 3, day - 1, by omega, ?_⟩
    simp only [ofMarch, mk.injEq]
    split <;> omega

/-! ### The day of a date -/

/-- An era later it is the same day of the same year. -/
theorem yearStart_era (era : Int) (year : Nat) (hyear : year ≤ 400) :
    yearStart (era * 400 + year) = era * daysPerEra + daysBeforeYear year + (year / 400 : Nat) := by
  unfold yearStart daysPerEra daysBeforeYear
  omega

theorem toDay_ofMarch {month : Nat} (hmonth : month < 12) (year : Int) (day : Nat) :
    (ofMarch year month day).toDay = yearStart year + daysBeforeMonth month + day - epoch := by
  have hyear := yearStart_era (year / 400) (year % 400).toNat (by omega)
  rw [show year / 400 * 400 + ((year % 400).toNat : Int) = year by omega,
    Nat.div_eq_of_lt (by omega)] at hyear
  by_cases hlate : month < 10
  · simp only [toDay, ofMarch, if_pos hlate, if_neg (show ¬month + 3 ≤ 2 by omega), Int.add_zero,
      Int.sub_zero, Nat.add_sub_cancel]
    omega
  · simp only [toDay, ofMarch, if_neg hlate, if_pos (show month - 9 ≤ 2 by omega),
      Int.add_sub_cancel, Nat.sub_add_cancel (show 9 ≤ month by omega)]
    omega

/-- Two dates with the same day are the same. -/
theorem eq_of_toDay_eq {d e : Date} (hd : d.IsValid) (he : e.IsValid) (h : d.toDay = e.toDay) :
    d = e := by
  obtain ⟨y, m, n, hm, rfl⟩ := exists_ofMarch hd
  obtain ⟨z, k, l, hk, rfl⟩ := exists_ofMarch he
  rw [isValid_ofMarch_iff hm] at hd
  rw [isValid_ofMarch_iff hk] at he
  rw [toDay_ofMarch hm, toDay_ofMarch hk] at h
  have hy := yearStart_succ y
  have hz := yearStart_succ z
  obtain rfl : y = z :=
    eq_of_yearStart_le (s := yearStart y + daysBeforeMonth m + n) (by omega) (by omega) (by omega)
      (by omega)
  have hfirst : monthOfYear (daysBeforeMonth m + n) = m := monthOfYear_eq_iff.2 (by omega)
  have hsecond : monthOfYear (daysBeforeMonth m + n) = k := monthOfYear_eq_iff.2 (by omega)
  obtain rfl : m = k := hfirst.symm.trans hsecond
  obtain rfl : n = l := by omega
  rfl

/-! ### The date of a day -/

/-- The division finds the year on its first day and on its last. -/
theorem yearOfEra_bounds : ∀ year < 400, yearOfEra (daysBeforeYear year) = year ∧
    yearOfEra (daysBeforeYear (year + 1) + (year + 1) / 400 - 1) = year := by
  decide +kernel

/-- The corrections never take the count back. -/
theorem yearOfEra_mono : Monotone yearOfEra := by
  refine monotone_nat_of_le_succ fun n => ?_
  unfold yearOfEra
  omega

/-- A day of an era lies in the year that the division finds. -/
theorem yearOfEra_spec {n : Nat} (hn : n < 146097) :
    yearOfEra n < 400 ∧ daysBeforeYear (yearOfEra n) ≤ n ∧
      n < daysBeforeYear (yearOfEra n + 1) + (yearOfEra n + 1) / 400 := by
  have hlast : yearOfEra n < 400 := by
    unfold yearOfEra
    omega
  refine ⟨hlast, ?_, ?_⟩
  · -- A day before the first of its year would lie in the year before.
    by_contra hlt
    obtain ⟨year, hyear⟩ : ∃ year, yearOfEra n = year + 1 :=
      Nat.exists_eq_succ_of_ne_zero fun hzero => by
        rw [hzero] at hlt
        exact hlt (Nat.zero_le n)
    rw [hyear] at hlt hlast
    have hmono := yearOfEra_mono
      (show n ≤ daysBeforeYear (year + 1) + (year + 1) / 400 - 1 by omega)
    rw [(yearOfEra_bounds year (by omega)).2] at hmono
    omega
  · -- A day after the last of its year would lie in the year after, or in the next era.
    by_contra hle
    by_cases hend : yearOfEra n = 399
    · rw [hend] at hle
      simp [daysBeforeYear] at hle
      omega
    · rw [Nat.div_eq_of_lt (by omega)] at hle
      have hmono := yearOfEra_mono (show daysBeforeYear (yearOfEra n + 1) ≤ n by omega)
      rw [(yearOfEra_bounds (yearOfEra n + 1) (by omega)).1] at hmono
      omega

/-- The year found in an era, and the day of that year. -/
theorem yearStart_yearOfEra (era : Int) {n : Nat} (hn : n < 146097) :
    yearStart (era * 400 + yearOfEra n) + (n - daysBeforeYear (yearOfEra n) : Nat) =
        era * daysPerEra + n ∧
      n - daysBeforeYear (yearOfEra n) < yearLength (era * 400 + yearOfEra n) := by
  obtain ⟨hlt, hstart, hend⟩ := yearOfEra_spec hn
  have hyear := yearStart_era era (yearOfEra n) hlt.le
  have hafter := yearStart_era era (yearOfEra n + 1) (by omega)
  have hlength := yearStart_succ (era * 400 + yearOfEra n)
  rw [Nat.div_eq_of_lt hlt] at hyear
  push_cast at hafter
  rw [← Int.add_assoc] at hafter
  omega

/-- What the divisions find, told from March on. -/
theorem ofDay_eq_ofMarch (n : Int) : ∃ year month day, month < 12 ∧
    ofDay n = ofMarch year month day ∧ (ofMarch year month day).IsValid ∧
      yearStart year + daysBeforeMonth month + day = n + epoch := by
  have hrest := Int.emod_nonneg (n + epoch) (b := daysPerEra) (by decide)
  have hrest' := Int.emod_lt_of_pos (n + epoch) (b := daysPerEra) (by decide)
  have hshifted := Int.ediv_mul_add_emod (n + epoch) daysPerEra
  have hofEra : (((n + epoch) % daysPerEra).toNat : Int) = (n + epoch) % daysPerEra :=
    Int.toNat_of_nonneg hrest
  generalize hera : (n + epoch) / daysPerEra = era at hshifted
  generalize hdayOfEra : ((n + epoch) % daysPerEra).toNat = dayOfEra at hofEra
  have hdays : daysPerEra = 146097 := rfl
  obtain ⟨hday, hlt⟩ := yearStart_yearOfEra era (n := dayOfEra) (by omega)
  have hlength := yearLength_bounds (era * 400 + yearOfEra dayOfEra)
  -- The day of the year, and with it the month, is found in the same way in every year.
  generalize hdayOfYear : dayOfEra - daysBeforeYear (yearOfEra dayOfEra) = dayOfYear at hday hlt
  obtain ⟨hmonth, hmonth'⟩ := monthOfYear_eq_iff.1 (Eq.refl (monthOfYear dayOfYear))
  have hbound : monthOfYear dayOfYear < 12 := by
    unfold monthOfYear
    omega
  refine ⟨era * 400 + yearOfEra dayOfEra, monthOfYear dayOfYear,
    dayOfYear - daysBeforeMonth (monthOfYear dayOfYear), hbound, ?_,
    (isValid_ofMarch_iff hbound _ _).2 (by omega), by omega⟩
  simp only [ofDay, hera, hdayOfEra, hdayOfYear]
  rfl

theorem isValid_ofDay (n : Int) : (ofDay n).IsValid := by
  obtain ⟨year, month, day, -, heq, hvalid, -⟩ := ofDay_eq_ofMarch n
  exact heq ▸ hvalid

/-- **The date of a day has that day.** -/
theorem toDay_ofDay (n : Int) : (ofDay n).toDay = n := by
  obtain ⟨year, month, day, hmonth, heq, -, hday⟩ := ofDay_eq_ofMarch n
  rw [heq, toDay_ofMarch hmonth]
  omega

/-- **A date is that of its day.** -/
theorem ofDay_toDay {d : Date} (h : d.IsValid) : ofDay d.toDay = d :=
  eq_of_toDay_eq (isValid_ofDay _) h (toDay_ofDay _)

/-! ### The following day -/

/-- The following date, told from March on. -/
theorem next_ofMarch {month : Nat} (hmonth : month < 12) (year : Int) (day : Nat) :
    (ofMarch year month day).next =
      if daysBeforeMonth month + day + 1 < min (daysBeforeMonth (month + 1)) (yearLength year) then
        ofMarch year month (day + 1)
      else if month < 11 then ofMarch year (month + 1) 0
      else ofMarch (year + 1) 0 0 := by
  have hlength := monthLength_ofMarch hmonth year day
  have hday : (ofMarch year month day).day = day + 1 := rfl
  by_cases hlast : daysBeforeMonth month + day + 1 <
      min (daysBeforeMonth (month + 1)) (yearLength year)
  · rw [if_pos hlast, next, if_pos (by omega)]
    rfl
  · rw [if_neg hlast, next, if_neg (by omega)]
    -- The year ends with December on the one side and with February on the other.
    simp only [ofMarch]
    interval_cases month <;> simp

/-- The day after a date is the day of the following date. -/
theorem toDay_next {d : Date} (h : d.IsValid) : d.next.toDay = d.toDay + 1 := by
  obtain ⟨year, month, day, hmonth, rfl⟩ := exists_ofMarch h
  have hyear := yearStart_succ year
  have hlength := yearLength_bounds year
  rw [isValid_ofMarch_iff hmonth] at h
  rw [next_ofMarch hmonth, toDay_ofMarch hmonth]
  split
  · rw [toDay_ofMarch hmonth]
    omega
  · split
    · -- The months before February end before the year does.
      have hbefore : daysBeforeMonth (month + 1) ≤ 337 := by
        unfold daysBeforeMonth
        omega
      rw [toDay_ofMarch (by omega)]
      omega
    · obtain rfl : month = 11 := by omega
      have hbefore : daysBeforeMonth (11 + 1) = 367 ∧ daysBeforeMonth 0 = 0 := by decide
      rw [toDay_ofMarch (by omega)]
      omega

/-- **Each day has the date that follows that of the day before.** -/
theorem ofDay_succ (n : Int) : ofDay (n + 1) = (ofDay n).next :=
  eq_of_toDay_eq (isValid_ofDay _) (isValid_ofDay n).next <| by
    rw [toDay_next (isValid_ofDay n), toDay_ofDay, toDay_ofDay]

/-- Counting days by the rules, forwards and backwards from day zero. -/
theorem IsGregorian.toDay_eq {dateOf : Int → Date} (h : IsGregorian dateOf) (n : Int) :
    (dateOf n).toDay = n := by
  induction n with
  | zero =>
    rw [h.zero]
    decide
  | succ n ih => rw [h.succ, toDay_next (h.isValid n), ih]
  | pred n ih =>
    have hnext := toDay_next (h.isValid (-n - 1))
    rw [← h.succ, Int.sub_add_cancel, ih] at hnext
    omega

/-- **The computation is the calendar**: it keeps the rules, and nothing else keeps them. -/
theorem isGregorian_iff {dateOf : Int → Date} : IsGregorian dateOf ↔ dateOf = ofDay := by
  constructor
  · intro h
    funext n
    exact eq_of_toDay_eq (h.isValid n) (isValid_ofDay n) (by rw [h.toDay_eq, toDay_ofDay])
  · rintro rfl
    exact ⟨by decide, isValid_ofDay, ofDay_succ⟩

/-! ### The order of dates -/

/-- A number that orders the dates: by year, then by month, then by day. -/
def rank (d : Date) : Int := (d.year * 13 + d.month) * 32 + d.day

theorem IsValid.rank_lt_rank_next {d : Date} (h : d.IsValid) : d.rank < d.next.rank := by
  obtain ⟨hmonth, hmonth', hday, hday'⟩ := h
  have hlength := monthLength_le d.year d.month
  unfold Date.next rank
  split
  · simp
  · split
    · simp only
      omega
    · simp only
      omega

/-- **A later day has a later date.** -/
theorem rank_ofDay_lt_iff {m n : Int} : (ofDay m).rank < (ofDay n).rank ↔ m < n := by
  have hmono : StrictMono fun n => (ofDay n).rank := strictMono_int_of_lt_succ fun n => by
    rw [ofDay_succ]
    exact (isValid_ofDay n).rank_lt_rank_next
  exact hmono.lt_iff_lt

/-- A year begins on the first of January. -/
theorem le_year_ofDay_iff (year n : Int) : year ≤ (ofDay n).year ↔ toDay ⟨year, 1, 1⟩ ≤ n := by
  obtain ⟨hmonth, hmonth', hday, hday'⟩ := isValid_ofDay n
  have hlength := monthLength_le (ofDay n).year (ofDay n).month
  have hfirst : IsValid ⟨year, 1, 1⟩ := ⟨by simp, by simp, by simp, one_le_monthLength _ _⟩
  have hrank := rank_ofDay_lt_iff (m := n) (n := toDay ⟨year, 1, 1⟩)
  rw [ofDay_toDay hfirst] at hrank
  simp only [rank] at hrank
  omega

end SnapStore.Date
