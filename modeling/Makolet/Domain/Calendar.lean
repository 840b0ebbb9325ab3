import Mathlib.Data.Nat.Init
import Makolet.Domain.Datetimes

/-!
# Wall times as numbers

The arithmetic of `datetime`: a wall time as its microseconds since the first day of the year one,
and the wall time of such a number. Years, months and the time of day are each read back from what
is left over, so the two directions are inverse to each other (`wallTimeAt_stamp`,
`stamp_wallTimeAt`).
-/

set_option autoImplicit false

namespace Makolet.Domain

open Makolet.Lib

/-! ## Days -/

/-- The days before a year. -/
def daysBeforeYear (year : Nat) : Nat :=
  (year - 1) * 365 + (year - 1) / 4 - (year - 1) / 100 + (year - 1) / 400

/-- The days before a month of its year, by the months before it. -/
def daysBeforeMonth (year : Nat) : Nat → Nat
  | 0 | 1 => 0
  | month + 2 => daysBeforeMonth year (month + 1) + daysIn year (month + 1)

/-- The days of a date since the first day of the year one. -/
def dayNumber (year month day : Nat) : Nat :=
  daysBeforeYear year + daysBeforeMonth year month + (day - 1)

/-- The year of a day, with the days since the first of that year. -/
def yearAt (n : Nat) : Nat × Nat :=
  let n400 := n / 146097
  let rest400 := n % 146097
  let n100 := min 3 (rest400 / 36524)
  let rest100 := rest400 - n100 * 36524
  let n4 := rest100 / 1461
  let rest4 := rest100 % 1461
  let n1 := min 3 (rest4 / 365)
  (n400 * 400 + n100 * 100 + n4 * 4 + n1 + 1, rest4 - n1 * 365)

/-- The month and the day of the month, from the given month on, with so many months left. -/
def monthAt (year : Nat) : Nat → Nat → Nat → Nat × Nat
  | 0, month, n => (month, n + 1)
  | left + 1, month, n =>
    if n < daysIn year month then (month, n + 1)
    else monthAt year left (month + 1) (n - daysIn year month)

def daysInYear (year : Nat) : Nat :=
  if year % 4 = 0 ∧ (year % 100 ≠ 0 ∨ year % 400 = 0) then 366 else 365

/-- The days before a year, by the year's place in its four centuries. -/
theorem daysBeforeYear_eq {a b c d : Nat} (hb : b ≤ 3) (hc : c ≤ 24) (hd : d ≤ 3) :
    daysBeforeYear (a * 400 + b * 100 + c * 4 + d + 1) =
      a * 146097 + b * 36524 + c * 1461 + d * 365 := by
  unfold daysBeforeYear
  omega

theorem yearAt_eq {year n : Nat} (hyear : 1 ≤ year) (hn : n < daysInYear year) :
    yearAt (daysBeforeYear year + n) = (year, n) := by
  obtain ⟨a, b, c, d, hb, hc, hd, rfl⟩ : ∃ a b c d, b ≤ 3 ∧ c ≤ 24 ∧ d ≤ 3 ∧
      year = a * 400 + b * 100 + c * 4 + d + 1 :=
    ⟨(year - 1) / 400, (year - 1) % 400 / 100, (year - 1) % 100 / 4, (year - 1) % 4, by omega,
      by omega, by omega, by omega⟩
  -- The last year of a century has its leap day only in the fourth one.
  have hdays : n < 366 ∧ (n = 365 → d = 3 ∧ (c = 24 → b = 3)) := by
    unfold daysInYear at hn
    split at hn <;> omega
  rw [daysBeforeYear_eq hb hc hd]
  unfold yearAt
  simp only [Prod.mk.injEq]
  obtain ⟨h400, hrest⟩ : (a * 146097 + b * 36524 + c * 1461 + d * 365 + n) / 146097 = a ∧
      (a * 146097 + b * 36524 + c * 1461 + d * 365 + n) % 146097 =
        b * 36524 + c * 1461 + d * 365 + n :=
    (Nat.div_mod_unique (by decide)).mpr ⟨by omega, by omega⟩
  rw [h400, hrest]
  have h100 : min 3 ((b * 36524 + c * 1461 + d * 365 + n) / 36524) = b := by omega
  rw [h100]
  have hrest100 : b * 36524 + c * 1461 + d * 365 + n - b * 36524 = c * 1461 + d * 365 + n := by omega
  rw [hrest100]
  obtain ⟨h4, hrest4⟩ : (c * 1461 + d * 365 + n) / 1461 = c ∧
      (c * 1461 + d * 365 + n) % 1461 = d * 365 + n :=
    (Nat.div_mod_unique (by decide)).mpr ⟨by omega, by omega⟩
  rw [h4, hrest4]
  omega

/-- The year of a day is one, the day lies in it, and nothing is lost. -/
theorem yearAt_spec (n : Nat) :
    1 ≤ (yearAt n).1 ∧ (yearAt n).2 < daysInYear (yearAt n).1 ∧
      daysBeforeYear (yearAt n).1 + (yearAt n).2 = n := by
  obtain ⟨a, m, hm, rfl⟩ : ∃ a m, m < 146097 ∧ n = m + 146097 * a :=
    ⟨n / 146097, n % 146097, Nat.mod_lt _ (by decide), (Nat.mod_add_div n 146097).symm⟩
  obtain ⟨h400, hrest⟩ : (m + 146097 * a) / 146097 = a ∧ (m + 146097 * a) % 146097 = m :=
    (Nat.div_mod_unique (by decide)).mpr ⟨rfl, hm⟩
  obtain ⟨b, m, hb, hm, hbm, rfl⟩ : ∃ b k, b = min 3 (m / 36524) ∧ k ≤ 36524 ∧
      (k = 36524 → b = 3) ∧ m = k + b * 36524 :=
    ⟨min 3 (m / 36524), m - min 3 (m / 36524) * 36524, rfl, by omega, by omega, by omega⟩
  obtain ⟨c, k, hk, rfl⟩ : ∃ c k, k < 1461 ∧ m = k + 1461 * c :=
    ⟨m / 1461, m % 1461, Nat.mod_lt _ (by decide), (Nat.mod_add_div m 1461).symm⟩
  obtain ⟨h4, hrest4⟩ : (k + 1461 * c) / 1461 = c ∧ (k + 1461 * c) % 1461 = k :=
    (Nat.div_mod_unique (by decide)).mpr ⟨rfl, hk⟩
  have hyear : yearAt (k + 1461 * c + b * 36524 + 146097 * a) =
      (a * 400 + b * 100 + c * 4 + min 3 (k / 365) + 1, k - min 3 (k / 365) * 365) := by
    unfold yearAt
    simp only [h400, hrest, ← hb, Nat.add_sub_cancel, h4, hrest4]
  rw [hyear]
  obtain ⟨d, hd, hlow, hhigh⟩ : ∃ d, d = min 3 (k / 365) ∧ d * 365 ≤ k ∧ k - d * 365 ≤ 365 ∧
      (k - d * 365 = 365 → d = 3) :=
    ⟨min 3 (k / 365), rfl, by omega, by omega, by omega⟩
  rw [← hd]
  have hb3 : b ≤ 3 := by omega
  have hd3 : d ≤ 3 := by omega
  have hc : c ≤ 24 := by omega
  clear hb hd hyear h400 hrest h4 hrest4
  refine ⟨by omega, ?_, ?_⟩
  · -- The last day of a leap year is the last one of four years, and of a century only in the
    -- fourth one.
    dsimp only
    unfold daysInYear
    split
    · omega
    · rename_i hleap
      by_contra hlast
      obtain rfl : d = 3 := by omega
      have hk : k = 1460 := by omega
      refine hleap ⟨by omega, ?_⟩
      by_cases hcentury : c = 24
      · exact .inr (by omega)
      · exact .inl (by omega)
  · have hbefore := daysBeforeYear_eq (a := a) hb3 hc hd3
    dsimp only
    rw [hbefore]
    omega

/-! ## Months -/

theorem daysBeforeMonth_succ (year : Nat) {month : Nat} (h : 1 ≤ month) :
    daysBeforeMonth year (month + 1) = daysBeforeMonth year month + daysIn year month := by
  cases month with
  | zero => exact absurd h (Nat.not_succ_le_zero 0)
  | succ month => rfl

theorem daysBeforeMonth_mono (year : Nat) {a b : Nat} (ha : 1 ≤ a) (h : a ≤ b) :
    daysBeforeMonth year a ≤ daysBeforeMonth year b := by
  induction b, h using Nat.le_induction with
  | base => exact Nat.le_refl _
  | succ b hab ih =>
    rw [daysBeforeMonth_succ year (Nat.le_trans ha hab)]
    exact Nat.le_trans ih (Nat.le_add_right _ _)

theorem daysBeforeMonth_thirteen (year : Nat) : daysBeforeMonth year 13 = daysInYear year := by
  by_cases hleap : year % 4 = 0 ∧ (year % 100 ≠ 0 ∨ year % 400 = 0)
  · simp [daysBeforeMonth, daysIn, daysInYear, hleap]
  · simp only [daysBeforeMonth, daysIn, daysInYear, if_neg hleap]
    rfl

/-- A date is found from any month before it. -/
theorem monthAt_eq (year left : Nat) {start month day : Nat} (hstart : 1 ≤ start) (hmonth : start ≤ month)
    (hleft : month < start + left) (hday : day < daysIn year month) :
    monthAt year left start (daysBeforeMonth year month - daysBeforeMonth year start + day) =
      (month, day + 1) := by
  induction left generalizing start with
  | zero => omega
  | succ left ih =>
    rcases Nat.lt_or_eq_of_le hmonth with hlt | rfl
    · have hmono := daysBeforeMonth_mono year (Nat.le_succ_of_le hstart) hlt
      rw [daysBeforeMonth_succ year hstart] at hmono
      have hlater := ih (Nat.le_succ_of_le hstart) hlt (by omega)
      rw [daysBeforeMonth_succ year hstart] at hlater
      rw [monthAt, if_neg (by omega)]
      rw [show daysBeforeMonth year month - daysBeforeMonth year start + day - daysIn year start =
        daysBeforeMonth year month - (daysBeforeMonth year start + daysIn year start) + day by omega]
      exact hlater
    · rw [Nat.sub_self, Nat.zero_add, monthAt, if_pos hday]

/-- The date of a day of the year is one, and nothing is lost. -/
theorem monthAt_spec {year : Nat} (left : Nat) {start n : Nat} (hstart : 1 ≤ start) (hleft : start + left = 13)
    (hn : daysBeforeMonth year start + n < daysInYear year) :
    (start ≤ (monthAt year left start n).1 ∧ (monthAt year left start n).1 ≤ 12) ∧
      (1 ≤ (monthAt year left start n).2 ∧
        (monthAt year left start n).2 ≤ daysIn year (monthAt year left start n).1) ∧
      daysBeforeMonth year (monthAt year left start n).1 + ((monthAt year left start n).2 - 1) =
        daysBeforeMonth year start + n := by
  induction left generalizing start n with
  | zero =>
    obtain rfl : start = 13 := hleft
    rw [daysBeforeMonth_thirteen] at hn
    omega
  | succ left ih =>
    rw [monthAt]
    split
    · rename_i hlt
      exact ⟨⟨Nat.le_refl _, by omega⟩, ⟨Nat.le_add_left 1 n, hlt⟩, rfl⟩
    · rename_i hge
      have hnext := daysBeforeMonth_succ year hstart
      obtain ⟨hmonth, hday, hsame⟩ := @ih (start + 1) (n - daysIn year start)
        (Nat.le_succ_of_le hstart) (by omega) (by omega)
      exact ⟨⟨by omega, hmonth.2⟩, hday, by omega⟩

/-! ## Wall times -/

/-- The microseconds of a wall time since the first day of the year one. -/
def WallTime.stamp (w : WallTime) : Nat :=
  (((dayNumber w.year w.month w.day * 24 + w.hour) * 60 + w.minute) * 60 + w.second) * 1000000 +
    w.microsecond

/-- The wall time of so many microseconds. -/
def wallTimeAt (stamp : Nat) : WallTime :=
  let seconds := stamp / 1000000
  let days := seconds / 86400
  let year := (yearAt days).1
  let date := monthAt year 12 1 (yearAt days).2
  { year := year
    month := date.1
    day := date.2
    hour := seconds / 3600 % 24
    minute := seconds / 60 % 60
    second := seconds % 60
    microsecond := stamp % 1000000 }

/-- Every wall time that `datetime` accepts is read back from its number. -/
theorem wallTimeAt_stamp {w : WallTime} (hw : w.Valid) : wallTimeAt w.stamp = w := by
  obtain ⟨⟨hyear, -⟩, ⟨hmonth, hmonth'⟩, ⟨hday, hday'⟩, hhour, hminute, hsecond, hmicrosecond⟩ := hw
  set d := dayNumber w.year w.month w.day with hd
  have hseconds : w.stamp / 1000000 = ((d * 24 + w.hour) * 60 + w.minute) * 60 + w.second := by
    unfold WallTime.stamp
    omega
  have hdays : (((d * 24 + w.hour) * 60 + w.minute) * 60 + w.second) / 86400 = d := by omega
  have hinyear : daysBeforeMonth w.year w.month + (w.day - 1) < daysInYear w.year := by
    have hmono := daysBeforeMonth_mono w.year (Nat.le_add_left 1 w.month)
      (Nat.succ_le_succ hmonth')
    rw [daysBeforeMonth_thirteen, daysBeforeMonth_succ w.year hmonth] at hmono
    omega
  have hyearAt : yearAt d = (w.year, daysBeforeMonth w.year w.month + (w.day - 1)) := by
    rw [hd, dayNumber, Nat.add_assoc, yearAt_eq hyear hinyear]
  have hmonthAt : monthAt w.year 12 1 (daysBeforeMonth w.year w.month + (w.day - 1)) =
      (w.month, w.day) := by
    have hfound := monthAt_eq w.year 12 (Nat.le_refl 1) hmonth (by omega)
      (show w.day - 1 < daysIn w.year w.month by omega)
    rw [show daysBeforeMonth w.year 1 = 0 from rfl, Nat.sub_zero] at hfound
    rw [hfound, Nat.sub_add_cancel hday]
  unfold wallTimeAt
  simp only [hseconds, hdays, hyearAt, hmonthAt]
  cases w with
  | mk year month day hour minute second microsecond =>
    simp only [WallTime.mk.injEq, true_and]
    unfold WallTime.stamp
    dsimp only at *
    omega

/-- The wall time of a number has that number. -/
theorem stamp_wallTimeAt (n : Nat) : (wallTimeAt n).stamp = n := by
  obtain ⟨-, hrest, hyear⟩ := yearAt_spec (n / 1000000 / 86400)
  obtain ⟨-, ⟨hday, -⟩, hmonth⟩ := monthAt_spec 12 (Nat.le_refl 1) rfl
    (show daysBeforeMonth (yearAt (n / 1000000 / 86400)).1 1 + (yearAt (n / 1000000 / 86400)).2 < _
      by rw [show daysBeforeMonth _ 1 = 0 from rfl, Nat.zero_add]; exact hrest)
  rw [show daysBeforeMonth _ 1 = 0 from rfl, Nat.zero_add] at hmonth
  have hnumber : dayNumber (wallTimeAt n).year (wallTimeAt n).month (wallTimeAt n).day =
      n / 1000000 / 86400 := by
    rw [dayNumber, Nat.add_assoc]
    exact (congrArg (daysBeforeYear _ + ·) hmonth).trans hyear
  rw [WallTime.stamp, hnumber]
  show (((n / 1000000 / 86400 * 24 + n / 1000000 / 3600 % 24) * 60 + n / 1000000 / 60 % 60) * 60 +
    n / 1000000 % 60) * 1000000 + n % 1000000 = n
  omega

end Makolet.Domain
