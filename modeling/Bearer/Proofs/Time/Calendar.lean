import Bearer.Time.Calendar

namespace Bearer.Time

/-- A day of four hundred years, by century, four-year cycle, year and day of the year. What is
left over goes to the last century and to the last year of a cycle. -/
theorem era_split {d : Nat} (h : d < 146097) : ∃ a b k r : Nat, a ≤ 3 ∧ b ≤ 24 ∧ k ≤ 3 ∧
    r ≤ 365 ∧ (r = 365 → k = 3) ∧ (a < 3 → 1461 * b + 365 * k + r < 36524) ∧
    d = 36524 * a + 1461 * b + 365 * k + r := by
  obtain ⟨a, ha⟩ : ∃ a, a = min (d / 36524) 3 := ⟨_, rfl⟩
  obtain ⟨e, he⟩ : ∃ e, e = d - 36524 * a := ⟨_, rfl⟩
  obtain ⟨k, hk⟩ : ∃ k, k = min (e % 1461 / 365) 3 := ⟨_, rfl⟩
  refine ⟨a, e / 1461, k, e % 1461 - 365 * k, ?_⟩
  omega

def yearOfEra (d : Nat) : Nat := (d - d / 1460 + d / 36524 - d / 146096) / 365

theorem yearOfEra_eq {d a b k r : Nat} (ha : a ≤ 3) (hb : b ≤ 24) (hk : k ≤ 3) (hr : r ≤ 365)
    (hleap : r = 365 → k = 3) (hcentury : a < 3 → 1461 * b + 365 * k + r < 36524)
    (hd : d = 36524 * a + 1461 * b + 365 * k + r) : yearOfEra d = 100 * a + 4 * b + k := by
  have hcycles : d / 1460 = 25 * a + b + (24 * a + b + 365 * k + r) / 1460 := by omega
  have hover : (24 * a + b + 365 * k + r) / 1460 ≤ 1 := by omega
  have hcenturies : d / 36524 - d / 146096 = a ∧ d / 146096 ≤ d / 36524 := by
    -- Only the very last day belongs to no whole century.
    rcases Nat.lt_or_ge d 146096 with h | h
    · have hrest : 1461 * b + 365 * k + r < 36524 := by omega
      have hnone : d / 146096 = 0 := by omega
      have hall : d / 36524 = a := by omega
      omega
    · have hlast : d = 146096 := by omega
      have hthree : a = 3 := by omega
      omega
  unfold yearOfEra
  omega

def daysBefore (year : Nat) : Nat := 365 * year + year / 4 - year / 100

theorem yearOfEra_spec {d : Nat} (h : d < 146097) :
    yearOfEra d ≤ 399 ∧ daysBefore (yearOfEra d) ≤ d ∧ d - daysBefore (yearOfEra d) ≤ 365 := by
  obtain ⟨a, b, k, r, ha, hb, hk, hr, hleap, hcentury, hd⟩ := era_split h
  rw [yearOfEra_eq ha hb hk hr hleap hcentury hd]
  have hbefore : daysBefore (100 * a + 4 * b + k) = 36524 * a + 1461 * b + 365 * k := by
    have hcycles : (100 * a + 4 * b + k) / 4 = 25 * a + b := by omega
    have hcenturies : (100 * a + 4 * b + k) / 100 = a := by omega
    rw [daysBefore, hcycles, hcenturies]
    omega
  omega

theorem marchDays_era {year : Nat} (h : year ≤ 399) (era : Int) :
    marchDays (year + era * 400) = daysBefore year + era * 146097 - 719468 := by
  have hcycles : ((year : Int) + era * 400) / 4 = (year / 4 : Nat) + era * 100 := by omega
  have hcenturies : ((year : Int) + era * 400) / 100 = (year / 100 : Nat) + era * 4 := by omega
  have heras : ((year : Int) + era * 400) / 400 = era := by omega
  rw [marchDays, daysBefore, hcycles, hcenturies, heras]
  omega

/-- The month of a day of the year, both counted from March. -/
def monthOfYear (dayOfYear : Nat) : Nat := (5 * dayOfYear + 2) / 153

theorem monthOfYear_spec {dayOfYear : Nat} (h : dayOfYear ≤ 365) :
    monthOfYear dayOfYear ≤ 11 ∧ monthDays (monthOfYear dayOfYear) ≤ dayOfYear ∧
      dayOfYear - monthDays (monthOfYear dayOfYear) ≤ 30 := by
  unfold monthOfYear monthDays
  omega

/-- The date of a day of a month, where year, month and day count from March, from March and
from zero. -/
def Date.fromMarch (year : Int) (month day : Nat) : Date :=
  let fromJanuary := if month < 10 then month + 3 else month - 9
  ⟨if fromJanuary ≤ 2 then year + 1 else year, fromJanuary, day + 1⟩

theorem Date.toDays_fromMarch (year : Int) {month : Nat} (h : month ≤ 11) (day : Nat) :
    (fromMarch year month day).toDays = marchDays year + monthDays month + day := by
  rcases Nat.lt_or_ge month 10 with hspring | hwinter
  · have hlate : ¬ month + 3 ≤ 2 := by omega
    have hdate : fromMarch year month day = ⟨year, month + 3, day + 1⟩ := by
      simp only [fromMarch, if_pos hspring, if_neg hlate]
    have hmonth : (month + 3 + 9) % 12 = month := by omega
    simp only [hdate, toDays, if_neg hlate, hmonth]
    omega
  · have hearly : month - 9 ≤ 2 := by omega
    have hdate : fromMarch year month day = ⟨year + 1, month - 9, day + 1⟩ := by
      simp only [fromMarch, if_neg (Nat.not_lt.mpr hwinter), if_pos hearly]
    have hmonth : (month - 9 + 9) % 12 = month := by omega
    simp only [hdate, toDays, if_pos hearly, hmonth, Int.add_sub_cancel]
    omega

/-- The date of a day, by the year in which it falls if years start in March. -/
theorem Date.ofDays_eq (days : Int) : ∃ (year : Int) (month day : Nat),
    ofDays days = fromMarch year month day ∧ month ≤ 11 ∧ day ≤ 30 ∧
      monthDays month + day ≤ 365 ∧ days = marchDays year + monthDays month + day := by
  obtain ⟨d, hd⟩ : ∃ d : Nat, (d : Int) = (days + 719468) % 146097 :=
    ⟨((days + 719468) % 146097).toNat, by omega⟩
  have hera : d < 146097 := by omega
  obtain ⟨hyear, hbefore, hday⟩ := yearOfEra_spec hera
  obtain ⟨hmonth, hstart, hlast⟩ := monthOfYear_spec hday
  refine ⟨yearOfEra d + (days + 719468) / 146097 * 400,
    monthOfYear (d - daysBefore (yearOfEra d)),
    d - daysBefore (yearOfEra d) - monthDays (monthOfYear (d - daysBefore (yearOfEra d))),
    ?_, hmonth, hlast, by omega, ?_⟩
  · have hnat : ((days + 719468) % 146097).toNat = d := by omega
    simp only [ofDays, hnat]
    rfl
  · rw [marchDays_era hyear]
    omega

/-- The date of a day leads back to the day. -/
theorem Date.toDays_ofDays (days : Int) : (ofDays days).toDays = days := by
  obtain ⟨year, month, day, hdate, hmonth, -, -, hdays⟩ := ofDays_eq days
  rw [hdate, toDays_fromMarch year hmonth, hdays]

/-- The date of a day that can be told has a month, a day of it, and a year of six digits. -/
theorem Date.ofDays_bounds {days : Int} (h : days.natAbs ≤ 100000000) :
    (1 ≤ (ofDays days).month ∧ (ofDays days).month ≤ 12) ∧
      (1 ≤ (ofDays days).day ∧ (ofDays days).day ≤ 31) ∧
      (ofDays days).year.natAbs < 1000000 := by
  obtain ⟨year, month, day, hdate, hmonth, hday, hlength, hdays⟩ := ofDays_eq days
  have hyear : year.natAbs < 999999 := by
    unfold marchDays at hdays
    omega
  rw [hdate]
  simp only [fromMarch]
  refine ⟨?_, by omega, ?_⟩
  · split <;> omega
  · split <;> omega

end Bearer.Time
