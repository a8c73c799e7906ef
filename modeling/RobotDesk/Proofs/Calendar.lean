import RobotDesk.Time.Calendar

/-!
Dates and day numbers.

Every day number is the number of a date that exists.  A group of four hundred years, which begins
in March, is taken apart into centuries, groups of four years and years; each of these has one day
more at its end at most, and the last day of a year is a leap day exactly if it has one.
-/
namespace RobotDesk.Time.Date

theorem monthLength_le (year : Int) (month : Nat) : monthLength year month ≤ 31 := by
  unfold monthLength
  split
  · split <;> decide
  · split <;> decide

/-- Months and days of a date have two digits. -/
theorem fields_of_exists? {d : Date} (h : d.exists? = true) : d.month ≤ 12 ∧ d.day ≤ 31 := by
  have hlength := monthLength_le d.year d.month
  simp only [exists?, Bool.and_eq_true, decide_eq_true_eq] at h
  omega

/-- The year of a day among four hundred years, as it is found. -/
def yearOfEra (d : Nat) : Nat := (d - d / 1460 + d / 36524 - d / 146096) / 365

/-- A day among four hundred years: its century, the group of four years and the year in it, and the
day of the year.  The last day of a long year ends a group of four years, and the last group of a
century ends with it in the last century only. -/
structure Place (d : Nat) where
  century : Nat
  group : Nat
  year : Nat
  day : Nat
  century_lt : century < 4
  group_lt : group < 25
  year_lt : year < 4
  day_le : day ≤ 365
  long : day = 365 → year = 3 ∧ (group < 24 ∨ century = 3)
  eq : d = 36524 * century + 1461 * group + 365 * year + day

namespace Place

variable {d : Nat}

/-- Every day has a place. -/
def ofDay (h : d < 146097) : Place d where
  century := min (d / 36524) 3
  group := (d - 36524 * min (d / 36524) 3) / 1461
  year := min ((d - 36524 * min (d / 36524) 3) % 1461 / 365) 3
  day := (d - 36524 * min (d / 36524) 3) % 1461 -
    365 * min ((d - 36524 * min (d / 36524) 3) % 1461 / 365) 3
  century_lt := by omega
  group_lt := by omega
  year_lt := by omega
  day_le := by omega
  long := by omega
  eq := by omega

/-- The year is found from the day. -/
theorem yearOfEra_eq (p : Place d) :
    yearOfEra d = 100 * p.century + 4 * p.group + p.year := by
  obtain ⟨century, group, year, day, hcentury, hgroup, hyear, hday, hlong, hd⟩ := p
  simp only
  by_cases hlast : century = 3 ∧ group = 24 ∧ year = 3 ∧ day = 365
  · obtain ⟨rfl, rfl, rfl, rfl⟩ := hlast
    subst hd
    rfl
  -- A fourth of the leap days so far is passed over early, at the end of a group of four years.
  obtain ⟨early, hearly⟩ : ∃ early, d / 1460 = 25 * century + group + early ∧
      (early = 0 ∧ day < 365 ∨ early = 1 ∧ 0 < day) := by
    refine ⟨d / 1460 - (25 * century + group), ?_⟩
    omega
  have hcenturies : d / 36524 = century := Nat.div_eq_of_lt_le (by omega) (by omega)
  have hwhole : d / 146096 = 0 := Nat.div_eq_of_lt (by omega)
  unfold yearOfEra
  rw [hearly.1, hcenturies, hwhole]
  omega

/-- The days of the years before this one. -/
theorem before_eq (p : Place d) : d - p.day =
    365 * (100 * p.century + 4 * p.group + p.year) + (100 * p.century + 4 * p.group + p.year) / 4
      - (100 * p.century + 4 * p.group + p.year) / 100 := by
  obtain ⟨century, group, year, day, hcentury, hgroup, hyear, -, -, hd⟩ := p
  have hleap : (100 * century + 4 * group + year) / 4 = 25 * century + group := by omega
  have hskipped : (100 * century + 4 * group + year) / 100 = century := by omega
  simp only [hleap, hskipped]
  omega

end Place

/-- The date of a day in a year that begins in March. -/
def ofMarch (year : Int) (day : Nat) : Date :=
  let marchMonth := (5 * day + 2) / 153
  let month := if marchMonth < 10 then marchMonth + 3 else marchMonth - 9
  ⟨if month ≤ 2 then year + 1 else year, month, day - (153 * marchMonth + 2) / 5 + 1⟩

theorem ofNumber_eq {n : Int} (p : Place ((n + 719468) % 146097).toNat) :
    ofNumber n = ofMarch ((n + 719468) / 146097 * 400 +
      ((100 * p.century + 4 * p.group + p.year : Nat) : Int)) p.day := by
  have hyear := p.yearOfEra_eq
  have hday : ((n + 719468) % 146097).toNat -
      (365 * yearOfEra ((n + 719468) % 146097).toNat
        + yearOfEra ((n + 719468) % 146097).toNat / 4
        - yearOfEra ((n + 719468) % 146097).toNat / 100) = p.day := by
    have heq := p.eq
    rw [hyear, ← p.before_eq]
    omega
  rw [← hday, ← hyear]
  rfl

/-- The months of a year that begins in March have the days that their place in it gives them. -/
theorem exists?_ofMarch {year : Int} {day : Nat} (hday : day ≤ 365)
    (hleap : day = 365 → isLeapYear (year + 1) = true) : (ofMarch year day).exists? = true := by
  unfold ofMarch
  generalize hm : (5 * day + 2) / 153 = m
  have hmonths : m = 0 ∨ m = 1 ∨ m = 2 ∨ m = 3 ∨ m = 4 ∨ m = 5 ∨ m = 6 ∨ m = 7 ∨ m = 8 ∨ m = 9 ∨
      m = 10 ∨ m = 11 := by omega
  rcases hmonths with rfl | rfl | rfl | rfl | rfl | rfl | rfl | rfl | rfl | rfl | rfl | rfl
  case inr.inr.inr.inr.inr.inr.inr.inr.inr.inr.inr =>
    -- February, the last month, has one day more in a leap year.
    cases hyear : isLeapYear (year + 1) <;> simp [hyear] at hleap <;>
      simp [exists?, monthLength, hyear] <;> omega
  all_goals
    simp [exists?, monthLength]
    omega

theorem number_ofMarch {era : Int} {year day : Nat} (hyear : year < 400) (hday : day ≤ 365) :
    (ofMarch (era * 400 + year) day).number =
      era * 146097 + ((365 * year + year / 4 - year / 100 : Nat) + day) - 719468 := by
  have hmonth : (5 * day + 2) / 153 ≤ 11 := by omega
  have hfirst : (153 * ((5 * day + 2) / 153) + 2) / 5 ≤ day := by omega
  have hera : (era * 400 + year) / 400 = era := by omega
  have hrest : (era * 400 + (year : Int)) % 400 = year := by omega
  unfold ofMarch number dayOfYear
  generalize (5 * day + 2) / 153 = m at hmonth hfirst
  by_cases hm : m < 10
  · have hlate : ¬ m + 3 ≤ 2 := by omega
    simp only [if_pos hm, if_neg hlate, hera, hrest]
    omega
  · have hlate : m - 9 ≤ 2 := by omega
    simp only [if_neg hm, if_pos hlate, Int.add_sub_cancel, hera, hrest]
    omega

/-- Every day number belongs to a date that exists. -/
theorem exists?_ofNumber (n : Int) : (ofNumber n).exists? = true := by
  have hday : ((n + 719468) % 146097).toNat < 146097 := by omega
  let p := Place.ofDay hday
  rw [ofNumber_eq p]
  refine exists?_ofMarch p.day_le fun hlong => ?_
  have hgroup := p.group_lt
  obtain ⟨hyear, hleap⟩ := p.long hlong
  rw [isLeapYear, Bool.and_eq_true, Bool.or_eq_true, decide_eq_true_eq, decide_eq_true_eq,
    decide_eq_true_eq]
  omega

/-- A day number is the number of its date. -/
theorem number_ofNumber (n : Int) : (ofNumber n).number = n := by
  have hday : ((n + 719468) % 146097).toNat < 146097 := by omega
  let p := Place.ofDay hday
  have hcentury := p.century_lt
  have hgroup := p.group_lt
  have hyear := p.year_lt
  have heq := p.eq
  rw [ofNumber_eq p, number_ofMarch (by omega) p.day_le, ← p.before_eq]
  omega

end RobotDesk.Time.Date
