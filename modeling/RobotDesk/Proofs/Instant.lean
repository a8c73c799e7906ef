import RobotDesk.Time.Timestamp

/-!
Timestamps as points of a line.

Outside leap seconds a timestamp is a number of nanoseconds, the duration between two timestamps is
the difference of their numbers, the order of timestamps is the order of the numbers, and a duration
is added to the number.  The order itself is linear on all timestamps, inside leap seconds too.

With leap seconds between them, whole seconds that have passed from one timestamp to another can
still be added to the first, since the latest timestamp lies outside a leap second.
-/
namespace RobotDesk.Time.Timestamp

theorem compare_eq_lt_iff (a b : Timestamp) :
    a.compare b = .lt ↔ a.day < b.day ∨ a.day = b.day ∧
      (a.second < b.second ∨ a.second = b.second ∧ a.nano < b.nano) := by
  simp [compare, Ordering.then_eq_lt, Std.compare_eq_lt]

theorem compare_eq_eq_iff (a b : Timestamp) : a.compare b = .eq ↔ a = b := by
  cases a
  cases b
  simp [compare, Ordering.then_eq_eq]

theorem compare_eq_gt_iff (a b : Timestamp) : a.compare b = .gt ↔ b.compare a = .lt := by
  rw [compare_eq_lt_iff]
  simp [compare, Ordering.then_eq_gt, Std.compare_eq_gt]
  omega

/-- A time of day that exists, outside leap seconds. -/
structure Regular (t : Timestamp) : Prop where
  second : t.second < 86400
  nano : t.nano < nanosPerSecond

instance (t : Timestamp) : Decidable t.Regular :=
  decidable_of_iff (t.second < 86400 ∧ t.nano < nanosPerSecond)
    ⟨fun h => ⟨h.1, h.2⟩, fun h => ⟨h.second, h.nano⟩⟩

/-- Nanoseconds since the day with number zero, leap seconds aside. -/
def instant (t : Timestamp) : Int := (t.day * 86400 + t.second) * 1000000000 + t.nano

theorem isLeap_eq_false {t : Timestamp} (h : t.Regular) : t.isLeap = false := by
  have hn := h.nano
  simp only [isLeap, decide_eq_false_iff_not]
  omega

theorem since_eq {a b : Timestamp} (ha : a.Regular) (hb : b.Regular) :
    a.since b = a.instant - b.instant := by
  have hs : a.since b = seconds ((a.day - b.day) * 86400 + ((a.second : Int) - b.second)) +
      ((a.nano : Int) - b.nano) := by
    simp [since, isLeap_eq_false ha, isLeap_eq_false hb]
  rw [hs]
  change (_ : Int) = _
  simp only [seconds, instant]
  omega

theorem before_iff {a b : Timestamp} (ha : a.Regular) (hb : b.Regular) :
    a.before b = true ↔ a.instant < b.instant := by
  have h₁ := ha.second
  have h₂ := ha.nano
  have h₃ := hb.second
  have h₄ := hb.nano
  simp only [before, decide_eq_true_eq, compare_eq_lt_iff, instant, nanosPerSecond] at *
  omega

/-- A timestamp that is not before another one has at least as much time behind it. -/
theorem since_le_since {a b t : Timestamp} (ha : a.Regular) (hb : b.Regular) (ht : t.Regular)
    (h : b.before a = false) : a.since t ≤ b.since t := by
  have hle : ¬ b.instant < a.instant := by
    rw [← before_iff hb ha]
    simp [h]
  rw [since_eq ha ht, since_eq hb ht]
  exact Int.sub_le_sub_right (Int.not_lt.mp hle) _

/-- Less time has passed since a timestamp that is not before another one. -/
theorem since_le_since_left {a b t : Timestamp} (ha : a.Regular) (hb : b.Regular) (ht : t.Regular)
    (h : b.before a = false) : t.since b ≤ t.since a := by
  have hle : ¬ b.instant < a.instant := by
    rw [← before_iff hb ha]
    simp [h]
  rw [since_eq ht ha, since_eq ht hb]
  exact Int.sub_le_sub_left (Int.not_lt.mp hle) _

/-- Nanoseconds in a day. -/
def nanosPerDay : Int := 86400 * 1000000000

/-- Seconds and nanoseconds that are added apart come to the same as nanoseconds added at once. -/
theorem parts_add (t : Timestamp) (q r : Int) :
    let moved := t.instant + (1000000000 * q + r)
    let total := t.second + q + (t.nano + r) / 1000000000
    t.day + total / 86400 = moved / nanosPerDay ∧ total % 86400 = moved / 1000000000 % 86400 ∧
      (t.nano + r) % 1000000000 = moved % 1000000000 := by
  simp only [instant, nanosPerDay]
  omega

/-- A regular timestamp is moved by moving its number; only the range of days is in the way. -/
theorem add?_eq {t : Timestamp} (ht : t.Regular) (d : Duration) : t.add? d =
    let moved := t.instant + d
    if dayInRange (moved / nanosPerDay) then
      some ⟨moved / nanosPerDay, (moved / 1000000000 % 86400).toNat, (moved % 1000000000).toNat⟩
    else none := by
  obtain ⟨hday, hsecond, hnano⟩ := parts_add t (d.tdiv 1000000000) (d.tmod 1000000000)
  rw [Int.mul_tdiv_add_tmod] at hday hsecond hnano
  have hn : ((1000000000 : Nat) : Int) = 1000000000 := rfl
  simp only [add?, staysInLeap, shifted, isLeap_eq_false ht, nanosPerSecond, hn, Bool.false_and,
    Bool.false_eq_true, if_false, hday, hsecond, hnano]

/-- A regular timestamp stays regular, and moves by the duration. -/
theorem instant_of_add? {t u : Timestamp} (ht : t.Regular) {d : Duration} (h : t.add? d = some u) :
    u.Regular ∧ u.instant = t.instant + d := by
  rw [add?_eq ht] at h
  generalize hm : t.instant + d = moved at h
  simp only at h
  split at h
  · cases h
    refine ⟨⟨?_, ?_⟩, ?_⟩
    · simp only
      omega
    · simp only [nanosPerSecond]
      omega
    · simp only [instant, nanosPerDay]
      omega
  · cases h

/-- The timestamps that can be reached have no gap. -/
theorem isSome_add?_of_between {t : Timestamp} (ht : t.Regular) {c d e : Duration} (hcd : c ≤ d)
    (hde : d ≤ e) (hc : (t.add? c).isSome) (he : (t.add? e).isSome) : (t.add? d).isSome := by
  have hday (d : Duration) : (t.add? d).isSome = dayInRange ((t.instant + d) / nanosPerDay) := by
    rw [add?_eq ht]
    simp only
    split <;> simp [*]
  have hlow : (t.instant + c) / nanosPerDay ≤ (t.instant + d) / nanosPerDay :=
    Int.ediv_le_ediv (by decide) (Int.add_le_add_left hcd _)
  have hhigh : (t.instant + d) / nanosPerDay ≤ (t.instant + e) / nanosPerDay :=
    Int.ediv_le_ediv (by decide) (Int.add_le_add_left hde _)
  rw [hday] at *
  simp only [dayInRange, Bool.and_eq_true, decide_eq_true_eq] at *
  omega

/-- A timestamp that exists: a time of day in the range of days, maybe inside a leap second, and not
after the latest one. -/
structure Valid (t : Timestamp) : Prop where
  day : dayInRange t.day = true
  second : t.second < 86400
  nano : t.nano < 2 * nanosPerSecond
  notLate : latest.before t = false

/-- Seconds since the day with number zero, leap seconds aside. -/
def wholeSeconds (t : Timestamp) : Int := t.day * 86400 + t.second

theorem shifted_seconds {t : Timestamp} (ht : t.nano < 2 * nanosPerSecond) {k : Nat} (hk : 0 < k) :
    t.shifted (seconds k) = ((t.second : Int) + k, ((t.nano % nanosPerSecond : Nat) : Int)) := by
  have hwhole : (seconds k).tdiv nanosPerSecond = k := Int.mul_tdiv_cancel _ (by decide)
  have hpart : (seconds k).tmod nanosPerSecond = 0 := Int.mul_tmod_left _ _
  have hleaves : (0 : Int) < k := by omega
  simp only [shifted, hwhole, hpart, hleaves, true_or, if_true, Int.add_zero]
  by_cases hleap : nanosPerSecond ≤ t.nano
  · have hnano : t.nano % nanosPerSecond = t.nano - nanosPerSecond := by
      rw [Nat.mod_eq_sub_mod hleap, Nat.mod_eq_of_lt (by omega)]
    have hisLeap : t.isLeap = true := decide_eq_true hleap
    rw [if_pos hisLeap, hnano, Int.ofNat_sub hleap]
  · have hnano : t.nano % nanosPerSecond = t.nano := Nat.mod_eq_of_lt (by omega)
    rw [if_neg (by simpa [isLeap] using hleap), hnano]

/-- Whole seconds are added to the second of the day; a leap second counts as the one before it. -/
theorem add?_seconds {t : Timestamp} (ht : t.nano < 2 * nanosPerSecond) {k : Nat} (hk : 0 < k) :
    t.add? (seconds k) =
      if dayInRange ((t.wholeSeconds + k) / 86400) then
        some ⟨(t.wholeSeconds + k) / 86400, ((t.wholeSeconds + k) % 86400).toNat,
          t.nano % nanosPerSecond⟩
      else none := by
  have hstays : t.staysInLeap (seconds k) = false := by
    have hwhole : (seconds k).tdiv nanosPerSecond = k := Int.mul_tdiv_cancel _ (by decide)
    have hne : k ≠ 0 := by omega
    simp [staysInLeap, hwhole, hne]
  have hnano : t.nano % nanosPerSecond < nanosPerSecond := Nat.mod_lt _ (by decide)
  have hzero : ((t.nano % nanosPerSecond : Nat) : Int) / nanosPerSecond = 0 :=
    Int.ediv_eq_zero_of_lt (Int.natCast_nonneg _) (Int.ofNat_lt.mpr hnano)
  have hsame : ((t.nano % nanosPerSecond : Nat) : Int) % nanosPerSecond =
      (t.nano % nanosPerSecond : Nat) :=
    Int.emod_eq_of_lt (Int.natCast_nonneg _) (Int.ofNat_lt.mpr hnano)
  have hday : t.day + ((t.second : Int) + k) / 86400 = (t.wholeSeconds + k) / 86400 := by
    simp only [wholeSeconds]
    omega
  have hsecond : ((t.second : Int) + k) % 86400 = (t.wholeSeconds + k) % 86400 := by
    simp only [wholeSeconds]
    omega
  simp only [add?, hstays, shifted_seconds ht hk, hzero, hsame, Int.add_zero, hday, hsecond,
    Bool.false_eq_true, if_false, Int.toNat_natCast]

theorem wholeSeconds_of_add? {t u : Timestamp} (ht : t.nano < 2 * nanosPerSecond) {k : Nat}
    (hk : 0 < k) (h : t.add? (seconds k) = some u) :
    u.wholeSeconds = t.wholeSeconds + k ∧ u.second < 86400 := by
  rw [add?_seconds ht hk] at h
  split at h
  · cases h
    constructor
    · generalize t.wholeSeconds + k = total
      simp only [wholeSeconds]
      omega
    · simp only
      omega
  · cases h

theorem before_of_wholeSeconds {t u : Timestamp} (ht : t.second < 86400) (hu : u.second < 86400)
    (h : t.wholeSeconds < u.wholeSeconds) : t.before u = true := by
  simp only [wholeSeconds] at h
  simp only [before, decide_eq_true_eq, compare_eq_lt_iff]
  omega

/-- The whole seconds until a timestamp, its own leap second included. -/
def secondsPassed (t : Timestamp) : Int := t.wholeSeconds + if t.isLeap then 1 else 0

theorem isLeap_iff (t : Timestamp) : t.isLeap = true ↔ nanosPerSecond ≤ t.nano := by simp [isLeap]

/-- The last second of all is no leap second. -/
theorem Valid.secondsPassed_le {t : Timestamp} (h : t.Valid) :
    t.secondsPassed ≤ lastDay * 86400 + 86399 := by
  have hlate := h.notLate
  have hday := h.day
  have hsecond := h.second
  simp only [before, decide_eq_false_iff_not, compare_eq_lt_iff, latest] at hlate
  simp only [dayInRange, Bool.and_eq_true, decide_eq_true_eq] at hday
  simp only [secondsPassed, wholeSeconds, isLeap_iff, nanosPerSecond]
  split <;> omega

/-- If whole seconds have passed between two timestamps, then at least so many have been counted. -/
theorem add_le_secondsPassed {t now : Timestamp} (hnow : now.nano < 2 * nanosPerSecond) {k : Nat}
    (h : seconds k ≤ now.since t) : t.wholeSeconds + k ≤ now.secondsPassed := by
  simp only [since, seconds, isLeap_iff, nanosPerSecond] at h
  simp only [secondsPassed, wholeSeconds, isLeap_iff, nanosPerSecond] at *
  -- Durations are integers; said so, they are seen by the arithmetic.
  change (k : Int) * 1000000000 ≤ (_ : Int) at h
  grind

/-- What has passed until a timestamp that exists can be added, also where leap seconds lie
between. -/
theorem isSome_add?_of_since {t now : Timestamp} (ht : t.Valid) (hnow : now.Valid) {k : Nat}
    (hk : 0 < k) (h : seconds k ≤ now.since t) : (t.add? (seconds k)).isSome = true := by
  have hreach := add_le_secondsPassed hnow.nano h
  have hlast := hnow.secondsPassed_le
  have hday := ht.day
  have hrange : dayInRange ((t.wholeSeconds + k) / 86400) = true := by
    simp only [dayInRange, Bool.and_eq_true, decide_eq_true_eq] at hday ⊢
    simp only [wholeSeconds] at *
    omega
  rw [add?_seconds ht.nano hk, if_pos hrange]
  rfl

end RobotDesk.Time.Timestamp
