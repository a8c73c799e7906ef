import RobotDesk.OData.Row
import RobotDesk.Proofs.TimestampText

/-!
Times in the rows of the orchestrator.

A time is read in the internet form, which has an offset, or in a form without one.  The text of a
timestamp is in the first form if its year has four digits, and in the second when its last mark is
taken off; the text at another offset tells the date and the time of day there, which lie minutes
earlier or later, maybe on another day or in another year.  Where both forms are read, they are read
alike up to the place of the offset, so that no text is in both.
-/
namespace RobotDesk

namespace Time

open Text

namespace Reading

/-- The digits that are read where a number must have so many of them. -/
theorem exactly?_eq_some {count n : Nat} {cs r : List Char} (h : exactly? count cs = some (n, r)) :
    (cs.take count).takeWhile Char.isDigit = cs.take count ∧ (cs.take count).length = count ∧
      n = ofDigits (cs.take count) ∧ r = cs.drop count := by
  unfold exactly? at h
  simp only at h
  split at h
  · rename_i hlength
    obtain ⟨rfl, rfl⟩ := Prod.mk.inj (Option.some.inj h)
    have hprefix : (cs.take count).takeWhile Char.isDigit <+: cs.take count :=
      List.takeWhile_prefix _
    have hle : (cs.take count).length ≤ count := List.length_take_le _ _
    have hall : (cs.take count).takeWhile Char.isDigit = cs.take count :=
      hprefix.eq_of_length_le (by omega)
    rw [hall] at hlength ⊢
    exact ⟨rfl, hlength, rfl, rfl⟩
  · cases h

/-- A number with all of its digits is also read where it may have fewer. -/
theorem digits?_of_exactly? {count n : Nat} {cs r : List Char} (hcount : 0 < count)
    (h : exactly? count cs = some (n, r)) : digits? count cs = some (n, r) := by
  obtain ⟨hdigits, hlength, rfl, rfl⟩ := exactly?_eq_some h
  have hne : cs.take count ≠ [] := List.ne_nil_of_length_pos (by omega)
  unfold digits?
  simp only [hdigits, List.isEmpty_iff, hne, if_false, hlength]

/-- Such a number begins with a digit. -/
theorem head_of_exactly? {count n : Nat} {cs r : List Char} (hcount : 0 < count)
    (h : exactly? count cs = some (n, r)) : ∃ d rest, cs = d :: rest ∧ d.isDigit = true := by
  obtain ⟨hdigits, hlength, -, -⟩ := exactly?_eq_some h
  cases cs with
  | nil =>
    simp at hlength
    omega
  | cons d rest =>
    refine ⟨d, rest, rfl, ?_⟩
    have hmem : d ∈ ((d :: rest).take count).takeWhile Char.isDigit := by
      rw [hdigits, List.take_cons hcount]
      exact List.mem_cons_self
    exact List.all_eq_true.mp List.all_takeWhile d hmem

theorem field?_of_exactly? {n : Nat} {cs r : List Char} (h : exactly? 2 cs = some (n, r)) :
    field? cs = some (n, r) := by
  obtain ⟨d, rest, rfl, hd⟩ := head_of_exactly? (by decide) h
  rw [field?, skipBlanks_cons_of_not (isBlank_of_isDigit hd)]
  exact digits?_of_exactly? (by decide) h

theorem year?_of_exactly? {n : Nat} {cs r : List Char} (h : exactly? 4 cs = some (n, r)) :
    year? cs = some ((n : Int), r) := by
  obtain ⟨d, rest, rfl, hd⟩ := head_of_exactly? (by decide) h
  have hread := digits?_of_exactly? (by decide) h
  rw [year?, skipBlanks_cons_of_not (isBlank_of_isDigit hd)]
  split
  · rename_i heq
    cases heq
    cases hd
  · rename_i heq
    cases heq
    cases hd
  · rw [hread]
    rfl

theorem separator?_of_expect? {cs r : List Char} (h : expect? 'T' cs = some r) :
    separator? cs = some r := by
  cases cs with
  | nil => cases h
  | cons c rest =>
    simp only [expect?] at h
    split at h
    · rename_i hc
      rw [← hc]
      exact h
    · cases h

/-- A text that is read as a date and time of day in both forms is read alike. -/
theorem localParts?_of_strictParts? {cs : List Char} {p q : Written × List Char}
    (hstrict : strictParts? cs = some p) (hlocal : localParts? cs = some q) : q = p := by
  simp only [strictParts?, Option.bind_eq_bind, Option.bind_eq_some_iff] at hstrict
  obtain ⟨⟨year, r₁⟩, hyear, r₂, hdash, ⟨month, r₃⟩, hmonth, r₄, hdash', ⟨day, r₅⟩, hday, r₆, hmark,
    ⟨hour, r₇⟩, hhour, r₈, hcolon, ⟨minute, r₉⟩, hminute, r₁₀, hcolon', ⟨second, r₁₁⟩, hsecond,
    ⟨nano, r₁₂⟩, hnano, hp⟩ := hstrict
  simp only [localParts?, Option.bind_eq_bind, year?_of_exactly? hyear, Option.bind_some, hdash,
    field?_of_exactly? hmonth, hdash', field?_of_exactly? hday, Option.bind_eq_some_iff] at hlocal
  -- Only the mark between date and time of day may differ.
  obtain ⟨r, hmark', hlocal⟩ := hlocal
  obtain rfl : r = r₆ := Option.some.inj ((separator?_of_expect? hmark').symm.trans hmark)
  simp only [field?_of_exactly? hhour, Option.some.injEq, hcolon, field?_of_exactly? hminute,
    hcolon', field?_of_exactly? hsecond, hnano, exists_eq_left'] at hlocal
  exact Option.some.inj (hlocal.symm.trans hp)

end Reading

namespace Timestamp

open Reading

/-- No text is in both forms. -/
theorem strict?_eq_none_or_local?_eq_none (s : String) : strict? s = none ∨ local? s = none := by
  cases hstrict : strictParts? s.toList with
  | none =>
    left
    simp only [strict?, hstrict, Option.bind_eq_bind, Option.bind_none]
  | some p =>
    cases hlocal : localParts? s.toList with
    | none =>
      right
      simp only [local?, hlocal, Option.bind_eq_bind, Option.bind_none]
    | some q =>
      obtain rfl := localParts?_of_strictParts? hstrict hlocal
      obtain ⟨w, r⟩ := q
      cases r with
      | nil =>
        left
        simp only [strict?, hstrict, Option.bind_eq_bind, Option.bind_some]
        rfl
      | cons c r =>
        right
        simp only [local?, hlocal, Option.bind_eq_bind, Option.bind_some]
        rfl

/-- It does not matter which form is tried first. -/
theorem received?_eq_swapped (s : String) : received? s = (local? s).orElse fun _ => strict? s := by
  unfold received?
  rcases strict?_eq_none_or_local?_eq_none s with h | h
  · cases hlocal : local? s <;> simp [h]
  · cases hstrict : strict? s <;> simp [h]

theorem received?_of_strict? {s : String} {t : Timestamp} (h : strict? s = some t) :
    received? s = some t := by
  simp [received?, h]

theorem received?_of_local? {s : String} {t : Timestamp} (h : local? s = some t) :
    received? s = some t := by
  simp [received?_eq_swapped, h]

section Printed

variable {width n : Nat}

theorem exactly?_padded (hwidth : 0 < width) (h : n < Number.tenTo width) (rest : List Char) :
    exactly? width ((padded width n).toList ++ rest) = some (n, rest) := by
  have hlength := length_padded hwidth h
  have htake : ((padded width n).toList ++ rest).take width = (padded width n).toList :=
    List.take_left' hlength
  have hall := takeWhile_isDigit (isDigit_padded width n)
  unfold exactly?
  simp only [htake, hall, hlength, if_true, ofDigits_padded, List.drop_left' hlength]

/-- A number does not begin with a sign. -/
theorem exactly?_of_not_digit {c : Char} (hc : c.isDigit = false) (hwidth : 0 < width)
    (rest : List Char) : exactly? width (c :: rest) = none := by
  unfold exactly?
  have hnone : ((c :: rest).take width).takeWhile Char.isDigit = [] := by
    rw [List.take_cons hwidth, List.takeWhile_cons_of_neg (by simp [hc])]
  have hne : ¬ 0 = width := by omega
  simp only [hnone, List.length_nil, if_neg hne]

/-- The text of a timestamp without the mark of universal time at its end. -/
def stem (t : Timestamp) : String := t.dateText ++ "T" ++ t.clockText ++ t.fractionText

theorem text_eq_stem (t : Timestamp) : t.text = t.stem ++ "Z" := rfl

/-- A year that is told by four digits without a sign. -/
def FourDigitYear (t : Timestamp) : Prop :=
  0 ≤ (Date.ofNumber t.day).year ∧ (Date.ofNumber t.day).year ≤ 9999

instance (t : Timestamp) : Decidable t.FourDigitYear := inferInstanceAs (Decidable (_ ∧ _))

variable {t : Timestamp}

/-- The numbers of date and time of day have two digits each. -/
theorem Tellable.fields (h : t.Tellable) :
    (Date.ofNumber t.day).month < Number.tenTo 2 ∧ (Date.ofNumber t.day).day < Number.tenTo 2 ∧
      t.second / 3600 < Number.tenTo 2 ∧ t.second / 60 % 60 < Number.tenTo 2 ∧
      t.second % 60 + t.nano / nanosPerSecond < Number.tenTo 2 := by
  obtain ⟨-, hsecond, hnano, -⟩ := h
  obtain ⟨hmonth, hday⟩ := Date.fields_of_exists? (Date.exists?_ofNumber t.day)
  change _ < 100 ∧ _ < 100 ∧ _ < 100 ∧ _ < 100 ∧ _ < 100
  simp only [nanosPerSecond] at *
  omega

theorem toList_stem (t : Timestamp) (rest : List Char) : t.stem.toList ++ rest =
    (yearText (Date.ofNumber t.day).year).toList ++ '-' ::
      ((padded 2 (Date.ofNumber t.day).month).toList ++ '-' ::
        ((padded 2 (Date.ofNumber t.day).day).toList ++ 'T' ::
          ((padded 2 (t.second / 3600)).toList ++ ':' ::
            ((padded 2 (t.second / 60 % 60)).toList ++ ':' ::
              ((padded 2 (t.second % 60 + t.nano / nanosPerSecond)).toList ++
                (t.fractionText.toList ++ rest)))))) := by
  have hdash : "-".toList = ['-'] := rfl
  have hcolon : ":".toList = [':'] := rfl
  have hmark : "T".toList = ['T'] := rfl
  simp only [stem, dateText, clockText, String.toList_append, hdash, hcolon, hmark,
    List.append_assoc, List.cons_append, List.nil_append]

theorem expect?_self (c : Char) (rest : List Char) : expect? c (c :: rest) = some rest := if_pos rfl

/-- The form without an offset takes years of any length. -/
theorem localParts?_stem (h : t.Tellable) {rest : List Char} (hrest : EndsTime rest) :
    localParts? (t.stem.toList ++ rest) = some (t.written, rest) := by
  obtain ⟨hmonth, hday, hhour, hminute, hsecond⟩ := h.fields
  rw [toList_stem]
  simp only [localParts?, Option.bind_eq_bind, Option.bind_some, year?_yearText, expect?_self,
    field?_padded hmonth, field?_padded hday, field?_padded hhour, field?_padded hminute,
    field?_padded hsecond, fraction?_fractionText t hrest]
  rfl

theorem strictParts?_stem (h : t.Tellable) (hyear : t.FourDigitYear) {rest : List Char}
    (hrest : EndsTime rest) : strictParts? (t.stem.toList ++ rest) = some (t.written, rest) := by
  obtain ⟨hmonth, hday, hhour, hminute, hsecond⟩ := h.fields
  obtain ⟨hlow, hhigh⟩ := hyear
  have hfour : (Date.ofNumber t.day).year.toNat < Number.tenTo 4 := by
    change _ < 10000
    omega
  have hsame : ((Date.ofNumber t.day).year.toNat : Int) = (Date.ofNumber t.day).year :=
    Int.toNat_of_nonneg hlow
  rw [toList_stem, yearText, if_pos ⟨hlow, hhigh⟩]
  simp only [strictParts?, Option.bind_eq_bind, Option.bind_some, exactly?_padded (by decide) hfour,
    expect?_self, separator?_mark, exactly?_padded (by decide) hmonth,
    exactly?_padded (by decide) hday, exactly?_padded (by decide) hhour,
    exactly?_padded (by decide) hminute, exactly?_padded (by decide) hsecond,
    fraction?_fractionText t hrest, hsame]
  rfl

/-- The days of years with four digits lie far inside the range. -/
theorem FourDigitYear.dayInRange (h : t.FourDigitYear) : dayInRange t.day = true := by
  obtain ⟨hlow, hhigh⟩ := h
  obtain ⟨hmonth, hday⟩ := Date.fields_of_exists? (Date.exists?_ofNumber t.day)
  have hnumber := Date.number_ofNumber t.day
  have hfirst : firstDay = -96465292 := by decide
  have hlast : lastDay = 95026236 := by decide
  generalize Date.ofNumber t.day = d at *
  simp only [Date.number, Date.dayOfYear] at hnumber
  simp only [Timestamp.dayInRange, hfirst, hlast, Bool.and_eq_true, decide_eq_true_eq]
  split at hnumber <;> omega

/-- Date and time of day at an offset of some minutes, written down as if in universal time. -/
def localTime (t : Timestamp) (minutes : Int) : Timestamp :=
  let total := (t.second : Int) + 60 * minutes
  ⟨t.day + total / 86400, (total % 86400).toNat, t.nano⟩

/-- An offset as it is written: a sign, hours and minutes. -/
def offsetText (minutes : Int) : String :=
  (if 0 ≤ minutes then "+" else "-") ++ padded 2 (minutes.natAbs / 60) ++ ":"
    ++ padded 2 (minutes.natAbs % 60)

/-- The text of a timestamp in the internet form at an offset of some minutes. -/
def textAt (t : Timestamp) (minutes : Int) : String :=
  (t.localTime minutes).stem ++ offsetText minutes

variable {minutes : Int}

/-- Whole minutes leave a leap second at the end of its minute. -/
theorem Tellable.localTime (h : t.Tellable) (hyear : (t.localTime minutes).FourDigitYear) :
    (t.localTime minutes).Tellable := by
  obtain ⟨-, hsecond, hnano, hleap⟩ := h
  refine ⟨hyear.dayInRange, ?_, hnano, fun hlong => ?_⟩
  · simp only [Timestamp.localTime]
    omega
  · have hlast := hleap hlong
    simp only [Timestamp.localTime]
    omega

theorem toList_offsetText (minutes : Int) : (offsetText minutes).toList =
    (if 0 ≤ minutes then '+' else '-') :: ((padded 2 (minutes.natAbs / 60)).toList ++ ':' ::
      (padded 2 (minutes.natAbs % 60)).toList) := by
  have hcolon : ":".toList = [':'] := rfl
  have hsign : (if 0 ≤ minutes then "+" else "-").toList = [if 0 ≤ minutes then '+' else '-'] := by
    split <;> rfl
  simp only [offsetText, String.toList_append, hcolon, hsign, List.append_assoc, List.cons_append,
    List.nil_append]

theorem endsTime_offsetText (minutes : Int) : EndsTime (offsetText minutes).toList := by
  rw [toList_offsetText]
  split
  · exact endsTime_cons rfl (by decide) _
  · exact endsTime_cons rfl (by decide) _

theorem offset?_offsetText (hlow : -1440 < minutes) (hhigh : minutes < 1440) :
    offset? (expect? ':') (offsetText minutes).toList = some (60 * minutes, []) := by
  have hhours : minutes.natAbs / 60 < Number.tenTo 2 := by
    change _ < 100
    omega
  have hrest : minutes.natAbs % 60 < Number.tenTo 2 := by
    change _ < 100
    omega
  have hread := exactly?_padded (by decide) hrest []
  rw [List.append_nil] at hread
  have hminute : ¬ 60 ≤ minutes.natAbs % 60 := by omega
  rw [toList_offsetText]
  by_cases hsign : 0 ≤ minutes
  · have hsize : ((minutes.natAbs / 60 : Nat) : Int) * 3600 +
        ((minutes.natAbs % 60 : Nat) : Int) * 60 = 60 * minutes := by omega
    simp only [if_pos hsign, offset?, exactly?_padded (by decide) hhours, expect?_self, hread,
      Option.bind_eq_bind, Option.bind_some, if_neg hminute, hsize]
    rfl
  · have hsize : -(((minutes.natAbs / 60 : Nat) : Int) * 3600 +
        ((minutes.natAbs % 60 : Nat) : Int) * 60) = 60 * minutes := by omega
    simp only [if_neg hsign, offset?, exactly?_padded (by decide) hhours, expect?_self, hread,
      Option.bind_eq_bind, Option.bind_some, if_neg hminute, hsize]
    rfl

/-- Date and time of day at an offset, and the offset, tell the timestamp. -/
theorem at?_localTime (h : t.Tellable) (hlow : -1440 < minutes) (hhigh : minutes < 1440)
    (hyear : (t.localTime minutes).FourDigitYear) :
    (t.localTime minutes).written.at? (60 * minutes) = some t := by
  rw [at?_written (h.localTime hyear) (by omega) (by omega)]
  obtain ⟨day, second, nano⟩ := t
  have hsecond : second < 86400 := h.second
  have hinRange : dayInRange day = true := h.day
  simp only [Timestamp.localTime]
  have hday : day + ((second : Int) + 60 * minutes) / 86400 +
      (((((second : Int) + 60 * minutes) % 86400).toNat : Int) - 60 * minutes) / 86400 = day := by
    omega
  have hsame : ((((((second : Int) + 60 * minutes) % 86400).toNat : Int) - 60 * minutes) %
      86400).toNat = second := by
    omega
  simp only [hday, hsame, hinRange, if_true]

theorem strict?_textAt (h : t.Tellable) (hlow : -1440 < minutes) (hhigh : minutes < 1440)
    (hyear : (t.localTime minutes).FourDigitYear) : strict? (t.textAt minutes) = some t := by
  have hparts := strictParts?_stem (h.localTime hyear) hyear (endsTime_offsetText minutes)
  simp only [strict?, textAt, String.toList_append, hparts, offset?_offsetText hlow hhigh,
    Option.bind_eq_bind, Option.bind_some]
  exact at?_localTime h hlow hhigh hyear

theorem endsTime_mark : EndsTime "Z".toList := endsTime_cons rfl (by decide) []

theorem strict?_text (h : t.Tellable) (hyear : t.FourDigitYear) : strict? t.text = some t := by
  have hparts := strictParts?_stem h hyear endsTime_mark
  simp only [strict?, text_eq_stem, String.toList_append, hparts, Option.bind_eq_bind,
    Option.bind_some]
  exact at?_written_zero h

theorem local?_stem (h : t.Tellable) : local? t.stem = some t := by
  have hparts := localParts?_stem h endsTime_nil
  rw [List.append_nil] at hparts
  simp only [local?, hparts, Option.bind_eq_bind, Option.bind_some]
  exact at?_written_zero h

theorem local?_text (h : t.Tellable) : local? t.text = none := by
  have hparts := localParts?_stem h endsTime_mark
  simp only [local?, text_eq_stem, String.toList_append, hparts, Option.bind_eq_bind,
    Option.bind_some]
  rfl

theorem yearText_signed {year : Int} (h : ¬ (0 ≤ year ∧ year ≤ 9999)) :
    ∃ c rest, (yearText year).toList = c :: rest ∧ c.isDigit = false := by
  rw [yearText, if_neg h, String.toList_append]
  split
  · exact ⟨'-', _, rfl, rfl⟩
  · exact ⟨'+', _, rfl, rfl⟩

/-- A year with a sign is not in the internet form. -/
theorem strict?_text_of_signed (h : ¬ t.FourDigitYear) : strict? t.text = none := by
  obtain ⟨c, rest, hyear, hc⟩ := yearText_signed h
  have hnone (r : List Char) : exactly? 4 (c :: r) = none := exactly?_of_not_digit hc (by decide) r
  simp only [strict?, text_eq_stem, String.toList_append, toList_stem, hyear, List.cons_append,
    strictParts?, hnone, Option.bind_eq_bind, Option.bind_none]

end Printed

section Told

variable {s : String} {t : Timestamp}

theorem tellable_of_strict? (h : strict? s = some t) : t.Tellable := by
  simp only [strict?, Option.bind_eq_bind, Option.bind_eq_some_iff] at h
  obtain ⟨⟨w, r⟩, hparts, ⟨offset, r'⟩, hoffset, h⟩ := h
  have hnano : w.nano < nanosPerSecond := by
    simp only [strictParts?, Option.bind_eq_bind, Option.bind_eq_some_iff] at hparts
    obtain ⟨_, -, _, -, _, -, _, -, _, -, _, -, _, -, _, -, _, -, _, -, _, -, ⟨nano, _⟩, hnano,
      hw⟩ := hparts
    simp only [Option.pure_def, Option.some.injEq, Prod.mk.injEq] at hw
    obtain ⟨rfl, -⟩ := hw
    exact fraction?_lt hnano
  split at h
  · exact tellable_of_at? h (offset?_mod hoffset) hnano
  · cases h

theorem tellable_of_local? (h : local? s = some t) : t.Tellable := by
  simp only [local?, Option.bind_eq_bind, Option.bind_eq_some_iff] at h
  obtain ⟨⟨w, r⟩, hparts, h⟩ := h
  have hnano : w.nano < nanosPerSecond := by
    simp only [localParts?, Option.bind_eq_bind, Option.bind_eq_some_iff] at hparts
    obtain ⟨_, -, _, -, _, -, _, -, _, -, _, -, _, -, _, -, _, -, _, -, _, -, ⟨nano, _⟩, hnano,
      hw⟩ := hparts
    simp only [Option.pure_def, Option.some.injEq, Prod.mk.injEq] at hw
    obtain ⟨rfl, -⟩ := hw
    exact fraction?_lt hnano
  split at h
  · exact tellable_of_at? h rfl hnano
  · cases h

/-- Whatever is read as a time can be told. -/
theorem tellable_of_received? (h : received? s = some t) : t.Tellable := by
  unfold received? at h
  cases hstrict : strict? s with
  | none =>
    rw [hstrict] at h
    exact tellable_of_local? h
  | some u =>
    rw [hstrict] at h
    cases h
    exact tellable_of_strict? hstrict

/-- The text of a timestamp is received as that timestamp exactly if it can be told and its year has
four digits. -/
theorem received?_text_iff (t : Timestamp) :
    received? t.text = some t ↔ t.Tellable ∧ t.FourDigitYear := by
  constructor
  · intro h
    have htellable := tellable_of_received? h
    refine ⟨htellable, Decidable.byContradiction fun hyear => ?_⟩
    rw [received?, strict?_text_of_signed hyear, local?_text htellable] at h
    cases h
  · rintro ⟨h, hyear⟩
    exact received?_of_strict? (strict?_text h hyear)

end Told

end Timestamp
end Time

namespace OData

open Time

theorem time?_eq_ok_iff (raw : String) (t : Timestamp) :
    time? raw = .ok t ↔ Timestamp.received? raw = some t := by
  unfold time?
  cases Timestamp.received? raw <;> simp

/-- How times in rows are read.  The text of a timestamp is read as that timestamp exactly if it can
be told and its year has four digits; without the mark at its end it is read so in any year; and so
is its text at any offset of less than a day at which the year has four digits.  No text is in both
forms, so that their order does not matter. -/
theorem times_read_as_told :
    (∀ t : Timestamp, time? t.text = .ok t ↔ t.Tellable ∧ t.FourDigitYear) ∧
    (∀ t : Timestamp, t.Tellable → ∃ s, t.text = s ++ "Z" ∧ time? s = .ok t) ∧
    (∀ (t : Timestamp) (minutes : Int), t.Tellable → -1440 < minutes → minutes < 1440 →
      (t.localTime minutes).FourDigitYear → time? (t.textAt minutes) = .ok t) ∧
    (∀ s, Timestamp.strict? s = none ∨ Timestamp.local? s = none) ∧
    (∀ s, Timestamp.received? s =
      (Timestamp.local? s).orElse fun _ => Timestamp.strict? s) := by
  refine ⟨fun t => ?_, fun t h => ⟨t.stem, t.text_eq_stem, ?_⟩,
    fun t minutes h hlow hhigh hyear => ?_,
    Timestamp.strict?_eq_none_or_local?_eq_none, Timestamp.received?_eq_swapped⟩
  · rw [time?_eq_ok_iff]
    exact t.received?_text_iff
  · rw [time?_eq_ok_iff]
    exact Timestamp.received?_of_local? (Timestamp.local?_stem h)
  · rw [time?_eq_ok_iff]
    exact Timestamp.received?_of_strict? (Timestamp.strict?_textAt h hlow hhigh hyear)

/-- Half a second into the leap second at the end of 2016, which is in the next year fourteen hours
to the east. -/
theorem times_read_as_told_in_leap_second :
    let t : Timestamp := ⟨17166, 86399, 1500000000⟩
    time? "2016-12-31T23:59:60.500Z" = .ok t ∧ time? "2016-12-31T23:59:60.500" = .ok t ∧
      time? "2017-01-01T13:59:60.500+14:00" = .ok t := by
  intro t
  have hread := times_read_as_told
  have htellable : t.Tellable := ⟨by decide, by decide, by decide, by decide⟩
  have htext : t.text = "2016-12-31T23:59:60.500Z" := by decide +kernel
  have hmark : t.text = "2016-12-31T23:59:60.500" ++ "Z" := by decide +kernel
  have hthere : t.textAt 840 = "2017-01-01T13:59:60.500+14:00" := by decide +kernel
  refine ⟨?_, ?_, ?_⟩
  · exact htext ▸ (hread.1 t).mpr ⟨htellable, by decide⟩
  · obtain ⟨s, hs, hstem⟩ := hread.2.1 t htellable
    have hsame : s = "2016-12-31T23:59:60.500" :=
      String.append_left_inj (t := "Z") |>.mp (hs.symm.trans hmark)
    exact hsame ▸ hstem
  · exact hthere ▸ hread.2.2.1 t 840 htellable (by decide) (by decide) (by decide)

end OData
end RobotDesk
