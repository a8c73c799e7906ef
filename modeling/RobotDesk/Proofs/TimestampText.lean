import RobotDesk.Proofs.Calendar
import RobotDesk.Time.Reader

/-!
The text of a timestamp is read as that timestamp.

Whatever spelling a timestamp is read from, it can be told: its day has a date, and a leap second is
the last second of a minute.  The text of such a timestamp is read part by part, each number in
front of a mark that is no digit.
-/
namespace RobotDesk.Time

open Text

namespace Reading

theorem isBlank_of_isDigit {c : Char} (h : c.isDigit = true) : isBlank c = false := by
  obtain ⟨hlow, hhigh⟩ := Char.isDigit_iff_toNat.mp h
  have hzero : '0'.toNat = 48 := rfl
  have hnine : '9'.toNat = 57 := rfl
  simp only [isBlank, blankRanges, List.any_cons, List.any_nil, Bool.or_false, Bool.or_eq_false_iff,
    Bool.and_eq_false_iff, decide_eq_false_iff_not]
  omega

theorem skipBlanks_of_isDigit {ds : List Char} (h : ∀ c ∈ ds, c.isDigit = true) (hne : ds ≠ [])
    (rest : List Char) : skipBlanks (ds ++ rest) = ds ++ rest := by
  cases ds with
  | nil => exact absurd rfl hne
  | cons d ds => exact skipBlanks_cons_of_not (isBlank_of_isDigit (h d List.mem_cons_self)) _

theorem ofDigits_eq (ds : List Char) : ofDigits ds = Nat.ofDigitChars 10 ds 0 :=
  Nat.ofDigitChars_eq_foldl.symm

/-- Digits tell a number below the power of ten with as many places. -/
theorem ofDigits_lt {ds : List Char} (h : ∀ c ∈ ds, c.isDigit = true) :
    ofDigits ds < Number.tenTo ds.length := by
  have hfrom (n : Nat) : ds.foldl (fun n c => 10 * n + (c.toNat - 48)) n <
      (n + 1) * Number.tenTo ds.length := by
    induction ds generalizing n with
    | nil => simp
    | cons d ds ih =>
      have hdigit : d.toNat ≤ 57 := (Char.isDigit_iff_toNat.mp (h d List.mem_cons_self)).2
      have hmore := ih (fun c hc => h c (List.mem_cons_of_mem d hc)) (10 * n + (d.toNat - 48))
      have hstep : (10 * n + (d.toNat - 48) + 1) * Number.tenTo ds.length ≤
          (n + 1) * 10 * Number.tenTo ds.length :=
        Nat.mul_le_mul_right _ (by omega)
      rw [List.foldl_cons, List.length_cons, Number.tenTo_succ, Nat.mul_comm _ 10, ← Nat.mul_assoc]
      exact Nat.lt_of_lt_of_le hmore hstep
  simpa [ofDigits] using hfrom 0

theorem takeWhile_isDigit {ds : List Char} (h : ∀ c ∈ ds, c.isDigit = true) :
    ds.takeWhile Char.isDigit = ds := by
  simpa using @List.takeWhile_append_of_pos _ Char.isDigit ds [] h

/-- Digits end where something else stands, or nothing. -/
theorem takeWhile_isDigit_append {ds rest : List Char} (h : ∀ c ∈ ds, c.isDigit = true)
    (hrest : ∀ c ∈ rest.head?, c.isDigit = false) :
    (ds ++ rest).takeWhile Char.isDigit = ds := by
  cases rest with
  | nil => rw [List.append_nil, takeWhile_isDigit h]
  | cons c rest =>
    have hc : c.isDigit = false := hrest c rfl
    rw [List.takeWhile_append_of_pos h, List.takeWhile_cons_of_neg (by simp [hc]), List.append_nil]

/-- What may follow the time of day: nothing that its fraction would take for its own. -/
def EndsTime (rest : List Char) : Prop := ∀ c ∈ rest.head?, c.isDigit = false ∧ c ≠ '.'

theorem endsTime_nil : EndsTime [] := fun _ h => nomatch h

theorem endsTime_cons {c : Char} (h : c.isDigit = false) (hpoint : c ≠ '.') (rest : List Char) :
    EndsTime (c :: rest) := by
  intro d hd
  obtain rfl : c = d := Option.some.inj hd
  exact ⟨h, hpoint⟩

theorem fraction?_of_endsTime {rest : List Char} (h : EndsTime rest) :
    fraction? rest = some (0, rest) := by
  unfold fraction?
  split
  · rename_i r
    exact absurd rfl (h '.' rfl).2
  · rfl

end Reading

namespace Timestamp

open Reading

section Padded

variable (width n : Nat)

theorem toList_padded : (padded width n).toList =
    List.replicate (width - (Nat.toDigits 10 n).length) '0' ++ Nat.toDigits 10 n := by
  simp only [padded, String.toList_append, String.toList_ofList, Nat.toList_repr]
  rw [← String.length_toList, Nat.toList_repr]

theorem isDigit_padded : ∀ c ∈ (padded width n).toList, c.isDigit = true := by
  intro c hc
  rw [toList_padded, List.mem_append] at hc
  rcases hc with hzero | hdigit
  · rw [List.eq_of_mem_replicate hzero]
    rfl
  · exact Nat.isDigit_of_mem_toDigits (by decide) (by decide) hdigit

theorem padded_ne_nil : (padded width n).toList ≠ [] := by
  rw [toList_padded]
  simp

theorem ofDigits_padded : ofDigits (padded width n).toList = n := by
  rw [toList_padded, ofDigits_eq, Nat.ofDigitChars_append, Nat.ofDigitChars_replicate_zero,
    Nat.mul_zero, Nat.ofDigitChars_ten_toDigits]

variable {width n}

theorem length_padded (hwidth : 0 < width) (h : n < Number.tenTo width) :
    (padded width n).toList.length = width := by
  have hlength := (Nat.length_toDigits_le_iff (b := 10) (by decide) hwidth).mpr h
  rw [toList_padded, List.length_append, List.length_replicate]
  omega

theorem digits?_padded (hwidth : 0 < width) (h : n < Number.tenTo width) (rest : List Char) :
    digits? width ((padded width n).toList ++ rest) = some (n, rest) := by
  have htake : ((padded width n).toList ++ rest).take width = (padded width n).toList :=
    List.take_left' (length_padded hwidth h)
  have hall := takeWhile_isDigit (isDigit_padded width n)
  unfold digits?
  simp only [htake, hall, ofDigits_padded, List.isEmpty_iff, padded_ne_nil, if_false,
    List.drop_left]

theorem field?_padded (h : n < 100) (rest : List Char) :
    field? ((padded 2 n).toList ++ rest) = some (n, rest) := by
  unfold field?
  rw [skipBlanks_of_isDigit (isDigit_padded 2 n) (padded_ne_nil 2 n), digits?_padded (by decide) h]

theorem unbounded?_padded {c : Char} (hc : c.isDigit = false) (rest : List Char) :
    unbounded? ((padded width n).toList ++ c :: rest) = some (n, c :: rest) := by
  have hends : ∀ d ∈ (c :: rest).head?, d.isDigit = false := fun d hd => Option.some.inj hd ▸ hc
  have hwhile := takeWhile_isDigit_append (isDigit_padded width n) hends
  unfold unbounded?
  simp only [hwhile, ofDigits_padded, List.isEmpty_iff, padded_ne_nil, if_false, List.drop_left]

end Padded

theorem year?_padded {year : Nat} (h : year < Number.tenTo 4) (rest : List Char) :
    year? ((padded 4 year).toList ++ '-' :: rest) = some ((year : Int), '-' :: rest) := by
  have hread := digits?_padded (by decide) h ('-' :: rest)
  rw [year?, skipBlanks_of_isDigit (isDigit_padded 4 _) (padded_ne_nil 4 _)]
  cases hdigits : (padded 4 year).toList with
  | nil => exact absurd hdigits (padded_ne_nil 4 _)
  | cons d ds =>
    have hd : d.isDigit = true := isDigit_padded 4 year d (by simp [hdigits])
    rw [hdigits] at hread
    rw [List.cons_append] at hread ⊢
    split
    · rename_i heq
      cases heq
      cases hd
    · rename_i heq
      cases heq
      cases hd
    · rw [hread]
      rfl

theorem year?_negative (year : Nat) (rest : List Char) :
    year? (("-" ++ padded 4 year).toList ++ '-' :: rest) = some (-(year : Int), '-' :: rest) := by
  have hminus : year? (("-" ++ padded 4 year).toList ++ '-' :: rest) =
      (unbounded? ((padded 4 year).toList ++ '-' :: rest)).map fun p => (-(p.1 : Int), p.2) := by
    rw [String.toList_append]
    rfl
  rw [hminus, unbounded?_padded rfl rest]
  rfl

theorem year?_positive (year : Nat) (rest : List Char) :
    year? (("+" ++ padded 4 year).toList ++ '-' :: rest) = some ((year : Int), '-' :: rest) := by
  have hplus : year? (("+" ++ padded 4 year).toList ++ '-' :: rest) =
      (unbounded? ((padded 4 year).toList ++ '-' :: rest)).map fun p => ((p.1 : Int), p.2) := by
    rw [String.toList_append]
    rfl
  rw [hplus, unbounded?_padded rfl rest]
  rfl

/-- A year up to 9999 is read as four digits, and any other behind its sign. -/
theorem year?_yearText (year : Int) (rest : List Char) :
    year? ((yearText year).toList ++ '-' :: rest) = some (year, '-' :: rest) := by
  rw [yearText]
  split
  · have hsmall : year.toNat < Number.tenTo 4 := by
      change year.toNat < 10000
      omega
    have hyear : (year.toNat : Int) = year := by omega
    rw [year?_padded hsmall, hyear]
  · split
    · have hyear : -(year.natAbs : Int) = year := by omega
      rw [year?_negative, hyear]
    · have hyear : (year.natAbs : Int) = year := by omega
      rw [year?_positive, hyear]

theorem fraction?_digits {width n : Nat} (hwidth : 0 < width) (hnine : width ≤ 9)
    (h : n < Number.tenTo width) {rest : List Char} (hrest : EndsTime rest) :
    fraction? (("." ++ padded width n).toList ++ rest) =
      some (n * Number.tenTo (9 - width), rest) := by
  have hdot : ("." ++ padded width n).toList ++ rest =
      '.' :: ((padded width n).toList ++ rest) := by
    rw [String.toList_append]
    rfl
  have hwhile := takeWhile_isDigit_append (isDigit_padded width n) fun c hc => (hrest c hc).1
  have hkept : (padded width n).toList.take 9 = (padded width n).toList :=
    List.take_of_length_le (by rw [length_padded hwidth h]; exact hnine)
  rw [hdot, fraction?]
  simp only [hwhile, hkept, List.isEmpty_iff, padded_ne_nil, if_false, ofDigits_padded,
    length_padded hwidth h, List.drop_left']

/-- The fraction of a second is told in as many digits as it has. -/
theorem fraction?_fractionText (t : Timestamp) {rest : List Char} (hrest : EndsTime rest) :
    fraction? (t.fractionText.toList ++ rest) = some (t.nano % nanosPerSecond, rest) := by
  have hnano : t.nano % nanosPerSecond < 1000000000 := Nat.mod_lt _ (by decide)
  unfold fractionText
  generalize t.nano % nanosPerSecond = n at hnano
  simp only
  split
  · subst n
    exact fraction?_of_endsTime hrest
  split
  · have hlt : n / 1000000 < Number.tenTo 3 := by
      change _ < 1000
      omega
    have heq : n / 1000000 * Number.tenTo 6 = n := by
      change _ * 1000000 = n
      omega
    rw [fraction?_digits (by decide) (by decide) hlt hrest, heq]
  split
  · have hlt : n / 1000 < Number.tenTo 6 := by
      change _ < 1000000
      omega
    have heq : n / 1000 * Number.tenTo 3 = n := by
      change _ * 1000 = n
      omega
    rw [fraction?_digits (by decide) (by decide) hlt hrest, heq]
  · rw [fraction?_digits (by decide) (by decide) hnano hrest, Number.tenTo_zero, Nat.mul_one]

/-- A timestamp that has a date and a time of day; a leap second is the last second of a minute. -/
structure Tellable (t : Timestamp) : Prop where
  day : dayInRange t.day = true
  second : t.second < 86400
  nano : t.nano < 2 * nanosPerSecond
  leap : nanosPerSecond ≤ t.nano → t.second % 60 = 59

section Told

variable {t : Timestamp}

/-- Date and time of day as the text of a timestamp tells them. -/
def written (t : Timestamp) : Written where
  date := .ofNumber t.day
  hour := t.second / 3600
  minute := t.second / 60 % 60
  second := t.second % 60 + t.nano / nanosPerSecond
  nano := t.nano % nanosPerSecond

/-- What is told at an offset is the timestamp that much earlier, if it lies in the range. -/
theorem at?_written (h : t.Tellable) {offset : Int} (hlow : -86400 < offset)
    (hhigh : offset < 86400) : t.written.at? offset =
      let total := (t.second : Int) - offset
      if dayInRange (t.day + total / 86400) then
        some ⟨t.day + total / 86400, (total % 86400).toNat, t.nano⟩
      else none := by
  obtain ⟨hday, hsecond, hnano, hleap⟩ := h
  simp only [nanosPerSecond] at hnano hleap
  have hexists := Date.exists?_ofNumber t.day
  have hnumber := Date.number_ofNumber t.day
  have hsixty : (t.second % 60 + t.nano / 1000000000 = 60) ↔ 1000000000 ≤ t.nano := by omega
  have hguard : (t.written.date.exists? && dayInRange t.written.date.number && t.written.hour ≤ 23
      && t.written.minute ≤ 59 && t.written.second ≤ 60 && -86400 < offset && offset < 86400) =
      true := by
    simp only [Bool.and_eq_true, decide_eq_true_eq]
    simp only [written, nanosPerSecond, hexists, hnumber, hday, true_and]
    omega
  unfold Written.at?
  rw [if_pos hguard]
  simp only [written, nanosPerSecond, hsixty, hnumber]
  obtain ⟨day, second, nano⟩ := t
  simp only at *
  have htotal : ((second / 3600 * 3600 + second / 60 % 60 * 60 +
      (second % 60 + nano / 1000000000 - if 1000000000 ≤ nano then 1 else 0) : Nat) : Int) =
      second := by
    split <;> omega
  have hwhole : (if 1000000000 ≤ nano then 1 else 0) * 1000000000 + nano % 1000000000 = nano := by
    split <;> omega
  rw [htotal, hwhole]

theorem at?_written_zero (h : t.Tellable) : t.written.at? 0 = some t := by
  have hsecond := h.second
  have hsameDay : t.day + ((t.second : Int) - 0) / 86400 = t.day := by omega
  have hsameSecond : (((t.second : Int) - 0) % 86400).toNat = t.second := by omega
  rw [at?_written h (by decide) (by decide)]
  simp only [hsameDay, hsameSecond, if_pos h.day]

theorem expect?_mark {c : Char} (h : isBlank c = false) (rest : List Char) :
    expect? c (skipBlanks (c :: rest)) = some rest := by
  rw [skipBlanks_cons_of_not h, expect?, if_pos rfl]

theorem separator?_mark (rest : List Char) : separator? ('T' :: rest) = some rest := rfl

theorem lenientParts?_text (h : t.Tellable) (rest : List Char) :
    lenientParts? (t.text.toList ++ rest) = some (t.written, 'Z' :: rest) := by
  obtain ⟨-, hsecond, hnano, hleap⟩ := h
  simp only [nanosPerSecond] at hnano hleap
  obtain ⟨hmonth, hday⟩ := Date.fields_of_exists? (Date.exists?_ofNumber t.day)
  have hmonth : (Date.ofNumber t.day).month < 100 := by omega
  have hday : (Date.ofNumber t.day).day < 100 := by omega
  have hhour : t.second / 3600 < 100 := by omega
  have hminute : t.second / 60 % 60 < 100 := by omega
  have hseconds : t.second % 60 + t.nano / nanosPerSecond < 100 := by
    simp only [nanosPerSecond]
    omega
  have hdash : "-".toList = ['-'] := rfl
  have hcolon : ":".toList = [':'] := rfl
  have hmark : "T".toList = ['T'] := rfl
  have hend : "Z".toList = ['Z'] := rfl
  simp only [text, dateText, clockText, String.toList_append, hdash, hcolon, hmark, hend,
    List.append_assoc, List.cons_append, List.nil_append]
  simp only [lenientParts?, Option.bind_eq_bind, Option.bind_some, year?_yearText,
    expect?_mark (c := '-') rfl, expect?_mark (c := ':') rfl, separator?_mark, field?_padded hmonth,
    field?_padded hday, field?_padded hhour, field?_padded hminute, field?_padded hseconds,
    fraction?_fractionText t (endsTime_cons (c := 'Z') rfl (by decide) rest)]
  rfl

theorem lenient?_text (h : t.Tellable) : lenient? t.text = some t := by
  have hparts := lenientParts?_text h []
  rw [List.append_nil] at hparts
  simp only [lenient?, hparts, Option.bind_eq_bind, Option.bind_some]
  exact at?_written_zero h

end Told

/-- Offsets are told in minutes. -/
theorem offset?_mod {gap : List Char → Option (List Char)} {cs r : List Char} {offset : Int}
    (h : offset? gap cs = some (offset, r)) : offset % 60 = 0 := by
  unfold offset? at h
  split at h
  · cases h
  split at h
  · cases h
    rfl
  split at h
  · simp only [Option.bind_eq_bind, Option.bind_eq_some_iff] at h
    obtain ⟨⟨hours, r₁⟩, -, r₂, -, ⟨minutes, r₃⟩, -, h⟩ := h
    split at h
    · cases h
    · simp only [Option.pure_def, Option.some.injEq, Prod.mk.injEq] at h
      obtain ⟨rfl, -⟩ := h
      split <;> omega
  · cases h

theorem lenientOffset?_mod {cs r : List Char} {offset : Int}
    (h : lenientOffset? cs = some (offset, r)) : offset % 60 = 0 := by
  unfold lenientOffset? at h
  split at h
  · cases h
    rfl
  · exact offset?_mod h

/-- A fraction is less than a second. -/
theorem fraction?_lt {cs r : List Char} {n : Nat} (h : fraction? cs = some (n, r)) :
    n < nanosPerSecond := by
  unfold fraction? at h
  split at h
  · rename_i r'
    simp only at h
    split at h
    · cases h
    · simp only [Option.some.injEq, Prod.mk.injEq] at h
      obtain ⟨rfl, -⟩ := h
      have hdigits : ∀ c ∈ (r'.takeWhile Char.isDigit).take 9, c.isDigit = true := by
        intro c hc
        exact List.all_eq_true.mp List.all_takeWhile c (List.mem_of_mem_take hc)
      have hlength : ((r'.takeWhile Char.isDigit).take 9).length ≤ 9 := by
        rw [List.length_take]
        exact Nat.min_le_left _ _
      have hlt := ofDigits_lt hdigits
      generalize ((r'.takeWhile Char.isDigit).take 9) = ds at hlt hlength
      calc ofDigits ds * Number.tenTo (9 - ds.length)
          < Number.tenTo ds.length * Number.tenTo (9 - ds.length) :=
            Nat.mul_lt_mul_of_pos_right hlt (Number.tenTo_pos _)
        _ = Number.tenTo (ds.length + (9 - ds.length)) := (Nat.pow_add 10 _ _).symm
        _ = nanosPerSecond := by
            rw [Nat.add_sub_cancel' hlength]
            rfl
  · cases h
    decide

theorem tellable_of_at? {w : Written} {offset : Int} {t : Timestamp} (h : w.at? offset = some t)
    (hoffset : offset % 60 = 0) (hnano : w.nano < nanosPerSecond) : t.Tellable := by
  unfold Written.at? at h
  split at h
  · rename_i hguard
    simp only [Bool.and_eq_true, decide_eq_true_eq] at hguard
    have hsixty : (if w.second = 60 then 1 else 0) = 1 ∧ w.second = 60 ∨
        (if w.second = 60 then 1 else 0) = 0 ∧ w.second ≠ 60 := by
      split <;> simp_all
    generalize (if w.second = 60 then 1 else 0) = leap at h hsixty
    simp only [nanosPerSecond] at hnano h
    split at h
    · rename_i hday
      cases h
      refine ⟨hday, ?_, ?_, ?_⟩ <;> simp only [nanosPerSecond] <;> omega
    · cases h
  · cases h

/-- What is read as a timestamp can be told. -/
theorem tellable_of_lenient? {s : String} {t : Timestamp} (h : lenient? s = some t) :
    t.Tellable := by
  simp only [lenient?, Option.bind_eq_bind, Option.bind_eq_some_iff] at h
  obtain ⟨⟨w, r⟩, hparts, ⟨offset, r'⟩, hoffset, h⟩ := h
  have hnano : w.nano < nanosPerSecond := by
    simp only [lenientParts?, Option.bind_eq_bind, Option.bind_eq_some_iff] at hparts
    obtain ⟨_, -, _, -, _, -, _, -, _, -, _, -, _, -, _, -, _, -, _, -, _, -, ⟨nano, _⟩, hnano,
      hw⟩ := hparts
    simp only [Option.pure_def, Option.some.injEq, Prod.mk.injEq] at hw
    obtain ⟨rfl, -⟩ := hw
    exact fraction?_lt hnano
  split at h
  · exact tellable_of_at? h (lenientOffset?_mod hoffset) hnano
  · cases h

/-- However a timestamp is spelled, its text spells it again. -/
theorem lenient?_text_of_lenient? {s : String} {t : Timestamp} (h : lenient? s = some t) :
    lenient? t.text = some t :=
  lenient?_text (tellable_of_lenient? h)

end Timestamp
end RobotDesk.Time
