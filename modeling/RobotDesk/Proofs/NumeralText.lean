import RobotDesk.Failure
import RobotDesk.Proofs.JsonText

/-!
Numbers in JSON text.

What a number is read as depends on its own text only, in front of whatever can follow a value.  The
integers that are read are those of 64 bits, and they are read back.  Whether a real is read back
depends on how its digits are chosen and rounded, and is left open here.  All numbers are written in
digits, signs, points and the mark of a power, so that no blanks stand in their texts.
-/
namespace RobotDesk.Json

open Text

section Digits

theorem digit?_char {c : Char} (h : c.isDigit = true) : digit? (.char c) = some (c.toNat - 48) := by
  have hc : '0' ≤ c ∧ c ≤ '9' := by simpa [Char.isDigit, Char.le_def] using h
  rw [digit?, if_pos hc]

/-- What can follow a value. -/
theorem endsValue_cons {g : Glyph} {rest : List Glyph} (h : endsValue (g :: rest) = true) :
    g = .char ',' ∨ g = .char ']' ∨ g = .char '\x7d' := by
  simpa [endsValue, or_assoc] using h

theorem spanDigits_of_endsValue {rest : List Glyph} (h : endsValue rest = true) :
    spanDigits rest = ([], rest) := by
  cases rest with
  | nil => rfl
  | cons g rest => rcases endsValue_cons h with rfl | rfl | rfl <;> rfl

/-- The digits of a text end where it does, or with something that is no digit. -/
theorem spanDigits_append {g r rest : List Glyph} {ds : List Nat} (h : spanDigits g = (ds, r))
    (hrest : endsValue rest = true) : spanDigits (g ++ rest) = (ds, r ++ rest) := by
  induction g generalizing ds r with
  | nil =>
    cases h
    exact spanDigits_of_endsValue hrest
  | cons d g ih =>
    rw [List.cons_append]
    unfold spanDigits at h ⊢
    cases hd : digit? d with
    | none =>
      rw [hd] at h
      cases h
      rfl
    | some n =>
      rw [hd] at h
      cases h
      rw [ih rfl]

theorem spanDigits_suffix {g r : List Glyph} {ds : List Nat} (h : spanDigits g = (ds, r)) :
    r <:+ g := by
  induction g generalizing ds r with
  | nil =>
    cases h
    exact List.suffix_refl []
  | cons d g ih =>
    unfold spanDigits at h
    cases hd : digit? d with
    | none =>
      rw [hd] at h
      cases h
      exact List.suffix_refl _
    | some n =>
      rw [hd] at h
      cases h
      exact (ih rfl).trans (List.suffix_cons d g)

end Digits

section Local

variable {α : Type}

/-- A reader takes something from the front of a text, and takes the same if more follows behind
what can follow a value. -/
def Local (read : Scan α) : Prop :=
  ∀ g v r, read g = .ok (v, r) →
    r <:+ g ∧ ∀ rest, endsValue rest = true → read (g ++ rest) = .ok (v, r ++ rest)

/-- The digits of a power of ten behind its sign. -/
def powerDigits (negative : Bool) (g : List Glyph) : Except ReadError (Front Int) :=
  match spanDigits g with
  | ([], []) => .error .ended
  | ([], _) => .error .malformed
  | (ds, r) => .ok (if negative then -(ofDigits ds : Int) else ofDigits ds, r)

theorem local_powerDigits (negative : Bool) : Local (powerDigits negative) := by
  intro g v r h
  unfold powerDigits at h ⊢
  cases hspan : spanDigits g with
  | mk ds r' =>
    rw [hspan] at h
    cases ds with
    | nil => cases r' <;> cases h
    | cons d ds =>
      cases h
      refine ⟨spanDigits_suffix hspan, fun rest hrest => ?_⟩
      rw [spanDigits_append hspan hrest]

theorem powerTail_of_digit {d : Glyph} (hplus : d ≠ .char '+') (hminus : d ≠ .char '-')
    (g : List Glyph) : powerTail (d :: g) = powerDigits false (d :: g) := by
  unfold powerTail
  split
  rename_i negative g' hsign
  split at hsign
  · rename_i hcons
    exact absurd (List.cons.inj hcons).1 hplus
  · rename_i hcons
    exact absurd (List.cons.inj hcons).1 hminus
  · cases hsign
    rfl

theorem local_powerTail : Local powerTail := by
  intro g v r h
  cases g with
  | nil => cases h
  | cons d g =>
    by_cases hplus : d = .char '+'
    · subst hplus
      obtain ⟨hsuffix, hmore⟩ := local_powerDigits false g v r h
      exact ⟨hsuffix.trans (List.suffix_cons _ g), hmore⟩
    by_cases hminus : d = .char '-'
    · subst hminus
      obtain ⟨hsuffix, hmore⟩ := local_powerDigits true g v r h
      exact ⟨hsuffix.trans (List.suffix_cons _ g), hmore⟩
    rw [powerTail_of_digit hplus hminus] at h
    obtain ⟨hsuffix, hmore⟩ := local_powerDigits false _ v r h
    refine ⟨hsuffix, fun rest hrest => ?_⟩
    rw [List.cons_append, powerTail_of_digit hplus hminus]
    exact hmore rest hrest

theorem realTail_of_power {c : Char} (hc : c = 'e' ∨ c = 'E') (negative : Bool) (significand : Nat)
    (exponent : Int) (g : List Glyph) : realTail negative significand exponent (.char c :: g) = (do
      let (power, r) ← powerTail g
      return (← realOf negative significand (exponent + power), r)) := by
  rcases hc with rfl | rfl <;> rfl

theorem realTail_of_end {g : List Glyph} (he : ∀ r, g ≠ .char 'e' :: r)
    (hE : ∀ r, g ≠ .char 'E' :: r) (negative : Bool) (significand : Nat) (exponent : Int) :
    realTail negative significand exponent g = (do
      return (← realOf negative significand exponent, g)) := by
  unfold realTail
  split
  · exact absurd rfl (he _)
  · exact absurd rfl (hE _)
  · rfl

theorem local_realTail (negative : Bool) (significand : Nat) (exponent : Int) :
    Local (realTail negative significand exponent) := by
  intro g v r h
  by_cases hpower : ∃ c r, (c = 'e' ∨ c = 'E') ∧ g = .char c :: r
  · obtain ⟨c, g, hc, rfl⟩ := hpower
    rw [realTail_of_power hc] at h
    obtain ⟨⟨power, r'⟩, htail, h⟩ := ok_of_bind h
    obtain ⟨x, hx, h⟩ := ok_of_bind h
    cases h
    obtain ⟨hsuffix, hmore⟩ := local_powerTail g power r htail
    refine ⟨hsuffix.trans (List.suffix_cons _ g), fun rest hrest => ?_⟩
    rw [List.cons_append, realTail_of_power hc, hmore rest hrest]
    simp only [bind, Except.bind, hx]
    rfl
  · have hend {g : List Glyph} (hg : ∀ c r, (c = 'e' ∨ c = 'E') → g ≠ .char c :: r) :
        realTail negative significand exponent g = (do
          return (← realOf negative significand exponent, g)) :=
      realTail_of_end (fun r => hg 'e' r (.inl rfl)) (fun r => hg 'E' r (.inr rfl)) ..
    have hg : ∀ c r, (c = 'e' ∨ c = 'E') → g ≠ .char c :: r :=
      fun c r hc heq => hpower ⟨c, r, hc, heq⟩
    rw [hend hg] at h
    obtain ⟨x, hx, h⟩ := ok_of_bind h
    cases h
    refine ⟨List.suffix_refl g, fun rest hrest => ?_⟩
    rw [hend]
    · simp only [bind, Except.bind, hx]
      rfl
    · intro c r hc heq
      cases g with
      | nil =>
        rw [List.nil_append] at heq
        subst heq
        rcases hc with rfl | rfl <;> cases hrest
      | cons d g =>
        rw [List.cons_append] at heq
        exact hg c g hc (by rw [(List.cons.inj heq).1])

/-- The fraction of a number behind its point, and whatever follows. -/
def fractionTail (negative : Bool) (significand dropped : Nat) (g : List Glyph) :
    Except ReadError (Front Numeral) :=
  match spanDigits g with
  | ([], []) => .error .ended
  | ([], _) => .error .malformed
  | (fs, r) =>
    realTail negative (absorb significand fs).1 (dropped + (absorb significand fs).2 - fs.length) r

theorem local_fractionTail (negative : Bool) (significand dropped : Nat) :
    Local (fractionTail negative significand dropped) := by
  intro g v r h
  unfold fractionTail at h ⊢
  cases hspan : spanDigits g with
  | mk fs r' =>
    rw [hspan] at h
    cases fs with
    | nil => cases r' <;> cases h
    | cons f fs =>
      obtain ⟨hsuffix, hmore⟩ := local_realTail _ _ _ r' v r h
      refine ⟨hsuffix.trans (spanDigits_suffix hspan), fun rest hrest => ?_⟩
      rw [spanDigits_append hspan hrest]
      exact hmore rest hrest

/-- What follows the first digits of a number. -/
def afterDigits (negative : Bool) (ds : List Nat) (g : List Glyph) :
    Except ReadError (Front Numeral) :=
  match g with
  | .char '.' :: r => fractionTail negative (absorb 0 ds).1 (absorb 0 ds).2 r
  | .char 'e' :: _ | .char 'E' :: _ => realTail negative (absorb 0 ds).1 (absorb 0 ds).2 g
  | _ => do return (← wholeOf negative ds, g)

theorem local_afterDigits (negative : Bool) (ds : List Nat) : Local (afterDigits negative ds) := by
  intro g v r h
  unfold afterDigits at h
  split at h
  · obtain ⟨hsuffix, hmore⟩ := local_fractionTail _ _ _ _ v r h
    exact ⟨hsuffix.trans (List.suffix_cons _ _), hmore⟩
  · exact local_realTail _ _ _ _ v r h
  · exact local_realTail _ _ _ _ v r h
  · rename_i hpoint he hE
    obtain ⟨x, hx, h⟩ := ok_of_bind h
    cases h
    refine ⟨List.suffix_refl _, fun rest hrest => ?_⟩
    have hwhole : afterDigits negative ds (g ++ rest) = (do
        return (← wholeOf negative ds, g ++ rest)) := by
      cases g with
      | nil =>
        cases rest with
        | nil => rfl
        | cons d rest => rcases endsValue_cons hrest with rfl | rfl | rfl <;> rfl
      | cons d g =>
        rw [List.cons_append]
        unfold afterDigits
        split
        · rename_i heq
          exact absurd (by rw [(List.cons.inj heq).1]) (hpoint g)
        · rename_i heq
          exact absurd (by rw [(List.cons.inj heq).1]) (he g)
        · rename_i heq
          exact absurd (by rw [(List.cons.inj heq).1]) (hE g)
        · rfl
    rw [hwhole, hx]
    rfl

/-- Digits that a number may begin with: there are some, and no zero stands in front of others. -/
def Begins (ds : List Nat) : Prop := ds ≠ [] ∧ ∀ e es, ds ≠ 0 :: e :: es

theorem numeralTail_of_begins {g r : List Glyph} {ds : List Nat} (hspan : spanDigits g = (ds, r))
    (hds : Begins ds) (negative : Bool) : numeralTail negative g = afterDigits negative ds r := by
  obtain ⟨hne, hzero⟩ := hds
  unfold numeralTail
  rw [hspan]
  split
  · rename_i heq
    cases heq
    exact absurd rfl hne
  · rename_i heq
    cases heq
    exact absurd rfl hne
  · rename_i heq
    cases heq
    exact absurd rfl (hzero _ _)
  · rename_i heq
    cases heq
    rfl

theorem begins_of_numeralTail {g : List Glyph} {negative : Bool} {v : Front Numeral}
    (h : numeralTail negative g = .ok v) : Begins (spanDigits g).1 := by
  unfold numeralTail at h
  split at h
  · cases h
  · cases h
  · cases h
  · rename_i ds r hended hmalformed hzero hspan
    rw [hspan]
    refine ⟨?_, fun e es heq => ?_⟩
    · rintro rfl
      cases r with
      | nil => exact hended rfl rfl
      | cons d r => exact hmalformed rfl
    · exact hzero e es heq

/-- What a number is read as depends on its own text. -/
theorem local_numeralTail (negative : Bool) : Local (numeralTail negative) := by
  intro g v r h
  have hbegins := begins_of_numeralTail h
  have hspan : spanDigits g = ((spanDigits g).1, (spanDigits g).2) := rfl
  rw [numeralTail_of_begins hspan hbegins] at h
  obtain ⟨hsuffix, hmore⟩ := local_afterDigits negative _ _ v r h
  refine ⟨hsuffix.trans (spanDigits_suffix hspan), fun rest hrest => ?_⟩
  rw [numeralTail_of_begins (spanDigits_append hspan hrest) hbegins]
  exact hmore rest hrest

end Local

section Integers

/-- The integers that are read as such: those of 64 bits, with a sign or without. -/
def IsWord (n : Int) : Prop := -(Number.twoTo 63 : Int) ≤ n ∧ n < Number.twoTo 64

theorem spanDigits_chars {ds : List Char} (h : ∀ c ∈ ds, c.isDigit = true) :
    spanDigits (ds.map .char) = (ds.map (·.toNat - 48), []) := by
  induction ds with
  | nil => rfl
  | cons d ds ih =>
    rw [List.map_cons, spanDigits, digit?_char (h d List.mem_cons_self)]
    simp only [ih fun c hc => h c (List.mem_cons_of_mem d hc), List.map_cons]

theorem ofDigits_chars (ds : List Char) :
    ofDigits (ds.map (·.toNat - 48)) = Nat.ofDigitChars 10 ds 0 := by
  rw [ofDigits, List.foldl_map, Nat.ofDigitChars_eq_foldl]
  rfl

/-- The digits of a natural number. -/
def digitsOf (n : Nat) : List Nat := (Nat.toDigits 10 n).map (·.toNat - 48)

theorem spanDigits_repr (n : Nat) : spanDigits (glyphs n.repr) = (digitsOf n, []) := by
  rw [glyphs, Nat.toList_repr]
  exact spanDigits_chars fun c hc => Nat.isDigit_of_mem_toDigits (by decide) (by decide) hc

theorem ofDigits_digitsOf (n : Nat) : ofDigits (digitsOf n) = n := by
  rw [digitsOf, ofDigits_chars, Nat.ofDigitChars_ten_toDigits]

theorem digitsOf_of_lt {n : Nat} (h : n < 10) : digitsOf n = [n] := by
  rw [digitsOf, Nat.toDigits_of_lt_base h, List.map_singleton,
    Nat.toNat_digitChar_sub_48_of_lt_ten h]

theorem digitsOf_of_le {n : Nat} (h : 10 ≤ n) : digitsOf n = digitsOf (n / 10) ++ [n % 10] := by
  rw [digitsOf, Nat.toDigits_of_base_le (by decide) h, List.map_append, List.map_singleton,
    Nat.toNat_digitChar_sub_48_of_lt_ten (Nat.mod_lt n (by decide))]
  rfl

theorem digitsOf_ne_nil (n : Nat) : digitsOf n ≠ [] := by simp [digitsOf]

/-- Only zero begins with a zero. -/
theorem eq_zero_of_digitsOf {n : Nat} {es : List Nat} (h : digitsOf n = 0 :: es) : n = 0 := by
  induction n using Nat.strongRecOn generalizing es with
  | ind n ih =>
    by_cases hn : n < 10
    · rw [digitsOf_of_lt hn] at h
      exact (List.cons.inj h).1
    · rw [digitsOf_of_le (by omega)] at h
      cases hhead : digitsOf (n / 10) with
      | nil => exact absurd hhead (digitsOf_ne_nil _)
      | cons d ds =>
        rw [hhead, List.cons_append] at h
        obtain rfl := (List.cons.inj h).1
        have hzero := ih (n / 10) (by omega) hhead
        omega

theorem begins_digitsOf (n : Nat) : Begins (digitsOf n) := by
  refine ⟨digitsOf_ne_nil n, fun e es h => ?_⟩
  obtain rfl := eq_zero_of_digitsOf h
  rw [digitsOf_of_lt (by decide)] at h
  cases h

theorem numeralTail_repr (negative : Bool) (n : Nat) {rest : List Glyph}
    (hrest : endsValue rest = true) : numeralTail negative (glyphs n.repr ++ rest) = (do
      return (← wholeOf negative (digitsOf n), rest)) := by
  rw [numeralTail_of_begins (spanDigits_append (spanDigits_repr n) hrest) (begins_digitsOf n),
    List.nil_append]
  cases rest with
  | nil => rfl
  | cons d rest => rcases endsValue_cons hrest with rfl | rfl | rfl <;> rfl

theorem wholeOf_nat {n : Nat} (h : n < Number.twoTo 64) :
    wholeOf false (digitsOf n) = .ok (.int n) := by
  simp [wholeOf, ofDigits_digitsOf, h]

theorem wholeOf_negative {n : Nat} (hpos : 0 < n) (h : n ≤ Number.twoTo 63) :
    wholeOf true (digitsOf n) = .ok (.int (-n)) := by
  simp [wholeOf, ofDigits_digitsOf, h, hpos]

/-- An integer is written with a sign if it is negative, and with digits. -/
theorem starts_repr (n : Nat) : ∃ c g, glyphs n.repr = .char c :: g ∧ c.isDigit = true := by
  cases hdigits : Nat.toDigits 10 n with
  | nil => exact absurd hdigits Nat.toDigits_ne_nil
  | cons c cs =>
    refine ⟨c, cs.map .char, by rw [glyphs, Nat.toList_repr, hdigits]; rfl, ?_⟩
    exact Nat.isDigit_of_mem_toDigits (by decide) (by decide) (hdigits ▸ List.mem_cons_self)

theorem isSpace_of_isDigit {c : Char} (h : c.isDigit = true) : isSpace (.char c) = false := by
  have hne : c ≠ ' ' ∧ c ≠ '\n' ∧ c ≠ '\t' ∧ c ≠ '\r' := by
    refine ⟨?_, ?_, ?_, ?_⟩ <;> (rintro rfl; cases h)
  simp [isSpace, hne]

/-- A value that begins with a digit is a number. -/
theorem valueWith_digit {c : Char} (hc : c.isDigit = true) (nested : Option (Scan Document))
    (g : List Glyph) : valueWith nested (.char c :: g) = (do
      let (n, r) ← numeralTail false (.char c :: g)
      return (.number n, r)) := by
  rw [valueWith, skipSpace_cons (isSpace_of_isDigit hc)]
  split
  case h_9 heq =>
    cases heq
    rw [digit?_char hc]
    rfl
  all_goals
    rename_i heq
    cases heq
    try cases hc

/-- A value that begins with a minus sign is a number. -/
theorem valueWith_minus (nested : Option (Scan Document)) (g : List Glyph) :
    valueWith nested (.char '-' :: g) = (do
      let (n, r) ← numeralTail true g
      return (.number n, r)) := rfl

/-- Integers of 64 bits are read back. -/
theorem valueWith_int {n : Int} (h : IsWord n) (nested : Option (Scan Document)) :
    Spells (valueWith nested) (renderNumeral (.int n)) (.number (.int n)) := by
  obtain ⟨hlow, hhigh⟩ := h
  rw [renderNumeral]
  split
  · rename_i hneg
    have hglyphs : glyphs ("-" ++ n.natAbs.repr) = .char '-' :: glyphs n.natAbs.repr := by
      rw [glyphs_append]
      rfl
    refine ⟨⟨'-', _, hglyphs, rfl, by decide⟩, fun rest hrest => ?_⟩
    rw [hglyphs, List.cons_append, valueWith_minus, numeralTail_repr true _ hrest,
      wholeOf_negative (by omega) (by omega)]
    have habs : -(n.natAbs : Int) = n := by omega
    simp only [habs]
    rfl
  · obtain ⟨c, g, hglyphs, hc⟩ := starts_repr n.natAbs
    refine ⟨⟨c, g, hglyphs, isSpace_of_isDigit hc, by rintro rfl; cases hc⟩, fun rest hrest => ?_⟩
    have habs : (n.natAbs : Int) = n := by omega
    rw [hglyphs, List.cons_append, valueWith_digit hc, ← List.cons_append, ← hglyphs,
      numeralTail_repr false _ hrest, wholeOf_nat (by omega), habs]
    rfl

theorem real_of_realOf {negative : Bool} {significand : Nat} {exponent : Int} {n : Numeral}
    (h : realOf negative significand exponent = .ok n) : ∃ x, n = .real x := by
  unfold realOf at h
  split at h
  · cases h
    exact ⟨_, rfl⟩
  · cases h

theorem real_of_realTail {negative : Bool} {significand : Nat} {exponent : Int} {g r : List Glyph}
    {n : Numeral} (h : realTail negative significand exponent g = .ok (n, r)) :
    ∃ x, n = .real x := by
  unfold realTail at h
  split at h
  case h_3 =>
    obtain ⟨m, hm, h⟩ := ok_of_bind h
    cases h
    exact real_of_realOf hm
  all_goals
    obtain ⟨_, _, h⟩ := ok_of_bind h
    obtain ⟨m, hm, h⟩ := ok_of_bind h
    cases h
    exact real_of_realOf hm

theorem real_of_fractionTail {negative : Bool} {significand dropped : Nat} {g r : List Glyph}
    {n : Numeral} (h : fractionTail negative significand dropped g = .ok (n, r)) :
    ∃ x, n = .real x := by
  unfold fractionTail at h
  split at h
  · cases h
  · cases h
  · exact real_of_realTail h

theorem isWord_of_wholeOf {negative : Bool} {ds : List Nat} {n : Int}
    (h : wholeOf negative ds = .ok (.int n)) : IsWord n := by
  unfold wholeOf at h
  dsimp only at h
  split at h
  · rename_i hsmall
    cases h
    simp only [Bool.and_eq_true, decide_eq_true_eq] at hsmall
    exact ⟨by omega, by omega⟩
  · split at h
    · rename_i hsmall
      cases h
      simp only [Bool.and_eq_true, decide_eq_true_eq] at hsmall
      exact ⟨by omega, by omega⟩
    · obtain ⟨x, hx⟩ := real_of_realOf h
      cases hx

/-- An integer that is read has at most 64 bits. -/
theorem isWord_of_numeralTail {negative : Bool} {g r : List Glyph} {n : Int}
    (h : numeralTail negative g = .ok (.int n, r)) : IsWord n := by
  have hspan : spanDigits g = ((spanDigits g).1, (spanDigits g).2) := rfl
  rw [numeralTail_of_begins hspan (begins_of_numeralTail h)] at h
  unfold afterDigits at h
  split at h
  · obtain ⟨x, hx⟩ := real_of_fractionTail h
    cases hx
  · obtain ⟨x, hx⟩ := real_of_realTail h
    cases hx
  · obtain ⟨x, hx⟩ := real_of_realTail h
    cases hx
  · obtain ⟨m, hm, h⟩ := ok_of_bind h
    cases h
    exact isWord_of_wholeOf hm

end Integers

section Characters

/-- The characters that numbers are written in. -/
def inNumeral (c : Char) : Bool := c.isDigit || c = '-' || c = '+' || c = '.' || c = 'e'

theorem isSpace_of_inNumeral {c : Char} (h : inNumeral c = true) : isSpace (.char c) = false := by
  simp only [inNumeral, Bool.or_eq_true, decide_eq_true_eq] at h
  rcases h with (((h | rfl) | rfl) | rfl) | rfl
  · exact isSpace_of_isDigit h
  all_goals rfl

/-- A text in which only such characters stand. -/
def Numeric (s : String) : Prop := ∀ c ∈ s.toList, inNumeral c = true

instance (s : String) : Decidable (Numeric s) :=
  decidable_of_iff (s.toList.all inNumeral = true) (by simp [Numeric])

theorem Numeric.append {s t : String} (hs : Numeric s) (ht : Numeric t) : Numeric (s ++ t) := by
  intro c hc
  rw [String.toList_append, List.mem_append] at hc
  exact hc.elim (hs c) (ht c)

theorem numeric_repr (n : Nat) : Numeric n.repr := by
  intro c hc
  rw [Nat.toList_repr] at hc
  have hdigit : c.isDigit = true := Nat.isDigit_of_mem_toDigits (by decide) (by decide) hc
  simp [inNumeral, hdigit]

theorem numeric_zeros (n : Nat) : Numeric (Number.zeros n) := by
  intro c hc
  rw [Number.zeros, String.toList_ofList] at hc
  rw [List.eq_of_mem_replicate hc]
  rfl

theorem Numeric.pointed {digits : String} (h : Numeric digits) (lead : Nat) :
    Numeric (Number.Layout.pointed digits lead) := by
  refine (Numeric.append ?_ (by decide)).append ?_
  · intro c hc
    rw [String.toList_ofList] at hc
    exact h c (List.mem_of_mem_take hc)
  · intro c hc
    rw [String.toList_ofList] at hc
    exact h c (List.mem_of_mem_drop hc)

theorem Numeric.plainText {digits : String} (h : Numeric digits) (exponent : Int) :
    Numeric (realLayout.plainText digits exponent) := by
  have hwhole : Numeric realLayout.whole := by decide
  have hzero : Numeric "0." := by decide
  rw [Number.Layout.plainText]
  split
  · exact (h.append (numeric_zeros _)).append hwhole
  · split
    · exact h.pointed _
    · exact (hzero.append (numeric_zeros _)).append h

theorem Numeric.powerText {digits : String} (h : Numeric digits) (exponent : Int) :
    Numeric (Number.Layout.powerText digits exponent) := by
  have hmark : Numeric "e" := by decide
  rw [Number.Layout.powerText]
  refine ((Numeric.append ?_ hmark).append ?_).append (numeric_repr _)
  · split
    · exact h
    · exact h.pointed 1
  · split <;> decide

theorem numeric_realText (x : Number.Binary64) : Numeric (realLayout.text x) := by
  rw [Number.Layout.text]
  refine Numeric.append ?_ ?_
  · split <;> decide
  · have hdigits := numeric_repr (Number.shortest x.rank).digits
    split
    · decide
    · dsimp only
      split
      · exact hdigits.plainText _
      · exact hdigits.powerText _

theorem numeric_renderNumeral (n : Numeral) : Numeric (renderNumeral n) := by
  cases n with
  | int n =>
    have hsign : Numeric "-" := by decide
    rw [renderNumeral]
    split
    · exact hsign.append (numeric_repr _)
    · exact numeric_repr _
  | real x => exact numeric_realText x

end Characters

end RobotDesk.Json
