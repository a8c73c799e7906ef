import RobotDesk.Proofs.Encoding

/-!
Percent escapes that are already in a text.

Escaping the characters that may not stand in a path leaves percent signs alone, so what a path
segment is read as is what the text itself is read as.  That is the text, byte for byte, exactly if
no percent sign in it stands in front of two hexadecimal digits: every other reading is shorter.
-/
namespace RobotDesk.Wire

section Escapes

def isHex (c : Char) : Bool := (hexValue? c).isSome

/-- Whether a text starts with two hexadecimal digits. -/
def startsHex : List Char → Bool
  | high :: low :: _ => isHex high && isHex low
  | _ => false

/-- Whether somewhere in a text a percent sign stands in front of two hexadecimal digits. -/
def hasEscape : List Char → Bool
  | [] => false
  | c :: cs => (c = '%' && startsHex cs) || hasEscape cs

/-- A percent sign that starts no escape is read as itself. -/
theorem unescape_percent_of_not {cs : List Char} (h : startsHex cs = false) :
    unescape ('%' :: cs) = String.utf8EncodeChar '%' ++ unescape cs := by
  match cs with
  | [] => simp [unescape]
  | [c] => rw [unescape]; simp
  | high :: low :: rest =>
    rw [unescape]
    cases hhigh : hexValue? high with
    | none => rfl
    | some m =>
      cases hlow : hexValue? low with
      | none => rfl
      | some n => simp [startsHex, isHex, hhigh, hlow] at h

/-- An escape is read as one byte. -/
theorem unescape_percent_of_hex {high low : Char} (hhigh : isHex high = true)
    (hlow : isHex low = true) :
    ∃ b : UInt8, ∀ rest, unescape ('%' :: high :: low :: rest) = b :: unescape rest := by
  obtain ⟨m, hm⟩ := Option.isSome_iff_exists.mp hhigh
  obtain ⟨n, hn⟩ := Option.isSome_iff_exists.mp hlow
  refine ⟨.ofNat (16 * m + n), fun rest => ?_⟩
  rw [unescape]
  simp only [hm, hn]

/-- Induction along the reading of a text: a character that starts no escape, or an escape. -/
theorem escape_induction {motive : List Char → Prop} (nil : motive [])
    (char : ∀ c cs, (c = '%' && startsHex cs) = false → motive cs → motive (c :: cs))
    (escape : ∀ high low cs, isHex high = true → isHex low = true → motive cs →
      motive ('%' :: high :: low :: cs)) (cs : List Char) : motive cs := by
  match cs with
  | [] => exact nil
  | c :: cs =>
    cases h : (c = '%' && startsHex cs : Bool) with
    | false => exact char c cs h (escape_induction nil char escape cs)
    | true =>
      match cs with
      | [] => simp [startsHex] at h
      | [_] => simp [startsHex] at h
      | high :: low :: rest =>
        simp only [startsHex, Bool.and_eq_true, decide_eq_true_eq] at h
        obtain ⟨rfl, hhigh, hlow⟩ := h
        exact escape high low rest hhigh hlow (escape_induction nil char escape rest)
termination_by cs.length

theorem unescape_cons_of_no_escape {c : Char} {cs : List Char}
    (h : (c = '%' && startsHex cs) = false) :
    unescape (c :: cs) = String.utf8EncodeChar c ++ unescape cs := by
  by_cases hc : c = '%'
  · subst hc
    exact unescape_percent_of_not (by simpa using h)
  · exact unescape_cons_of_ne hc cs

end Escapes

section Length

/-- The number of bytes of a text. -/
def byteCount (cs : List Char) : Nat := (cs.flatMap String.utf8EncodeChar).length

@[simp] theorem byteCount_cons (c : Char) (cs : List Char) :
    byteCount (c :: cs) = (String.utf8EncodeChar c).length + byteCount cs := by
  simp [byteCount]

theorem one_le_length_utf8EncodeChar (c : Char) : 1 ≤ (String.utf8EncodeChar c).length := by
  rw [String.length_utf8EncodeChar]
  exact c.utf8Size_pos

theorem eq_of_sublist_of_byteCount_le {cs ds : List Char} (hsub : cs.Sublist ds)
    (hle : byteCount ds ≤ byteCount cs) : cs = ds := by
  induction hsub with
  | slnil => rfl
  | @cons cs ds d hsub ih =>
    have hmore := one_le_length_utf8EncodeChar d
    simp only [byteCount_cons] at hle
    obtain rfl := ih (by omega)
    omega
  | @cons_cons cs ds d hsub ih =>
    simp only [byteCount_cons] at hle
    rw [ih (by omega)]

/-- Every escape makes the reading shorter. -/
theorem length_unescape_add (cs : List Char) :
    (unescape cs).length + (hasEscape cs).toNat ≤ byteCount cs := by
  induction cs using escape_induction with
  | nil => simp [unescape, hasEscape]
  | char c cs hc ih =>
    rw [unescape_cons_of_no_escape hc, hasEscape, hc, Bool.false_or, List.length_append,
      byteCount_cons]
    omega
  | escape high low cs hhigh hlow ih =>
    obtain ⟨b, hb⟩ := unescape_percent_of_hex hhigh hlow
    have h₁ := one_le_length_utf8EncodeChar '%'
    have h₂ := one_le_length_utf8EncodeChar high
    have h₃ := one_le_length_utf8EncodeChar low
    have hone := (hasEscape ('%' :: high :: low :: cs)).toNat_le
    simp only [hb, List.length_cons, byteCount_cons]
    omega

/-- A text is read as its own bytes exactly if there is no escape in it. -/
theorem unescape_eq_utf8_iff (cs : List Char) :
    unescape cs = cs.flatMap String.utf8EncodeChar ↔ hasEscape cs = false := by
  constructor
  · intro h
    have hlength := length_unescape_add cs
    rw [h] at hlength
    cases hescape : hasEscape cs with
    | false => rfl
    | true =>
      simp only [hescape, byteCount, Bool.toNat_true] at hlength
      omega
  · intro h
    induction cs with
    | nil => simp [unescape]
    | cons c cs ih =>
      rw [hasEscape, Bool.or_eq_false_iff] at h
      rw [unescape_cons_of_no_escape h.1, ih h.2, List.flatMap_cons]

end Length

namespace Url

theorem staysInPath_of_isHex {c : Char} (h : isHex c = true) : staysInPath c = true := by
  have htable : ∀ n < 128, isHex (.ofNat n) = true → staysInPath (.ofNat n) = true := by decide
  have hsmall : c.toNat < 128 := by
    unfold isHex hexValue? at h
    split at h
    · simp_all [Char.isDigit, UInt32.le_iff_toNat_le]
      omega
    split at h
    · simp_all [Char.le_def, UInt32.le_iff_toNat_le]
      omega
    split at h
    · simp_all [Char.le_def, UInt32.le_iff_toNat_le]
      omega
    · cases h
  have hc := htable c.toNat hsmall
  rw [Char.ofNat_toNat] at hc
  exact hc h

theorem startsHex_cons_of_not {c : Char} (h : isHex c = false) (cs : List Char) :
    startsHex (c :: cs) = false := by
  cases cs with
  | nil => rfl
  | cons d ds => simp [startsHex, h]

/-- What is no digit is escaped to what starts with no digit. -/
theorem escapeChar_of_not_isHex {c : Char} (h : isHex c = false) :
    ∃ d ds, isHex d = false ∧ escapeChar staysInPath c = d :: ds := by
  unfold escapeChar
  split
  · exact ⟨c, [], h, rfl⟩
  · obtain ⟨b, bs, hbytes⟩ := List.exists_cons_of_length_pos (one_le_length_utf8EncodeChar c)
    exact ⟨'%', _, by decide, by rw [hbytes]; rfl⟩

theorem escapeChar_of_isHex {c : Char} (h : isHex c = true) : escapeChar staysInPath c = [c] :=
  if_pos (staysInPath_of_isHex h)

theorem startsHex_escaped (cs : List Char) :
    startsHex (cs.flatMap (escapeChar staysInPath)) = startsHex cs := by
  match cs with
  | [] => rfl
  | high :: rest =>
    rw [List.flatMap_cons]
    cases hhigh : isHex high with
    | false =>
      obtain ⟨d, ds, hd, heq⟩ := escapeChar_of_not_isHex hhigh
      rw [heq, List.cons_append, startsHex_cons_of_not hd, startsHex_cons_of_not hhigh]
    | true =>
      rw [escapeChar_of_isHex hhigh]
      match rest with
      | [] => rfl
      | low :: rest =>
        rw [List.flatMap_cons]
        cases hlow : isHex low with
        | false =>
          obtain ⟨d, ds, hd, heq⟩ := escapeChar_of_not_isHex hlow
          simp [heq, startsHex, hd, hlow]
        | true => simp [escapeChar_of_isHex hlow, startsHex]

/-- Escaping for a path does not change what a text is read as. -/
theorem unescape_escapeSegment (cs : List Char) :
    unescape (escapeSegment cs).toList = unescape cs := by
  rw [escapeSegment, String.toList_ofList]
  induction cs using escape_induction with
  | nil => rfl
  | char c cs hc ih =>
    rw [unescape_cons_of_no_escape hc, List.flatMap_cons, ← ih]
    unfold escapeChar
    split
    · exact unescape_cons_of_no_escape (by rwa [← startsHex_escaped] at hc)
    · exact unescape_escapeBytes _ _
  | escape high low cs hhigh hlow ih =>
    obtain ⟨b, hb⟩ := unescape_percent_of_hex hhigh hlow
    have hpercent : escapeChar staysInPath '%' = ['%'] := by decide
    simp [hb, hpercent, escapeChar_of_isHex hhigh, escapeChar_of_isHex hlow, ih]

end Url
end RobotDesk.Wire
