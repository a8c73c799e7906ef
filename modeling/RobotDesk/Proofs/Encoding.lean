import RobotDesk.Wire.Url

/-!
Texts on the wire.

A text that is sent as UTF-8 is received as it was: the bytes of each character are read as that
character, whatever follows them.  A name or a value that is written into a form is read there as it
was, since everything that has a meaning in a form is escaped.  So a parameter that is put into an
address is found in it again.
-/
namespace RobotDesk.Text

theorem lead_whole : ∀ n < 128, lead (.ofNat n) = .whole (.ofNat n) := by decide

theorem lead_two : ∀ k < 32, 2 ≤ k → lead (.ofNat (k + 192)) = .opens ⟨1, 0x80, 0xbf, k⟩ := by
  decide

theorem lead_three : ∀ k < 16, lead (.ofNat (k + 224)) =
    .opens ⟨2, if k = 0 then 0xa0 else 0x80, if k = 13 then 0x9f else 0xbf, k⟩ := by
  decide

theorem lead_four : ∀ k < 5, lead (.ofNat (k + 240)) =
    .opens ⟨3, if k = 0 then 0x90 else 0x80, if k = 4 then 0x8f else 0xbf, k⟩ := by
  decide

section Continuation

variable {low high : UInt8} {k : Nat} (hk : k < 64) (hlow : low.toNat ≤ k + 128)
  (hhigh : k + 128 ≤ high.toNat) (bits : Nat) (before : List Glyph) (bs : List UInt8)

include hk hlow hhigh

theorem continues_ofNat : (low ≤ .ofNat (k + 128) && .ofNat (k + 128) ≤ high) = true ∧
    (UInt8.ofNat (k + 128)).toNat - 0x80 = k := by
  have hbyte : (UInt8.ofNat (k + 128)).toNat = k + 128 :=
    UInt8.toNat_ofNat_of_lt' (show k + 128 < 256 by omega)
  simp only [Bool.and_eq_true, decide_eq_true_eq, UInt8.le_iff_toNat_le, hbyte]
  omega

theorem readBytes_next (owed : Nat) :
    readBytes before (some ⟨owed + 2, low, high, bits⟩) (.ofNat (k + 128) :: bs) =
      readBytes before (some ⟨owed + 1, 0x80, 0xbf, bits * 64 + k⟩) bs := by
  obtain ⟨hrange, hbits⟩ := continues_ofNat hk hlow hhigh
  rw [readBytes, if_pos hrange, hbits, if_neg (by simp)]
  rfl

theorem readBytes_last : readBytes before (some ⟨1, low, high, bits⟩) (.ofNat (k + 128) :: bs) =
    readBytes (.char (.ofNat (bits * 64 + k)) :: before) none bs := by
  obtain ⟨hrange, hbits⟩ := continues_ofNat hk hlow hhigh
  rw [readBytes, if_pos hrange, hbits, if_pos (Nat.le_refl 1)]

end Continuation

theorem readBytes_opens {b : UInt8} {u : Unfinished} (h : lead b = .opens u) (before : List Glyph)
    (bs : List UInt8) : readBytes before none (b :: bs) = readBytes before (some u) bs := by
  rw [readBytes, h]

section Spelling

variable {v : Nat} (before : List Glyph) (bs : List UInt8)

theorem readBytes_two (hlow : 127 < v) (hhigh : v ≤ 2047) :
    readBytes before none (.ofNat (v / 64 % 32 + 192) :: .ofNat (v % 64 + 128) :: bs) =
      readBytes (.char (.ofNat v) :: before) none bs := by
  have hv : v / 64 % 32 * 64 + v % 64 = v := by omega
  rw [readBytes_opens (lead_two _ (by omega) (by omega)),
    readBytes_last (by omega) (by simp) (by simp; omega), hv]

/-- A surrogate would have a greater second byte after `ED` than may stand there. -/
theorem readBytes_three (hlow : 2047 < v) (hhigh : v ≤ 65535) (hvalid : v < 0xd800 ∨ 0xdfff < v) :
    readBytes before none
        (.ofNat (v / 4096 % 16 + 224) :: .ofNat (v / 64 % 64 + 128) ::
          .ofNat (v % 64 + 128) :: bs) =
      readBytes (.char (.ofNat v) :: before) none bs := by
  have hv : (v / 4096 % 16 * 64 + v / 64 % 64) * 64 + v % 64 = v := by omega
  have hfirst : (if v / 4096 % 16 = 0 then 0xa0 else 0x80 : UInt8).toNat ≤ v / 64 % 64 + 128 := by
    split
    · change 0xa0 ≤ _
      omega
    · change 0x80 ≤ _
      omega
  have hlast : v / 64 % 64 + 128 ≤ (if v / 4096 % 16 = 13 then 0x9f else 0xbf : UInt8).toNat := by
    split
    · change _ ≤ 0x9f
      omega
    · change _ ≤ 0xbf
      omega
  rw [readBytes_opens (lead_three _ (by omega)),
    readBytes_next (by omega) hfirst hlast,
    readBytes_last (by omega) (by simp) (by simp; omega), hv]

theorem readBytes_four (hlow : 65535 < v) (hhigh : v < 0x110000) :
    readBytes before none
        (.ofNat (v / 262144 % 8 + 240) :: .ofNat (v / 4096 % 64 + 128) ::
          .ofNat (v / 64 % 64 + 128) :: .ofNat (v % 64 + 128) :: bs) =
      readBytes (.char (.ofNat v) :: before) none bs := by
  have hv : ((v / 262144 % 8 * 64 + v / 4096 % 64) * 64 + v / 64 % 64) * 64 + v % 64 = v := by omega
  have hfirst : (if v / 262144 % 8 = 0 then 0x90 else 0x80 : UInt8).toNat ≤
      v / 4096 % 64 + 128 := by
    split
    · change 0x90 ≤ _
      omega
    · change 0x80 ≤ _
      omega
  have hlast : v / 4096 % 64 + 128 ≤ (if v / 262144 % 8 = 4 then 0x8f else 0xbf : UInt8).toNat := by
    split
    · change _ ≤ 0x8f
      omega
    · change _ ≤ 0xbf
      omega
  rw [readBytes_opens (lead_four _ (by omega)),
    readBytes_next (by omega) hfirst hlast,
    readBytes_next (by omega) (by simp) (by simp; omega),
    readBytes_last (by omega) (by simp) (by simp; omega), hv]

end Spelling

/-- The bytes of a character are read as that character, whatever follows. -/
theorem readBytes_utf8EncodeChar (c : Char) (before : List Glyph) (bs : List UInt8) :
    readBytes before none (String.utf8EncodeChar c ++ bs) =
      readBytes (.char c :: before) none bs := by
  obtain ⟨v, hv⟩ : ∃ v, c.val.toNat = v := ⟨_, rfl⟩
  have hvalid : c.val.toNat < 0xd800 ∨ 0xdfff < c.val.toNat ∧ c.val.toNat < 0x110000 := c.valid
  have hc : Char.ofNat c.val.toNat = c := c.ofNat_toNat
  unfold String.utf8EncodeChar
  rw [hv] at hvalid hc
  simp only [hv]
  split
  · rw [List.cons_append, readBytes, lead_whole v (by omega), hc]
    rfl
  split
  · exact hc ▸ readBytes_two before bs (by omega) (by omega)
  split
  · exact hc ▸ readBytes_three before bs (by omega) (by omega) (by omega)
  · exact hc ▸ readBytes_four before bs (by omega) (by omega)

theorem readBytes_utf8 (cs : List Char) (before : List Glyph) :
    readBytes before none (cs.flatMap String.utf8EncodeChar) = before.reverse ++ cs.map .char := by
  induction cs generalizing before with
  | nil => simp [readBytes]
  | cons c cs ih =>
    rw [List.flatMap_cons, readBytes_utf8EncodeChar, ih]
    simp

/-- A text that is sent is received as it was. -/
theorem ofBytes_utf8 (s : String) : ofBytes (utf8 s) = glyphs s := readBytes_utf8 s.toList []

theorem shownBytes_utf8 (cs : List Char) :
    shownBytes (cs.flatMap String.utf8EncodeChar) = String.ofList cs := by
  simp [shownBytes, ofBytes, readBytes_utf8, Function.comp_def]

theorem splitOn_eq_singleton {separator : Char} {cs : List Char} (h : separator ∉ cs) :
    splitOn separator cs = [cs] := by
  induction cs with
  | nil => rfl
  | cons c cs ih =>
    rw [List.mem_cons, not_or] at h
    rw [splitOn, if_neg (Ne.symm h.1), ih h.2]

end RobotDesk.Text

namespace RobotDesk.Wire

theorem hexValue?_upperHex : ∀ n < 16, hexValue? (upperHex n) = some n := by decide

theorem unescape_escapeByte (b : UInt8) (rest : List Char) :
    unescape (escapeByte b ++ rest) = b :: unescape rest := by
  have hhigh := hexValue?_upperHex (b.toNat / 16) (by have := b.toNat_lt; omega)
  have hlow := hexValue?_upperHex (b.toNat % 16) (by omega)
  have hb : 16 * (b.toNat / 16) + b.toNat % 16 = b.toNat := by omega
  simp only [escapeByte, List.cons_append, List.nil_append]
  rw [unescape]
  simp only [hhigh, hlow, hb, UInt8.ofNat_toNat]

theorem unescape_escapeBytes (bs : List UInt8) (rest : List Char) :
    unescape (bs.flatMap escapeByte ++ rest) = bs ++ unescape rest := by
  induction bs with
  | nil => rfl
  | cons b bs ih =>
    rw [List.flatMap_cons, List.append_assoc, unescape_escapeByte, ih]
    rfl

theorem unescape_cons_of_ne {c : Char} (h : c ≠ '%') (rest : List Char) :
    unescape (c :: rest) = String.utf8EncodeChar c ++ unescape rest := by
  rw [unescape]
  intro _ _ _ hc
  exact absurd hc h

namespace Form

/-- The characters that a name or a value is written in. -/
def isWritten (c : Char) : Bool := stays c || c = '+' || c = '%'

theorem isWritten_of_mem_escapeByte {b : UInt8} {d : Char} (h : d ∈ escapeByte b) :
    isWritten d = true ∧ d ≠ '+' := by
  have hhex : ∀ n < 16, isWritten (upperHex n) = true ∧ upperHex n ≠ '+' := by decide
  simp only [escapeByte, List.mem_cons, List.not_mem_nil, or_false] at h
  rcases h with rfl | rfl | rfl
  · decide
  · exact hhex _ (by have := b.toNat_lt; omega)
  · exact hhex _ (by omega)

theorem isWritten_of_mem_encodeChar {c d : Char} (h : d ∈ encodeChar c) : isWritten d = true := by
  unfold encodeChar escapeChar at h
  split at h
  · obtain rfl := List.mem_singleton.mp h
    rfl
  split at h
  · rename_i hstays
    obtain rfl := List.mem_singleton.mp h
    simp [isWritten, hstays]
  · obtain ⟨b, -, hd⟩ := List.mem_flatMap.mp h
    exact (isWritten_of_mem_escapeByte hd).1

/-- The characters that divide a form are escaped. -/
theorem not_mem_encode {c : Char} (h : isWritten c = false) (s : String) :
    c ∉ (encode s).toList := by
  intro hmem
  simp only [encode, String.toList_ofList, List.mem_flatMap] at hmem
  obtain ⟨d, -, hd⟩ := hmem
  rw [isWritten_of_mem_encodeChar hd] at h
  cases h

/-- Blanks for plus signs. -/
def blanked (cs : List Char) : List Char := cs.map fun c => if c = '+' then ' ' else c

theorem blanked_eq_self {cs : List Char} (h : ∀ c ∈ cs, c ≠ '+') : blanked cs = cs := by
  calc blanked cs = cs.map id := List.map_congr_left fun c hc => by simp [h c hc]
    _ = cs := List.map_id cs

/-- What a character is written as is read as its bytes, whatever follows. -/
theorem unescape_encodeChar (c : Char) (rest : List Char) :
    unescape (blanked (encodeChar c) ++ rest) = String.utf8EncodeChar c ++ unescape rest := by
  unfold encodeChar escapeChar
  split
  · rename_i hblank
    subst hblank
    exact unescape_cons_of_ne (by decide) rest
  split
  · rename_i hstays
    have hplus : c ≠ '+' := by
      rintro rfl
      exact absurd hstays (by decide)
    have hpercent : c ≠ '%' := by
      rintro rfl
      exact absurd hstays (by decide)
    rw [blanked_eq_self (by simpa using hplus)]
    exact unescape_cons_of_ne hpercent rest
  · rw [blanked_eq_self, unescape_escapeBytes]
    intro d hd
    obtain ⟨b, -, hd⟩ := List.mem_flatMap.mp hd
    exact (isWritten_of_mem_escapeByte hd).2

theorem unescape_encode (cs : List Char) :
    unescape (blanked (cs.flatMap encodeChar)) = cs.flatMap String.utf8EncodeChar := by
  induction cs with
  | nil => simp [blanked, unescape]
  | cons c cs ih =>
    rw [List.flatMap_cons, List.flatMap_cons, ← ih, ← unescape_encodeChar]
    simp [blanked]

/-- A name or a value is read as it was written. -/
theorem decode_encode (s : String) : decode (encode s).toList = s := by
  have h := unescape_encode s.toList
  simp only [blanked] at h
  simp [decode, encode, h, Text.shownBytes_utf8]

theorem pairs_encode (name value : String) :
    pairs (encode name ++ "=" ++ encode value) = [(name, value)] := by
  have hname : ∀ c ∈ (encode name).toList, c ≠ '=' := fun c hc h =>
    not_mem_encode (by decide) name (h ▸ hc)
  obtain ⟨part, hpart⟩ : ∃ part, part = (encode name).toList ++ '=' :: (encode value).toList :=
    ⟨_, rfl⟩
  have hwhole : Text.splitOn '&' (encode name ++ "=" ++ encode value).toList = [part] := by
    rw [Text.splitOn_eq_singleton]
    · simp [hpart]
    · simp [not_mem_encode (c := '&') (by decide)]
  have htake : part.takeWhile (· ≠ '=') = (encode name).toList := by
    rw [hpart, List.takeWhile_append_of_pos (by simpa using hname)]
    simp
  have hdrop : part.dropWhile (· ≠ '=') = '=' :: (encode value).toList := by
    rw [hpart, List.dropWhile_append_of_pos (by simpa using hname)]
    simp
  rw [pairs, hwhole, List.filter_cons_of_pos (by simp [hpart]), List.filter_nil, List.map_cons,
    List.map_nil, htake, hdrop, decode_encode, List.drop_one, List.tail_cons, decode_encode]

end Form

namespace Url

/-- The address without its query. -/
def place (u : Url) : Url := { u with query := none }

/-- The first parameter of a name in the query, as it is read from there. -/
def parameter? (name : String) (u : Url) : Option String :=
  u.query.bind fun q => (Form.pairs q).lookup name

/-- A parameter that is put into an address without a query is read there as it was. -/
theorem parameter?_withParameter {u : Url} (h : u.query = none) (name value : String) :
    parameter? name (u.withParameter name value) = some value := by
  simp [parameter?, withParameter, h, Form.pairs_encode]

end Url
end RobotDesk.Wire
