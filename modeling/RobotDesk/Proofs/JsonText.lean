import RobotDesk.Json.Codec

/-!
Compact JSON text is read as what it was written for.

A reader takes a text for a value in front of whatever can follow a value in a text without blanks:
a comma, the end of an array or object, or nothing.  This is shown for strings, for the items of an
array and the members of an object with any readers for what stands inside, and so for values and
for the fields of a record.
-/
namespace RobotDesk.Json

open Text

section Strings

theorem hexValue?_hexDigit : ∀ n < 16, hexValue? (hexDigit n) = some n := by decide

/-- The characters that have no short escape are given by their numbers. -/
theorem unicodeEscape_low {c : Char} (h : c.toNat < 32) (rest : List Glyph) :
    unicodeEscape (.char '0' :: .char '0' :: .char (hexDigit (c.toNat / 16)) ::
      .char (hexDigit (c.toNat % 16)) :: rest) = .ok (c, rest) := by
  have hhigh := hexValue?_hexDigit (c.toNat / 16) (by omega)
  have hlow := hexValue?_hexDigit (c.toNat % 16) (by omega)
  have hzero : hexValue? '0' = some 0 := by decide
  have hvalue : 0 * 4096 + 0 * 256 + c.toNat / 16 * 16 + c.toNat % 16 = c.toNat := by omega
  have hescape : hexEscape (.char '0' :: .char '0' :: .char (hexDigit (c.toNat / 16)) ::
      .char (hexDigit (c.toNat % 16)) :: rest) = .ok (c.toNat, rest) := by
    simp only [hexEscape, List.take_succ_cons, List.take_zero, hexFour?, hzero, hhigh, hlow,
      Option.bind_eq_bind, Option.bind_some, Option.pure_def, hvalue, List.drop_succ_cons,
      List.drop_zero]
  rw [unicodeEscape, hescape]
  change (if 0xdc00 ≤ c.toNat ∧ c.toNat ≤ 0xdfff then _ else _) = _
  rw [if_neg (by omega), if_pos (by omega), Char.ofNat_toNat]

/-- A character that needs no escape stands for itself. -/
theorem stringFrom_char {c : Char} (hquote : c ≠ '"') (hslash : c ≠ '\\') (hlow : ¬ c.toNat < 32)
    (before : List Char) (fuel : Nat) (rest : List Glyph) :
    stringFrom before (fuel + 1) (.char c :: rest) = stringFrom (c :: before) fuel rest := by
  simp only [stringFrom, hquote, hslash, hlow, if_false]

theorem stringFrom_unicode {d : Char} {rest : List Glyph} {g : List Glyph}
    (h : unicodeEscape g = .ok (d, rest)) (before : List Char) (fuel : Nat) :
    stringFrom before (fuel + 1) (.char '\\' :: .char 'u' :: g) =
      stringFrom (d :: before) fuel rest := by
  have hshort : shortEscape? (.char 'u') = none := rfl
  rw [stringFrom, if_neg (by decide), if_pos rfl]
  simp only [hshort, if_true, h]

theorem stringFrom_short {d e : Char} (h : shortEscape? (.char e) = some d) (before : List Char)
    (fuel : Nat) (rest : List Glyph) :
    stringFrom before (fuel + 1) (.char '\\' :: .char e :: rest) =
      stringFrom (d :: before) fuel rest := by
  rw [stringFrom, if_neg (by decide), if_pos rfl]
  simp only [h]

/-- The characters that have a short escape. -/
def shortEscaped : List Char := ['"', '\\', '\x08', '\x0c', '\n', '\r', '\t']

theorem escapeChar_short {c : Char} (h : c ∈ shortEscaped) :
    ∃ e, escapeChar c = ['\\', e] ∧ shortEscape? (.char e) = some c := by
  simp only [shortEscaped, List.mem_cons, List.not_mem_nil, or_false] at h
  rcases h with rfl | rfl | rfl | rfl | rfl | rfl | rfl <;> exact ⟨_, rfl, rfl⟩

theorem escapeChar_long {c : Char} (h : c ∉ shortEscaped) : escapeChar c =
    if c.toNat < 32 then
      ['\\', 'u', '0', '0', hexDigit (c.toNat / 16), hexDigit (c.toNat % 16)]
    else [c] := by
  simp only [shortEscaped, List.mem_cons, List.not_mem_nil, or_false, not_or] at h
  simp only [escapeChar, h, if_false]

/-- The spelling of a character is read as that character, whatever follows. -/
theorem stringFrom_escapeChar (c : Char) (before : List Char) (fuel : Nat) (rest : List Glyph) :
    stringFrom before (fuel + 1) ((escapeChar c).map .char ++ rest) =
      stringFrom (c :: before) fuel rest := by
  by_cases hshort : c ∈ shortEscaped
  · obtain ⟨e, hspelled, hread⟩ := escapeChar_short hshort
    rw [hspelled]
    exact stringFrom_short hread before fuel rest
  · rw [escapeChar_long hshort]
    split
    · rename_i hlow
      exact stringFrom_unicode (unicodeEscape_low hlow rest) before fuel
    · rename_i hlow
      simp only [shortEscaped, List.mem_cons, not_or] at hshort
      exact stringFrom_char hshort.1 hshort.2.1 hlow before fuel rest

theorem stringFrom_escaped (cs before : List Char) {fuel : Nat} (hfuel : cs.length < fuel)
    (rest : List Glyph) :
    stringFrom before fuel ((cs.flatMap escapeChar).map .char ++ .char '"' :: rest) =
      .ok (String.ofList (before.reverse ++ cs), rest) := by
  obtain ⟨fuel, rfl⟩ : ∃ n, fuel = n + 1 := ⟨fuel - 1, by omega⟩
  induction cs generalizing before fuel with
  | nil => simp [stringFrom]
  | cons c cs ih =>
    obtain ⟨fuel, rfl⟩ : ∃ n, fuel = n + 1 := ⟨fuel - 1, by simp at hfuel; omega⟩
    rw [List.flatMap_cons, List.map_append, List.append_assoc, stringFrom_escapeChar,
      ih (c :: before) fuel (by simpa using hfuel)]
    simp

theorem length_le_escaped (cs : List Char) : cs.length ≤ (cs.flatMap escapeChar).length := by
  induction cs with
  | nil => exact Nat.le_refl 0
  | cons c cs ih =>
    have hc : 1 ≤ (escapeChar c).length := by
      by_cases hshort : c ∈ shortEscaped
      · obtain ⟨e, hspelled, -⟩ := escapeChar_short hshort
        simp [hspelled]
      · rw [escapeChar_long hshort]
        split <;> simp
    simp only [List.flatMap_cons, List.length_append, List.length_cons]
    omega

/-- A string is read up to its closing quote. -/
theorem stringTail_escaped (s : String) (rest : List Glyph) :
    stringTail ((s.toList.flatMap escapeChar).map .char ++ .char '"' :: rest) = .ok (s, rest) := by
  have hlength := length_le_escaped s.toList
  rw [stringTail, stringFrom_escaped]
  · simp
  · simp only [List.length_append, List.length_map, List.length_cons]
    omega

theorem glyphs_renderString (s : String) : glyphs (renderString s) =
    .char '"' :: ((s.toList.flatMap escapeChar).map .char ++ [.char '"']) := by
  simp [glyphs, renderString]

theorem head?_renderString (s : String) : (glyphs (renderString s)).head? ≠ some (.char 'n') := by
  simp [glyphs_renderString]

end Strings

/-- Whether a value can end here, in a text without blanks. -/
def endsValue : List Glyph → Bool
  | [] => true
  | g :: _ => g = .char ',' || g = .char ']' || g = .char '\x7d'

/-- A text that is read as a value, in front of whatever can follow a value.  It starts with neither
a blank nor the end of an array. -/
structure Spells {α : Type} (read : Scan α) (text : String) (v : α) : Prop where
  starts : ∃ c g, glyphs text = .char c :: g ∧ isSpace (.char c) = false ∧ c ≠ ']'
  reads : ∀ rest, endsValue rest = true → read (glyphs text ++ rest) = .ok (v, rest)

theorem skipSpace_cons {g : Glyph} (h : isSpace g = false) (rest : List Glyph) :
    skipSpace (g :: rest) = g :: rest := by
  simp [skipSpace, h]

section Items

variable {α : Type} {item : Scan α}

/-- The texts of some items, one behind the other with commas between them. -/
def itemsText (texts : List String) : String := ",".intercalate texts

/-- Further items, as they stand behind the first one. -/
def separated (texts : List String) : List Glyph := texts.flatMap fun t => .char ',' :: glyphs t

theorem separated_cons (text : String) (texts : List String) :
    separated (text :: texts) = .char ',' :: (glyphs text ++ separated texts) := by
  simp [separated]

theorem glyphs_itemsText_cons (text : String) (texts : List String) :
    glyphs (itemsText (text :: texts)) = glyphs text ++ separated texts := by
  induction texts generalizing text with
  | nil => simp [itemsText, separated]
  | cons t texts ih =>
    have hcons : itemsText (text :: t :: texts) = text ++ "," ++ itemsText (t :: texts) :=
      String.intercalate_cons_cons
    have hcomma : glyphs "," = [.char ','] := rfl
    rw [hcons, glyphs_append, glyphs_append, ih, separated_cons, hcomma]
    simp

/-- Where items go on or their bracket closes, a value can end. -/
theorem endsValue_separated (texts : List String) {close : Glyph} (h : endsValue [close] = true)
    (rest : List Glyph) : endsValue (separated texts ++ close :: rest) = true := by
  cases texts with
  | nil => exact h
  | cons t texts => rfl

theorem length_le_separated (texts : List String) : texts.length ≤ (separated texts).length := by
  induction texts with
  | nil => exact Nat.le_refl 0
  | cons t texts ih =>
    rw [separated_cons]
    simp only [List.length_append, List.length_cons]
    omega

theorem moreItems_comma {c : Char} (hspace : isSpace (.char c) = false) (hclose : c ≠ ']')
    (fuel : Nat) (g : List Glyph) :
    moreItems item (fuel + 1) (.char ',' :: .char c :: g) = (do
      let (v, r) ← item (.char c :: g)
      let (vs, r) ← moreItems item fuel r
      return (v :: vs, r)) := by
  rw [moreItems, skipSpace_cons rfl]
  simp only [skipSpace_cons hspace]
  split
  · cases ‹_ = []›
  · rename_i heq
    cases heq
    exact absurd rfl hclose
  · rfl

theorem moreItems_spelled (written : List (String × α))
    (h : ∀ p ∈ written, Spells item p.1 p.2) {fuel : Nat} (hfuel : written.length < fuel)
    (rest : List Glyph) :
    moreItems item fuel (separated (written.map Prod.fst) ++ .char ']' :: rest) =
      .ok (written.map Prod.snd, rest) := by
  obtain ⟨fuel, rfl⟩ : ∃ n, fuel = n + 1 := ⟨fuel - 1, by omega⟩
  induction written generalizing fuel with
  | nil => rfl
  | cons p written ih =>
    obtain ⟨fuel, rfl⟩ : ∃ n, fuel = n + 1 := ⟨fuel - 1, by simp at hfuel; omega⟩
    obtain ⟨text, v⟩ := p
    have hp : Spells item text v := h _ List.mem_cons_self
    have hmore := ih (fun q hq => h q (List.mem_cons_of_mem _ hq)) fuel (by simpa using hfuel)
    have hends : endsValue [.char ']'] = true := rfl
    have hread := hp.reads _ (endsValue_separated (written.map Prod.fst) hends rest)
    obtain ⟨c, g, hglyphs, hspace, hclose⟩ := hp.starts
    rw [List.map_cons, separated_cons, List.cons_append, List.append_assoc]
    rw [hglyphs] at hread ⊢
    rw [List.cons_append, moreItems_comma hspace hclose, ← List.cons_append, hread]
    simp only [bind, Except.bind, hmore]
    rfl

theorem items_cons {c : Char} (hspace : isSpace (.char c) = false) (hclose : c ≠ ']')
    (g : List Glyph) :
    items item (.char c :: g) = (do
      let (v, r) ← item (.char c :: g)
      let (vs, r) ← moreItems item (r.length + 1) r
      return (v :: vs, r)) := by
  rw [items, skipSpace_cons hspace]
  split
  · cases ‹_ = []›
  · rename_i heq
    cases heq
    exact absurd rfl hclose
  · rfl

/-- The items of an array are read one after the other, up to its end. -/
theorem items_spelled (written : List (String × α)) (h : ∀ p ∈ written, Spells item p.1 p.2)
    (rest : List Glyph) :
    items item (glyphs (itemsText (written.map Prod.fst)) ++ .char ']' :: rest) =
      .ok (written.map Prod.snd, rest) := by
  cases written with
  | nil => rfl
  | cons p written =>
    obtain ⟨text, v⟩ := p
    have hp : Spells item text v := h _ List.mem_cons_self
    have hends : endsValue [.char ']'] = true := rfl
    have hread := hp.reads _ (endsValue_separated (written.map Prod.fst) hends rest)
    have hlength := length_le_separated (written.map Prod.fst)
    rw [List.length_map] at hlength
    obtain ⟨c, g, hglyphs, hspace, hclose⟩ := hp.starts
    rw [List.map_cons, glyphs_itemsText_cons, List.append_assoc]
    rw [hglyphs] at hread ⊢
    rw [List.cons_append, items_cons hspace hclose, ← List.cons_append, hread]
    simp only [bind, Except.bind]
    rw [moreItems_spelled written (fun q hq => h q (List.mem_cons_of_mem _ hq))]
    · rfl
    · simp only [List.length_append, List.length_cons]
      omega

end Items

section Members

variable {σ : Type} {step : σ → String → Scan σ}

/-- The text of a member, whose value is given by its text. -/
def memberText (m : String × String) : String := renderString m.1 ++ ":" ++ m.2

/-- The text of some members. -/
def membersText (ms : List (String × String)) : String := itemsText (ms.map memberText)

/-- The members of an object take a state to another, each as it is read behind its key. -/
inductive Folds (step : σ → String → Scan σ) : σ → List (String × String) → σ → Prop where
  | nil (s : σ) : Folds step s [] s
  | cons {s s' s'' : σ} {key text : String} {ms : List (String × String)}
      (first : ∀ rest, endsValue rest = true →
        step s key (.char ':' :: (glyphs text ++ rest)) = .ok (s', rest))
      (more : Folds step s' ms s'') : Folds step s ((key, text) :: ms) s''

theorem glyphs_member (key text : String) (rest : List Glyph) :
    glyphs (memberText (key, text)) ++ rest =
      .char '"' :: ((key.toList.flatMap escapeChar).map .char ++
        .char '"' :: (.char ':' :: (glyphs text ++ rest))) := by
  have hcolon : glyphs ":" = [.char ':'] := rfl
  simp [memberText, glyphs_renderString, hcolon]

theorem moreMembers_comma (fuel : Nat) (s : σ) (key : String) (g : List Glyph) :
    moreMembers step (fuel + 1) s
        (.char ',' :: .char '"' :: ((key.toList.flatMap escapeChar).map .char ++ .char '"' :: g)) =
      (do
        let (s, r) ← step s key g
        moreMembers step fuel s r) := by
  rw [moreMembers, skipSpace_cons rfl]
  simp only [skipSpace_cons (g := .char '"') rfl, stringTail_escaped]
  rfl

theorem moreMembers_of_folds {s s' : σ} {ms : List (String × String)} (h : Folds step s ms s')
    {fuel : Nat} (hfuel : ms.length < fuel) (rest : List Glyph) :
    moreMembers step fuel s (separated (ms.map memberText) ++ .char '\x7d' :: rest) =
      .ok (s', rest) := by
  obtain ⟨fuel, rfl⟩ : ∃ n, fuel = n + 1 := ⟨fuel - 1, by omega⟩
  induction h generalizing fuel with
  | nil s => rfl
  | cons first more ih =>
    obtain ⟨fuel, rfl⟩ : ∃ n, fuel = n + 1 := ⟨fuel - 1, by simp at hfuel; omega⟩
    rw [List.map_cons, separated_cons, List.cons_append, List.append_assoc, glyphs_member,
      moreMembers_comma, first _ (endsValue_separated _ rfl rest)]
    exact ih fuel (by simpa using hfuel)

theorem foldMembers_cons (s : σ) (key : String) (g : List Glyph) :
    foldMembers step s
        (.char '"' :: ((key.toList.flatMap escapeChar).map .char ++ .char '"' :: g)) =
      (do
        let (s, r) ← step s key g
        moreMembers step (r.length + 1) s r) := by
  rw [foldMembers, skipSpace_cons rfl]
  simp only [stringTail_escaped]
  rfl

/-- The members of an object are taken up one after the other, up to its end. -/
theorem foldMembers_of_folds {s s' : σ} {ms : List (String × String)} (h : Folds step s ms s')
    (rest : List Glyph) :
    foldMembers step s (glyphs (membersText ms) ++ .char '\x7d' :: rest) = .ok (s', rest) := by
  cases h with
  | nil => rfl
  | @cons _ s₁ _ key text ms first more =>
    have hlength := length_le_separated (ms.map memberText)
    rw [List.length_map] at hlength
    rw [membersText, List.map_cons, glyphs_itemsText_cons, List.append_assoc, glyphs_member,
      foldMembers_cons, first _ (endsValue_separated _ rfl rest)]
    apply moreMembers_of_folds more
    simp only [List.length_append, List.length_cons]
    omega

end Members

theorem glyphs_array (inner : String) (rest : List Glyph) :
    glyphs ("[" ++ inner ++ "]") ++ rest = .char '[' :: (glyphs inner ++ .char ']' :: rest) := by
  simp [glyphs]

theorem glyphs_object (inner : String) (rest : List Glyph) :
    glyphs ("\x7b" ++ inner ++ "\x7d") ++ rest =
      .char '\x7b' :: (glyphs inner ++ .char '\x7d' :: rest) := by
  simp [glyphs]

/-- A text in front of which an array opens. -/
theorem starts_array (inner : String) : ∃ c g, glyphs ("[" ++ inner ++ "]") = .char c :: g ∧
    isSpace (.char c) = false ∧ c ≠ ']' :=
  ⟨'[', glyphs inner ++ [.char ']'], by simpa using glyphs_array inner [], rfl, by decide⟩

theorem starts_object (inner : String) : ∃ c g, glyphs ("\x7b" ++ inner ++ "\x7d") = .char c :: g ∧
    isSpace (.char c) = false ∧ c ≠ ']' :=
  ⟨'\x7b', glyphs inner ++ [.char '\x7d'], by simpa using glyphs_object inner [], rfl, by decide⟩

@[simp] theorem colon_cons (g : List Glyph) : colon (.char ':' :: g) = .ok g := rfl

section Values

variable (nested : Option (Scan Document)) {item : Scan Document}

theorem valueWith_null : Spells (valueWith nested) "null" .null where
  starts := ⟨_, _, rfl, rfl, by decide⟩
  reads := fun _ _ => rfl

theorem valueWith_bool (b : Bool) : Spells (valueWith nested) (render (.bool b)) (.bool b) := by
  cases b
  · exact ⟨⟨_, _, rfl, rfl, by decide⟩, fun _ _ => rfl⟩
  · exact ⟨⟨_, _, rfl, rfl, by decide⟩, fun _ _ => rfl⟩

theorem valueWith_string (s : String) :
    Spells (valueWith nested) (renderString s) (.string s) where
  starts := ⟨_, _, glyphs_renderString s, rfl, by decide⟩
  reads := by
    intro rest _
    rw [glyphs_renderString, List.cons_append, List.append_assoc, valueWith, skipSpace_cons rfl]
    simp only [List.singleton_append, stringTail_escaped]
    rfl

theorem valueWith_array (written : List (String × Document))
    (h : ∀ p ∈ written, Spells item p.1 p.2) :
    Spells (valueWith (some item)) ("[" ++ itemsText (written.map Prod.fst) ++ "]")
      (.array (written.map Prod.snd)) where
  starts := starts_array _
  reads := by
    intro rest _
    rw [glyphs_array, valueWith, skipSpace_cons rfl]
    simp only [items_spelled written h]
    rfl

theorem valueWith_object {ms : List (String × String)} {members : Members}
    (h : Folds (valueWith.memberStep item) .empty ms members) :
    Spells (valueWith (some item)) ("\x7b" ++ membersText ms ++ "\x7d") (.object members) where
  starts := starts_object _
  reads := by
    intro rest _
    rw [glyphs_object, valueWith, skipSpace_cons rfl]
    simp only [foldMembers_of_folds h]
    rfl

/-- A member with a greater key than all others comes last. -/
theorem insert_last {key : String} {ms : Entries} (h : ∀ m ∈ ms, m.1 < key) (v : Json) :
    ms.insert key v = ms ++ [(key, v)] := by
  induction ms with
  | nil => rfl
  | cons m ms ih =>
    have hm : m.1 < key := h m List.mem_cons_self
    have hnot : ¬ key < m.1 := String.lt_asymm hm
    have hne : key ≠ m.1 := by
      rintro rfl
      exact String.lt_irrefl _ hm
    rw [Entries.insert, if_neg hnot, if_neg hne, ih fun n hn => h n (List.mem_cons_of_mem m hn)]
    rfl

/-- The members of a map are put in one behind the other. -/
theorem folds_memberStep {before after : Members} (ms : Entries)
    (hafter : after.entries = before.entries ++ ms)
    (h : ∀ m ∈ ms, ∀ ordered, Spells item m.2.render ⟨m.2, ordered⟩) :
    Folds (valueWith.memberStep item) before (ms.map fun m => (m.1, m.2.render)) after := by
  induction ms generalizing before with
  | nil =>
    obtain rfl : after = before := Members.ext (hafter.trans (List.append_nil _))
    exact .nil after
  | cons m ms ih =>
    obtain ⟨key, v⟩ := m
    have hmem : (key, v) ∈ after.entries := by simp [hafter]
    have hordered : v.Ordered := Members.ordered_of_mem hmem
    have hv : Spells item v.render ⟨v, hordered⟩ := h _ List.mem_cons_self hordered
    have hless : ∀ m ∈ before.entries, m.1 < key := by
      intro m hm
      have hsorted := after.sorted
      rw [hafter, List.map_append, List.pairwise_append] at hsorted
      exact hsorted.2.2 m.1 (List.mem_map_of_mem hm) key (by simp)
    have hbefore : after.entries = (before.insert key ⟨v, hordered⟩).entries ++ ms := by
      rw [hafter, Members.entries_insert, insert_last hless, List.append_assoc]
      rfl
    refine .cons ?_ (ih hbefore fun m hm => h m (List.mem_cons_of_mem _ hm))
    intro rest hrest
    rw [valueWith.memberStep]
    simp only [colon_cons, bind, Except.bind, hv.reads rest hrest]
    rfl

end Values

theorem renderItems_eq (vs : List Json) : renderItems vs = itemsText (vs.map render) := by
  induction vs with
  | nil => rfl
  | cons v vs ih =>
    cases vs with
    | nil => simp [renderItems, itemsText]
    | cons w vs =>
      rw [renderItems, ih, List.map_cons, List.map_cons, List.map_cons]
      exact String.intercalate_cons_cons.symm

theorem renderMembers_eq (ms : Entries) :
    renderMembers ms = membersText (ms.map fun m => (m.1, m.2.render)) := by
  induction ms with
  | nil => rfl
  | cons m ms ih =>
    cases ms with
    | nil => simp [renderMembers, membersText, memberText, itemsText]
    | cons n ms =>
      rw [renderMembers, ih]
      exact String.intercalate_cons_cons.symm

/-- A value that can be read again, with at most a number of brackets open: its numerals are read as
they are written. -/
inductive Legible : Nat → Json → Prop where
  | null (depth : Nat) : Legible depth .null
  | bool (depth : Nat) (b : Bool) : Legible depth (.bool b)
  | number {n : Numeral} (depth : Nat)
      (numeral : ∀ nested, Spells (valueWith nested) (renderNumeral n) (.number n)) :
      Legible depth (.number n)
  | string (depth : Nat) (s : String) : Legible depth (.string s)
  | array {depth : Nat} {vs : List Json} (items : ∀ v ∈ vs, Legible depth v) :
      Legible (depth + 1) (.array vs)
  | object {depth : Nat} {ms : Entries} (members : ∀ m ∈ ms, Legible depth m.2) :
      Legible (depth + 1) (.object ms)

/-- A value is read where only scalars may stand, or where brackets may open. -/
theorem value_eq (depth : Nat) : ∃ nested, value depth = valueWith nested := by
  cases depth with
  | zero => exact ⟨none, rfl⟩
  | succ depth => exact ⟨some (value depth), rfl⟩

/-- The compact text of a document is read as that document. -/
theorem value_render {depth : Nat} {v : Json} (h : Legible depth v) (ordered : v.Ordered) :
    Spells (value depth) v.render ⟨v, ordered⟩ := by
  induction h with
  | null depth =>
    obtain ⟨nested, hvalue⟩ := value_eq depth
    rw [hvalue, render]
    exact valueWith_null nested
  | bool depth b =>
    obtain ⟨nested, hvalue⟩ := value_eq depth
    rw [hvalue]
    exact valueWith_bool nested b
  | number depth numeral =>
    obtain ⟨nested, hvalue⟩ := value_eq depth
    rw [hvalue, render]
    exact numeral nested
  | string depth s =>
    obtain ⟨nested, hvalue⟩ := value_eq depth
    rw [hvalue, render]
    exact valueWith_string nested s
  | @array depth vs items ih =>
    obtain ⟨ds, rfl⟩ := ordered.items
    have hitems : ∀ p ∈ ds.map fun d => (d.value.render, d), Spells (value depth) p.1 p.2 := by
      intro p hp
      obtain ⟨d, hd, rfl⟩ := List.mem_map.mp hp
      exact ih d.value (List.mem_map_of_mem hd) d.ordered
    have harray := valueWith_array _ hitems
    simp only [List.map_map, Function.comp_def, List.map_id'] at harray
    rw [render, renderItems_eq, List.map_map]
    exact harray
  | @object depth ms members ih =>
    have hfolds : Folds (valueWith.memberStep (value depth)) .empty _ ⟨ms, ordered⟩ :=
      folds_memberStep ms rfl ih
    rw [render, renderMembers_eq]
    exact valueWith_object hfolds

theorem whole_of_spells {α : Type} {read : Scan α} {text : String} {v : α}
    (h : Spells read text v) : whole read (glyphs text) = .ok v := by
  have hread := h.reads [] rfl
  rw [List.append_nil] at hread
  simp only [whole, hread]
  rfl

theorem parse_render {d : Document} (h : Legible depthLimit d.value) :
    parse d.value.render = .ok d :=
  whole_of_spells (value_render h d.ordered)

section Codecs

variable {α σ : Type}

theorem Codec.decode_of_spells {c : Codec α} {text : String} {v : α}
    (h : Spells (c.read depthLimit) text v) : c.decode (glyphs text) = .ok v :=
  whole_of_spells h

theorem Codec.string_spells (depth : Nat) (s : String) :
    Spells (Codec.string.read depth) (renderString s) s where
  starts := ⟨_, _, glyphs_renderString s, rfl, by decide⟩
  reads := by
    intro rest _
    rw [glyphs_renderString, List.cons_append, List.append_assoc]
    exact stringTail_escaped s rest

theorem Codec.json_string_spells (depth : Nat) (s : String) :
    Spells (Codec.json.read depth) (renderString s) (.string s) where
  starts := (Codec.string_spells depth s).starts
  reads := by
    intro rest hrest
    have hvalue := (value_render (.string depth s) (.string s)).reads rest hrest
    rw [render] at hvalue
    simp only [Codec.json, hvalue]
    rfl

theorem Codec.option_none_spells (c : Codec α) (depth : Nat) :
    Spells ((Codec.option c).read depth) "null" none where
  starts := ⟨_, _, rfl, rfl, by decide⟩
  reads := fun _ _ => rfl

theorem Codec.option_some_spells {c : Codec α} {depth : Nat} {text : String} {v : α}
    (h : Spells (c.read depth) text v) (hnull : (glyphs text).head? ≠ some (.char 'n')) :
    Spells ((Codec.option c).read depth) text (some v) where
  starts := h.starts
  reads := by
    intro rest hrest
    have hread := h.reads rest hrest
    obtain ⟨first, g, hglyphs, hspace, -⟩ := h.starts
    rw [hglyphs, List.cons_append] at hread ⊢
    simp only [Codec.option, skipSpace_cons hspace]
    split
    · rename_i heq
      cases heq
      simp [hglyphs] at hnull
    · simp only [hread]
      rfl

theorem Codec.list_spells {c : Codec α} {depth : Nat} (written : List (String × α))
    (h : ∀ p ∈ written, Spells (c.read depth) p.1 p.2) :
    Spells ((Codec.list c).read (depth + 1)) ("[" ++ itemsText (written.map Prod.fst) ++ "]")
      (written.map Prod.snd) where
  starts := starts_array _
  reads := by
    intro rest _
    rw [glyphs_array]
    exact items_spelled written h rest

/-- A field that is known and new is set as its text says. -/
theorem Folds.field {fields : List (RecordField σ)} {depth : Nat} {seen : List String} {s : σ}
    {end_ : List String × σ} {presence : Presence} {name text : String} {c : Codec α}
    {set : α → σ → σ} {v : α} {ms : List (String × String)}
    (hfind : fields.find? (·.name = name) = some (.make presence name c set))
    (hnew : seen.contains name = false) (hread : Spells (c.read depth) text v)
    (more : Folds (Fields.step fields depth) (name :: seen, set v s) ms end_) :
    Folds (Fields.step fields depth) (seen, s) ((name, text) :: ms) end_ := by
  refine .cons ?_ more
  intro rest hrest
  simp only [Fields.step, hfind, hnew, Bool.false_eq_true, if_false]
  simp only [colon_cons, RecordField.make, bind, Except.bind, hread.reads rest hrest]
  rfl

/-- A record is read from an object that sets all its required fields. -/
theorem Codec.record_spells {fields : List (RecordField σ)} {blank : σ} {toJson : σ → Json}
    {depth : Nat} {ms : List (String × String)} {seen : List String} {v : σ}
    (h : Folds (Fields.step fields depth) ([], blank) ms (seen, v))
    (hcomplete : Fields.complete fields seen = true) :
    Spells ((Codec.record fields blank toJson).read (depth + 1))
      ("\x7b" ++ membersText ms ++ "\x7d") v where
  starts := starts_object _
  reads := by
    intro rest _
    rw [glyphs_object]
    change Fields.readObject fields depth blank _ = _
    rw [Fields.readObject, foldMembers_of_folds h]
    simp only [bind, Except.bind, hcomplete, if_true]

end Codecs

end RobotDesk.Json
