import RobotDesk.Proofs.MemberMap
import RobotDesk.Proofs.NumeralText

/-!
What has been read as a JSON value is written so that it is read back.

At most as many brackets are open in the text of a value as could be open in the text it was read
from.  Its integers have at most 64 bits.  So only its reals have to be given as read back; one that
is read back from a text of its own is read back inside other texts too.
-/
namespace RobotDesk

namespace Json

open Text

section Loops

variable {α σ : Type}

theorem moreItems_forall {item : Scan α} {P : α → Prop}
    (hitem : ∀ g v r, item g = .ok (v, r) → P v) {fuel : Nat} {g r : List Glyph} {vs : List α}
    (h : moreItems item fuel g = .ok (vs, r)) : ∀ v ∈ vs, P v := by
  induction fuel generalizing g vs r with
  | zero => cases h
  | succ fuel ih =>
    rw [moreItems] at h
    split at h
    · cases h
    · cases h
      simp
    · split at h
      · cases h
      · cases h
      · obtain ⟨⟨v, r'⟩, hv, h⟩ := ok_of_bind h
        obtain ⟨⟨vs', r''⟩, hvs, h⟩ := ok_of_bind h
        cases h
        exact List.forall_mem_cons.mpr ⟨hitem _ v r' hv, ih hvs⟩
    · cases h

/-- What holds of each item that is read holds of all items of an array. -/
theorem items_forall {item : Scan α} {P : α → Prop}
    (hitem : ∀ g v r, item g = .ok (v, r) → P v) {g r : List Glyph} {vs : List α}
    (h : items item g = .ok (vs, r)) : ∀ v ∈ vs, P v := by
  rw [items] at h
  split at h
  · cases h
  · cases h
    simp
  · obtain ⟨⟨v, r'⟩, hv, h⟩ := ok_of_bind h
    obtain ⟨⟨vs', r''⟩, hvs, h⟩ := ok_of_bind h
    cases h
    exact List.forall_mem_cons.mpr ⟨hitem _ v r' hv, moreItems_forall hitem hvs⟩

theorem moreMembers_invariant {step : σ → String → Scan σ} {Inv : σ → Prop}
    (hstep : ∀ s key g s' r, Inv s → step s key g = .ok (s', r) → Inv s') {fuel : Nat} {s s' : σ}
    {g r : List Glyph} (hs : Inv s) (h : moreMembers step fuel s g = .ok (s', r)) : Inv s' := by
  induction fuel generalizing s g with
  | zero => cases h
  | succ fuel ih =>
    rw [moreMembers] at h
    split at h
    · cases h
    · cases h
      exact hs
    · split at h
      · cases h
      · obtain ⟨⟨key, g'⟩, -, h⟩ := ok_of_bind h
        obtain ⟨⟨t, g''⟩, ht, h⟩ := ok_of_bind h
        exact ih (hstep s key g' t g'' hs ht) h
      · cases h
    · cases h

/-- What each member keeps holds behind an object. -/
theorem foldMembers_invariant {step : σ → String → Scan σ} {Inv : σ → Prop}
    (hstep : ∀ s key g s' r, Inv s → step s key g = .ok (s', r) → Inv s') {s s' : σ}
    {g r : List Glyph} (hs : Inv s) (h : foldMembers step s g = .ok (s', r)) : Inv s' := by
  rw [foldMembers] at h
  split at h
  · cases h
  · cases h
    exact hs
  · obtain ⟨⟨key, g'⟩, -, h⟩ := ok_of_bind h
    obtain ⟨⟨t, g''⟩, ht, h⟩ := ok_of_bind h
    exact moreMembers_invariant hstep (hstep s key g' t g'' hs ht) h
  · cases h

/-- What holds of each value that is read holds of all values of an object. -/
theorem members_forall {item : Scan Document} {P : Json → Prop}
    (hitem : ∀ g d r, item g = .ok (d, r) → P d.value) {g r : List Glyph} {ms : Members}
    (h : foldMembers (valueWith.memberStep item) .empty g = .ok (ms, r)) :
    ∀ m ∈ ms.entries, P m.2 := by
  have hstep : ∀ ms key g ms' r, (∀ m ∈ Members.entries ms, P m.2) →
      valueWith.memberStep item ms key g = .ok (ms', r) → ∀ m ∈ ms'.entries, P m.2 := by
    intro ms key g ms' r hms hread
    obtain ⟨g', _, hread⟩ := ok_of_bind hread
    obtain ⟨⟨d, _⟩, hd, hread⟩ := ok_of_bind hread
    cases hread
    intro m hm
    rcases Entries.eq_or_mem_of_mem_insert hm with rfl | hm
    · exact hitem g' d r hd
    · exact hms m hm
  exact foldMembers_invariant hstep (fun _ hm => absurd hm List.not_mem_nil) h

theorem read_of_whole {read : Scan α} {g : List Glyph} {v : α} (h : whole read g = .ok v) :
    ∃ r, read g = .ok (v, r) ∧ skipSpace r = [] := by
  obtain ⟨⟨w, r⟩, hread, h⟩ := ok_of_bind h
  dsimp only at h
  split at h
  · rename_i hblank
    cases h
    exact ⟨r, hread, hblank⟩
  · cases h

end Loops

section Reals

mutual

/-- The reals in a value. -/
def reals : Json → List Number.Binary64
  | .number (.real x) => [x]
  | .array vs => realsOfItems vs
  | .object ms => realsOfMembers ms
  | _ => []

def realsOfItems : List Json → List Number.Binary64
  | [] => []
  | v :: vs => reals v ++ realsOfItems vs

def realsOfMembers : List (String × Json) → List Number.Binary64
  | [] => []
  | (_, v) :: ms => reals v ++ realsOfMembers ms

end

theorem reals_array (vs : List Json) : (Json.array vs).reals = vs.flatMap reals := by
  rw [reals]
  induction vs with
  | nil => rfl
  | cons v vs ih => rw [realsOfItems, ih, List.flatMap_cons]

theorem reals_object (ms : Entries) : (Json.object ms).reals = ms.flatMap (·.2.reals) := by
  rw [reals]
  induction ms with
  | nil => rfl
  | cons m ms ih => rw [realsOfMembers, ih, List.flatMap_cons]

/-- A real whose text is read as that real. -/
def ReadsBack (x : Number.Binary64) : Prop := parse (realLayout.text x) = .ok (.number (.real x))

/-- Whether a real was read. -/
def isReal (x : Number.Binary64) : Except ReadError Document → Bool
  | .ok ⟨.number (.real y), _⟩ => y = x
  | _ => false

theorem isReal_iff {x : Number.Binary64} {result : Except ReadError Document} :
    isReal x result = true ↔ result = .ok (.number (.real x)) := by
  unfold isReal
  split <;> simp_all [Document.number]

instance (x : Number.Binary64) : Decidable (ReadsBack x) :=
  decidable_of_iff (isReal x (parse (realLayout.text x)) = true) isReal_iff

/-- The first character of a value that was read, and what was read behind it. -/
inductive ValueFrom (nested : Option (Scan Document)) (g r : List Glyph) : Json → Prop where
  | null : ValueFrom nested g r .null
  | bool (b : Bool) : ValueFrom nested g r (.bool b)
  | negative {n : Numeral} {g' : List Glyph} (start : skipSpace g = .char '-' :: g')
      (numeral : numeralTail true g' = .ok (n, r)) : ValueFrom nested g r (.number n)
  | digits {n : Numeral} {c : Char} {g' : List Glyph} (start : skipSpace g = .char c :: g')
      (digit : c.isDigit = true) (numeral : numeralTail false (.char c :: g') = .ok (n, r)) :
      ValueFrom nested g r (.number n)
  | string (s : String) : ValueFrom nested g r (.string s)
  | array {item : Scan Document} {ds : List Document} {g' : List Glyph}
      (inside : nested = some item) (read : items item g' = .ok (ds, r)) :
      ValueFrom nested g r (.array (ds.map Document.value))
  | object {item : Scan Document} {ms : Members} {g' : List Glyph} (inside : nested = some item)
      (read : foldMembers (valueWith.memberStep item) .empty g' = .ok (ms, r)) :
      ValueFrom nested g r (.object ms.entries)

theorem isDigit_of_digit? {d : Glyph} (h : (digit? d).isSome = true) :
    ∃ c, d = .char c ∧ c.isDigit = true := by
  cases d with
  | char c =>
    rw [digit?] at h
    split at h
    · rename_i hc
      exact ⟨c, rfl, by simpa [Char.isDigit, Char.le_def] using hc⟩
    · cases h
  | broken => cases h

theorem valueFrom_of_valueWith {nested : Option (Scan Document)} {g r : List Glyph} {d : Document}
    (h : valueWith nested g = .ok (d, r)) : ValueFrom nested g r d.value := by
  rw [valueWith] at h
  split at h
  case h_1 => cases h
  case h_2 =>
    obtain ⟨_, _, h⟩ := ok_of_bind h
    cases h
    exact .null
  case h_3 =>
    obtain ⟨_, _, h⟩ := ok_of_bind h
    cases h
    exact .bool true
  case h_4 =>
    obtain ⟨_, _, h⟩ := ok_of_bind h
    cases h
    exact .bool false
  case h_5 start =>
    obtain ⟨⟨n, _⟩, hn, h⟩ := ok_of_bind h
    cases h
    exact .negative start hn
  case h_6 =>
    obtain ⟨⟨s, _⟩, _, h⟩ := ok_of_bind h
    cases h
    exact .string s
  case h_7 =>
    split at h
    · cases h
    · obtain ⟨⟨vs, _⟩, hvs, h⟩ := ok_of_bind h
      cases h
      exact .array rfl hvs
  case h_8 =>
    split at h
    · cases h
    · obtain ⟨⟨ms, _⟩, hms, h⟩ := ok_of_bind h
      cases h
      exact .object rfl hms
  case h_9 d g' _ _ _ _ _ _ _ start =>
    split at h
    · rename_i hd
      obtain ⟨c, rfl, hc⟩ := isDigit_of_digit? hd
      obtain ⟨⟨n, _⟩, hn, h⟩ := ok_of_bind h
      cases h
      exact .digits start hc hn
    · cases h

theorem skipSpace_of_unblank {g : List Glyph} (h : ∀ d ∈ g, isSpace d = false) :
    skipSpace g = g := by
  cases g with
  | nil => rfl
  | cons d g => exact skipSpace_cons (h d List.mem_cons_self) g

/-- A real that is read back from its own text is read back wherever a value may stand. -/
theorem valueWith_real {x : Number.Binary64} (h : ReadsBack x) (nested : Option (Scan Document)) :
    Spells (valueWith nested) (realLayout.text x) (.number (.real x)) := by
  have hclean : ∀ d ∈ glyphs (realLayout.text x), isSpace d = false := by
    intro d hd
    obtain ⟨c, hc, rfl⟩ := List.mem_map.mp hd
    exact isSpace_of_inNumeral (numeric_realText x c hc)
  obtain ⟨r, hread, hblank⟩ := read_of_whole h
  have hfrom : ValueFrom (some (value 126)) (glyphs (realLayout.text x)) r (.number (.real x)) :=
    valueFrom_of_valueWith hread
  -- Nothing is left of the text, since there are no blanks in it.
  have hdone (hsuffix : r <:+ glyphs (realLayout.text x)) : r = [] := by
    rw [← skipSpace_of_unblank fun d hd => hclean d (hsuffix.mem hd), hblank]
  cases hfrom with
  | @negative _ g start numeral =>
    rw [skipSpace_of_unblank hclean] at start
    obtain ⟨hsuffix, hmore⟩ := local_numeralTail true _ _ _ numeral
    obtain rfl := hdone (by rw [start]; exact hsuffix.trans (List.suffix_cons _ g))
    refine ⟨⟨'-', g, start, rfl, by decide⟩, fun rest hrest => ?_⟩
    rw [start, List.cons_append, valueWith_minus, hmore rest hrest]
    rfl
  | @digits _ c g start digit numeral =>
    rw [skipSpace_of_unblank hclean] at start
    obtain ⟨hsuffix, hmore⟩ := local_numeralTail false _ _ _ numeral
    obtain rfl := hdone (by rw [start]; exact hsuffix)
    refine ⟨⟨c, g, start, isSpace_of_isDigit digit, by rintro rfl; cases digit⟩,
      fun rest hrest => ?_⟩
    rw [start, List.cons_append, valueWith_digit digit, ← List.cons_append, hmore rest hrest]
    rfl

end Reals

section Values

theorem valueWith_numeral {negative : Bool} {g r : List Glyph} {n : Numeral}
    (h : numeralTail negative g = .ok (n, r))
    (hreals : ∀ x ∈ (Json.number n).reals, ReadsBack x) (nested : Option (Scan Document)) :
    Spells (valueWith nested) (renderNumeral n) (.number n) := by
  cases n with
  | int n => exact valueWith_int (isWord_of_numeralTail h) nested
  | real x => exact valueWith_real (hreals x (List.mem_singleton_self x)) nested

/-- What was read with so many brackets open is legible with as many, but for its reals. -/
def LegibleOnceRead (depth : Nat) (v : Json) : Prop :=
  (∀ x ∈ v.reals, ReadsBack x) → Legible depth v

/-- One reading of a value, given what is known of the values inside its brackets. -/
theorem legible_of_valueWith {nested : Option (Scan Document)} {depth : Nat}
    (hnested : ∀ item, nested = some item → ∃ inner, depth = inner + 1 ∧
      ∀ g d r, item g = .ok (d, r) → LegibleOnceRead inner d.value)
    {g r : List Glyph} {d : Document} (h : valueWith nested g = .ok (d, r)) :
    LegibleOnceRead depth d.value := by
  intro hreals
  have hfrom := valueFrom_of_valueWith h
  generalize d.value = v at hfrom hreals ⊢
  cases hfrom with
  | null => exact .null depth
  | bool b => exact .bool depth b
  | negative start numeral => exact .number depth (valueWith_numeral numeral hreals)
  | digits start digit numeral => exact .number depth (valueWith_numeral numeral hreals)
  | string s => exact .string depth s
  | @array item ds _ inside read =>
    obtain ⟨inner, rfl, hitem⟩ := hnested item inside
    rw [reals_array] at hreals
    refine .array fun v hv => ?_
    obtain ⟨d, hd, rfl⟩ := List.mem_map.mp hv
    exact items_forall hitem read d hd fun x hx => hreals x (List.mem_flatMap.mpr ⟨_, hv, hx⟩)
  | @object item ms _ inside read =>
    obtain ⟨inner, rfl, hitem⟩ := hnested item inside
    rw [reals_object] at hreals
    exact .object fun m hm =>
      members_forall hitem read m hm fun x hx => hreals x (List.mem_flatMap.mpr ⟨m, hm, hx⟩)

/-- A value that was read is legible, if its reals are read back. -/
theorem legible_of_value {depth : Nat} {g r : List Glyph} {d : Document}
    (h : value depth g = .ok (d, r)) : LegibleOnceRead depth d.value := by
  induction depth generalizing g d r with
  | zero => exact legible_of_valueWith (by rintro item ⟨⟩) h
  | succ depth ih =>
    refine legible_of_valueWith (fun item hitem => ?_) h
    cases hitem
    exact ⟨depth, rfl, fun _ _ _ hv => ih hv⟩

end Values

end Json
end RobotDesk
