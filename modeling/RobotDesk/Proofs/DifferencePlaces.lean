import RobotDesk.Proofs.DifferenceWalk

/-!
The places of differences.

The path of a difference leads, from the roots of the documents, to what the difference speaks of.
In the text of a path a point stands before a key and brackets around a position, and keys are
written as they are.  So a text can be read as one path only if no key ends with the text of a step,
which means that there is no point in it and no position in brackets at its end.  Any other key
gives two places of some documents one text.
-/
namespace RobotDesk.Json

open Difference

section Positions

/-- What a cause says about the values at its place, if there are any. -/
def Cause.Holds : Cause → Option Json → Option Json → Prop
  | .missing, e, a => e.isSome = true ∧ a = none
  | .unexpected, e, a => e = none ∧ a.isSome = true
  | .lengths m n, e, a => m ≠ n ∧ ∃ vs ws, e = some (.array vs) ∧ a = some (.array ws) ∧
      vs.length = m ∧ ws.length = n
  | .kinds k l, e, a => k ≠ l ∧ ∃ v w, e = some v ∧ a = some w ∧ v.kind = k ∧ w.kind = l
  | .values v w, e, a => e = some v ∧ a = some w ∧ v.kind = w.kind ∧ ¬ Agree v w

/-- What a cause speaks of is there in one of the documents. -/
theorem Cause.Holds.isSome {c : Cause} {e a : Option Json} (h : c.Holds e a) :
    e.isSome = true ∨ a.isSome = true := by
  cases c with
  | missing => exact .inl h.1
  | unexpected => exact .inr h.2
  | lengths m n =>
    obtain ⟨-, vs, ws, rfl, -⟩ := h
    exact .inl rfl
  | kinds k l =>
    obtain ⟨-, v, w, rfl, -⟩ := h
    exact .inl rfl
  | values v w =>
    obtain ⟨rfl, -⟩ := h
    exact .inl rfl

theorem holds_of_mem_leaf {e a : Json} (hflat : Flat e a) {d : Difference} (h : d ∈ leaf e a) :
    d.path = [] ∧ d.cause.Holds (some e) (some a) := by
  rw [leaf] at h
  split at h
  · rename_i hkind
    rw [List.mem_singleton.mp h]
    exact ⟨rfl, hkind, e, a, rfl, rfl, rfl, rfl⟩
  · rename_i hkind
    split at h
    · cases h
    · rename_i hsame
      rw [List.mem_singleton.mp h]
      exact ⟨rfl, rfl, rfl, Decidable.not_not.mp hkind,
        fun hagree => hsame (hflat.same_iff_agree.mpr hagree)⟩

theorem holds_of_mem_outer {e a : Json} {d : Difference} (h : d ∈ outer e a) :
    d.path = [] ∧ d.cause.Holds (some e) (some a) := by
  fun_cases outer e a with
  | case1 e a => cases h
  | case2 e a =>
    rw [outer, lengths] at h
    split at h
    · cases h
    · rename_i hlength
      rw [List.mem_singleton.mp h]
      exact ⟨rfl, hlength, e, a, rfl, rfl, rfl, rfl⟩
  | case3 _ _ hobjects harrays =>
    have hflat : Flat e a := ⟨hobjects, harrays⟩
    rw [outer_of_flat hflat] at h
    exact holds_of_mem_leaf hflat h

/-- What a difference says is so at its place. -/
theorem holds_of_mem {e a : Document} {d : Difference} (h : d ∈ e.differences a) :
    d.cause.Holds (at? d.path e.value) (at? d.path a.value) := by
  refine step_induction (motive := fun e => ∀ a : Document, ∀ d ∈ e.differences a,
    d.cause.Holds (at? d.path e.value) (at? d.path a.value)) ?_ e a d h
  intro e ih a d h
  rw [differences_eq, List.mem_append] at h
  rcases h with h | h
  · obtain ⟨hpath, hholds⟩ := holds_of_mem_outer h
    rw [hpath]
    exact hholds
  · obtain ⟨s, -, h⟩ := List.mem_flatMap.mp h
    cases hv : child? s e.value with
    | none =>
      cases hw : child? s a.value with
      | none =>
        rw [hv, hw] at h
        cases h
      | some w =>
        rw [hv, hw] at h
        rw [List.mem_singleton.mp h, at?_cons, at?_cons, hv, hw]
        exact ⟨rfl, rfl⟩
    | some v =>
      cases hw : child? s a.value with
      | none =>
        rw [hv, hw] at h
        rw [List.mem_singleton.mp h, at?_cons, at?_cons, hv, hw]
        exact ⟨rfl, rfl⟩
      | some w =>
        rw [hv, hw] at h
        obtain ⟨d, hd, rfl⟩ := List.mem_map.mp h
        have hinner := ih s v hv ⟨w, a.ordered.child hw⟩ d hd
        change d.cause.Holds (at? (s :: d.path) e.value) (at? (s :: d.path) a.value)
        rw [at?_cons, at?_cons, hv, hw]
        exact hinner

end Positions

section Keys

/-- The keys of an object; other values have none. -/
def ownKeys : Json → List String
  | .object ms => ms.map Prod.fst
  | _ => []

/-- The keys in a value, at every depth. -/
def keys (v : Json) : List String := v.parts.flatMap ownKeys

/-- The keys on a path into a document are keys of it. -/
theorem mem_keys_of_at? {path : List Step} {v : Json} (h : (at? path v).isSome = true) {k : String}
    (hk : .key k ∈ path) : k ∈ v.keys := by
  induction path generalizing v with
  | nil => cases hk
  | cons s path ih =>
    rw [at?_cons] at h
    cases hw : child? s v with
    | none =>
      rw [hw] at h
      cases h
    | some w =>
      rw [hw] at h
      rcases List.mem_cons.mp hk with rfl | hk
      · obtain ⟨ms, rfl, hget⟩ := exists_object_of_child hw
        have hown : k ∈ ownKeys (.object ms) := List.mem_map_of_mem (Entries.mem_of_get? hget)
        exact List.mem_flatMap.mpr ⟨_, self_mem_parts _, hown⟩
      · obtain ⟨x, hx, hown⟩ := List.mem_flatMap.mp (ih h hk)
        exact List.mem_flatMap.mpr ⟨x, parts_of_child hw hx, hown⟩

end Keys

section Texts

/-- A key that does not end with the text of a step. -/
def Plain (key : String) : Prop := ∀ front (s : Step), key ≠ front ++ s.text

/-- There is no point in a plain key, and no position in brackets at its end. -/
theorem plain_iff {key : String} :
    Plain key ↔ '.' ∉ key.toList ∧ ∀ front (i : Nat), key ≠ front ++ Step.text (.index i) := by
  constructor
  · refine fun h => ⟨fun hpoint => ?_, fun front i => h front (.index i)⟩
    obtain ⟨front, back, hkey⟩ := List.append_of_mem hpoint
    refine h (String.ofList front) (.key (String.ofList back)) (String.toList_inj.mp ?_)
    simp [Step.text, hkey]
  · rintro ⟨hpoint, hposition⟩ front s hkey
    cases s with
    | key k => exact hpoint (by simp [hkey, Step.text])
    | index i => exact hposition front i hkey

/-- The text of a path without the mark of the root. -/
def pathText (path : List Step) : List Char := path.flatMap (·.text.toList)

theorem pathText_cons (s : Step) (path : List Step) :
    pathText (s :: path) = s.text.toList ++ pathText path := rfl

theorem toList_place (path : List Step) : (place path).toList = '$' :: pathText path := by
  have hfold : ∀ start : String, (path.foldl (fun s step => s ++ step.text) start).toList =
      start.toList ++ pathText path := by
    induction path with
    | nil => simp [pathText]
    | cons s path ih =>
      intro start
      rw [List.foldl_cons, ih, String.toList_append, List.append_assoc, pathText_cons]
  exact hfold "$"

theorem place_inj {p q : List Step} : place p = place q ↔ pathText p = pathText q := by
  rw [← String.toList_inj, toList_place, toList_place, List.cons_inj_right]

theorem toList_key (k : String) : (Step.text (.key k)).toList = '.' :: k.toList := by
  simp [Step.text]

theorem toList_index (i : Nat) :
    (Step.text (.index i)).toList = '[' :: (Nat.toDigits 10 i ++ [']']) := by
  simp [Step.text, Nat.toList_repr]

/-- A position ends with a bracket. -/
theorem getLast?_index (front : String) (i : Nat) :
    (front ++ Step.text (.index i)).toList.getLast? = some ']' := by
  rw [String.toList_append, toList_index, ← List.cons_append, ← List.append_assoc,
    List.getLast?_concat]

theorem text_ne_empty (s : Step) : s.text ≠ "" := by
  intro h
  have hlist := congrArg String.toList h
  cases s with
  | key k => simp [toList_key] at hlist
  | index i => simp [toList_index] at hlist

/-- The characters that a step begins with. -/
theorem pathText_head {path : List Step} {c : Char} {cs : List Char} (h : pathText path = c :: cs) :
    c = '.' ∨ c = '[' := by
  cases path with
  | nil => cases h
  | cons s path =>
    cases s with
    | key k =>
      rw [pathText_cons, toList_key] at h
      exact .inl (List.cons.inj h).1.symm
    | index i =>
      rw [pathText_cons, toList_index] at h
      exact .inr (List.cons.inj h).1.symm

theorem not_mem_position_of_head {c : Char} (h : c = '.' ∨ c = '[') (i : Nat) :
    c ∉ Nat.toDigits 10 i ++ [']'] := by
  intro hc
  rw [List.mem_append, List.mem_singleton] at hc
  rcases hc with hc | hc
  · have hdigit : c.isDigit = true := Nat.isDigit_of_mem_toDigits (by decide) (by decide) hc
    rcases h with rfl | rfl <;> cases hdigit
  · rcases h with rfl | rfl <;> cases hc

/-- What is left over of the text of a path in front of the text of another path ends with the text
of a step. -/
theorem ends_with_step {p q : List Step} {rest : List Char} (hne : rest ≠ [])
    (h : pathText p = rest ++ pathText q) :
    ∃ (front : List Char) (s : Step), rest = front ++ s.text.toList := by
  induction p generalizing rest with
  | nil => exact absurd (List.append_eq_nil_iff.mp h.symm).1 hne
  | cons s p ih =>
    rw [pathText_cons] at h
    rcases List.append_eq_append_iff.mp h with ⟨more, hrest, hp⟩ | ⟨cut, hs, hq⟩
    · -- The first step is taken whole.
      by_cases hmore : more = []
      · exact ⟨[], s, by rw [hrest, hmore, List.append_nil]; rfl⟩
      · obtain ⟨front, t, hfront⟩ := ih hmore hp
        exact ⟨s.text.toList ++ front, t, by rw [hrest, hfront, List.append_assoc]⟩
    · -- The first step is cut in two.
      obtain ⟨c, rest, rfl⟩ := List.exists_cons_of_ne_nil hne
      cases s with
      | key k =>
        rw [toList_key, List.cons_append] at hs
        refine ⟨[], .key (String.ofList rest), ?_⟩
        rw [toList_key, (List.cons.inj hs).1]
        simp
      | index i =>
        rw [toList_index, List.cons_append] at hs
        obtain ⟨hc, hs⟩ := List.cons.inj hs
        cases cut with
        | nil =>
          refine ⟨[], .index i, ?_⟩
          rw [toList_index, hs, ← hc]
          simp
        | cons d cut =>
          -- Nothing that a step begins with stands inside a position.
          have hd : d ∈ Nat.toDigits 10 i ++ [']'] := by
            rw [hs]
            simp
          exact absurd hd (not_mem_position_of_head (pathText_head hq) i)

theorem not_plain_of_append {k l : String} {rest : List Char} (hne : rest ≠ [])
    (hl : l.toList = k.toList ++ rest) {p q : List Step} (h : pathText p = rest ++ pathText q) :
    ¬ Plain l := by
  intro hplain
  obtain ⟨front, s, hrest⟩ := ends_with_step hne h
  refine hplain (k ++ String.ofList front) s (String.toList_inj.mp ?_)
  simp [hl, hrest]

theorem toDigits_inj {m n : Nat} (h : Nat.toDigits 10 m = Nat.toDigits 10 n) : m = n := by
  have hvalue := congrArg (Nat.ofDigitChars 10 · 0) h
  simpa only [Nat.ofDigitChars_ten_toDigits] using hvalue

/-- The digits of a position end at its bracket. -/
theorem takeWhile_position (i : Nat) (rest : List Char) :
    (Nat.toDigits 10 i ++ ']' :: rest).takeWhile Char.isDigit = Nat.toDigits 10 i := by
  rw [List.takeWhile_append_of_pos
    fun c hc => Nat.isDigit_of_mem_toDigits (by decide) (by decide) hc]
  simp

/-- Keys that are followed by the texts of paths are equal if they are plain. -/
theorem key_inj {k l : String} (hk : Plain k) (hl : Plain l) {p q : List Step}
    (h : k.toList ++ pathText p = l.toList ++ pathText q) : k = l ∧ pathText p = pathText q := by
  rcases List.append_eq_append_iff.mp h with ⟨rest, hrest, hp⟩ | ⟨rest, hrest, hq⟩
  · by_cases hne : rest = []
    · subst hne
      exact ⟨String.toList_inj.mp (by simpa using hrest.symm), hp⟩
    · exact absurd hl (not_plain_of_append hne hrest hp)
  · by_cases hne : rest = []
    · subst hne
      exact ⟨String.toList_inj.mp (by simpa using hrest), hq.symm⟩
    · exact absurd hk (not_plain_of_append hne hrest hq)

theorem index_inj {i j : Nat} {p q : List Step}
    (h : Nat.toDigits 10 i ++ ']' :: pathText p = Nat.toDigits 10 j ++ ']' :: pathText q) :
    i = j ∧ pathText p = pathText q := by
  have hdigits := congrArg (List.takeWhile Char.isDigit) h
  rw [takeWhile_position, takeWhile_position] at hdigits
  rw [hdigits] at h
  exact ⟨toDigits_inj hdigits, (List.cons.inj (List.append_cancel_left h)).2⟩

/-- Paths on which all keys are plain have texts of their own. -/
theorem pathText_inj {p q : List Step} (hp : ∀ k, .key k ∈ p → Plain k)
    (hq : ∀ k, .key k ∈ q → Plain k) (h : pathText p = pathText q) : p = q := by
  induction p generalizing q with
  | nil =>
    cases q with
    | nil => rfl
    | cons t q => cases t <;> simp [pathText, toList_key, toList_index] at h
  | cons s p ih =>
    have hp' : ∀ k, .key k ∈ p → Plain k := fun k hk => hp k (List.mem_cons_of_mem s hk)
    cases q with
    | nil => cases s <;> simp [pathText, toList_key, toList_index] at h
    | cons t q =>
      have hq' : ∀ k, .key k ∈ q → Plain k := fun k hk => hq k (List.mem_cons_of_mem t hk)
      rw [pathText_cons, pathText_cons] at h
      cases s with
      | key k =>
        cases t with
        | key l =>
          rw [toList_key, toList_key] at h
          obtain ⟨rfl, hrest⟩ := key_inj (hp k List.mem_cons_self) (hq l List.mem_cons_self)
            (List.cons.inj h).2
          rw [ih hp' hq' hrest]
        | index j => simp [toList_key, toList_index] at h
      | index i =>
        cases t with
        | key l => simp [toList_key, toList_index] at h
        | index j =>
          rw [toList_index, toList_index] at h
          obtain ⟨rfl, hrest⟩ := index_inj (by simpa using h)
          rw [ih hp' hq' hrest]

end Texts

section Clash

theorem mem_steps_of_child {e a v w : Json} {s : Step} (hv : child? s e = some v)
    (hw : child? s a = some w) : s ∈ steps e a := by
  cases s with
  | key k =>
    obtain ⟨e, rfl, hget⟩ := exists_object_of_child hv
    obtain ⟨a, rfl, -⟩ := exists_object_of_child hw
    have hkey : k ∈ e.map Prod.fst := List.mem_map_of_mem (Entries.mem_of_get? hget)
    exact List.mem_map_of_mem ((Entries.mem_unionKeys e a k).mpr (.inl hkey))
  | index i =>
    obtain ⟨e, rfl, hget⟩ := exists_array_of_child hv
    obtain ⟨a, rfl, hget'⟩ := exists_array_of_child hw
    have he := (List.getElem?_eq_some_iff.mp hget).1
    have ha := (List.getElem?_eq_some_iff.mp hget').1
    exact List.mem_map_of_mem (List.mem_range.mpr (Nat.lt_min.mpr ⟨he, ha⟩))

/-- What differs at the end of a path differs there in the documents. -/
theorem mem_differences_of_at? {path : List Step} {e a : Document} {v w : Json}
    (hv : at? path e.value = some v) (hw : at? path a.value = some w) {c : Cause}
    (h : ⟨[], c⟩ ∈ differences v w) : ⟨path, c⟩ ∈ e.differences a := by
  induction path generalizing e a with
  | nil =>
    cases hv
    cases hw
    exact h
  | cons s path ih =>
    obtain ⟨e', hs, hv⟩ := Option.bind_eq_some_iff.mp hv
    obtain ⟨a', hs', hw⟩ := Option.bind_eq_some_iff.mp hw
    have hinner : ⟨path, c⟩ ∈ differences e' a' :=
      @ih ⟨e', e.ordered.child hs⟩ ⟨a', a.ordered.child hs'⟩ hv hw
    rw [differences_eq]
    refine List.mem_append_right _ (List.mem_flatMap.mpr ⟨s, mem_steps_of_child hs hs', ?_⟩)
    rw [hs, hs']
    exact List.mem_map.mpr ⟨⟨path, c⟩, hinner, rfl⟩

/-- A document with nothing but a value one step inside it. -/
def holding (v : Document) : Step → Document
  | .key k => .object (.insert k v .empty)
  | .index i => .array (List.replicate (i + 1) v)

theorem child?_holding (v : Document) (s : Step) :
    child? s (holding v s).value = some v.value := by
  cases s with
  | key k => exact Entries.get?_cons_self k v.value []
  | index i => simp [holding, Document.array]

/-- A document that has a value twice, at two places whose texts are the same. -/
def twice (front : String) (s : Step) (v : Document) : Document :=
  .object (.insert (front ++ s.text) v (.insert front (holding v s) .empty))

variable {front : String} {s : Step}

theorem child?_twice (k : String) (v : Document) : child? (.key k) (twice front s v).value =
    Entries.get? k (Entries.insert (front ++ s.text) v.value [(front, (holding v s).value)]) := rfl

theorem at?_twice_short (v : Document) :
    at? [.key (front ++ s.text)] (twice front s v).value = some v.value := by
  rw [at?_cons, child?_twice, Entries.get?_insert_self]
  rfl

theorem at?_twice_long (v : Document) :
    at? [.key front, s] (twice front s v).value = some v.value := by
  have hne : front ≠ front ++ s.text := by
    intro h
    have hlist := congrArg String.toList h
    rw [String.toList_append, List.self_eq_append_right] at hlist
    exact text_ne_empty s (String.toList_inj.mp hlist)
  rw [at?_cons, child?_twice, Entries.get?_insert_of_ne hne, Entries.get?_cons_self,
    Option.bind_some, at?_cons, child?_holding]
  rfl

theorem place_twice : place [.key (front ++ s.text)] = place [.key front, s] := by
  rw [place_inj]
  simp [pathText, toList_key]

end Clash

/-- Each difference of two documents says what is so at its place.  If all keys are plain,
differences at different places name them by different texts.  But any key that is not plain is a
key of two documents that differ at two places with the same text. -/
theorem places_told_apart {e a : Document}
    (hkeys : ∀ k ∈ e.value.keys ++ a.value.keys, Plain k) :
    (∀ d ∈ e.differences a, d.cause.Holds (at? d.path e.value) (at? d.path a.value) ∧
      ∀ d' ∈ e.differences a, d.path ≠ d'.path → place d.path ≠ place d'.path) ∧
    ∀ k, ¬ Plain k → ∃ e a : Document, k ∈ e.value.keys ∧ k ∈ a.value.keys ∧
      ∃ d ∈ e.differences a, ∃ d' ∈ e.differences a,
        d.path ≠ d'.path ∧ place d.path = place d'.path := by
  constructor
  · have hplain : ∀ d ∈ e.differences a, ∀ k, .key k ∈ d.path → Plain k := by
      intro d hd k hk
      rcases (holds_of_mem hd).isSome with hv | hw
      · exact hkeys k (List.mem_append_left _ (mem_keys_of_at? hv hk))
      · exact hkeys k (List.mem_append_right _ (mem_keys_of_at? hw hk))
    refine fun d hd => ⟨holds_of_mem hd, fun d' hd' hne hplace => hne ?_⟩
    exact pathText_inj (hplain d hd) (hplain d' hd') (place_inj.mp hplace)
  · intro k hk
    obtain ⟨front, s, rfl⟩ : ∃ front s, k = front ++ Step.text s := by
      by_contra hnone
      exact hk fun front s h => hnone ⟨front, s, h⟩
    have hkey : ∀ n, front ++ s.text ∈ (twice front s (.nat n)).value.keys := fun n =>
      mem_keys_of_at? (by rw [at?_twice_short]; rfl) List.mem_cons_self
    have hvalues : ⟨[], .values (nat 1) (nat 2)⟩ ∈ differences (nat 1) (nat 2) := List.mem_cons_self
    refine ⟨twice front s (.nat 1), twice front s (.nat 2), hkey 1, hkey 2,
      ⟨_, _⟩, mem_differences_of_at? (at?_twice_short _) (at?_twice_short _) hvalues,
      ⟨_, _⟩, mem_differences_of_at? (at?_twice_long _) (at?_twice_long _) hvalues, ?_,
      place_twice⟩
    simp

/-- Brackets inside a key do no harm.  A point does. -/
theorem places_told_apart_in_rows :
    let document (n : Nat) : Document := .object (.ofPairs [("rows[0]s",
      .array [.nat n, .object (.ofPairs [("b", .nat n)])])])
    (∀ k ∈ (document 1).value.keys ++ (document 2).value.keys, Plain k) ∧
      place [.key "rows[0]s", .index 0] ≠ place [.key "rows[0]s", .index 1, .key "b"] ∧
      ∃ e a : Document, "a.b" ∈ e.value.keys ∧ "a.b" ∈ a.value.keys ∧
        ∃ d ∈ e.differences a, ∃ d' ∈ e.differences a,
          d.path ≠ d'.path ∧ place d.path = place d'.path := by
  intro document
  have hplain : ∀ k ∈ (document 1).value.keys ++ (document 2).value.keys, Plain k := by
    intro k hk
    have hkeys : ∀ n, (document n).value.keys = ["rows[0]s", "b"] := fun _ => rfl
    have hcases : k = "rows[0]s" ∨ k = "b" := by
      rcases List.mem_append.mp hk with hk | hk <;> simpa [hkeys] using hk
    refine plain_iff.mpr ⟨?_, fun front i h => ?_⟩
    · rcases hcases with rfl | rfl <;> decide
    · have hlast : k.toList.getLast? = some ']' := by rw [h, getLast?_index]
      rcases hcases with rfl | rfl <;> cases hlast
  obtain ⟨happart, hclash⟩ := places_told_apart hplain
  have hlong : ⟨[.key "rows[0]s", .index 1, .key "b"], .values (nat 1) (nat 2)⟩ ∈
      (document 1).differences (document 2) := List.mem_cons_of_mem _ List.mem_cons_self
  have hne := (happart ⟨[.key "rows[0]s", .index 0], .values (nat 1) (nat 2)⟩
    List.mem_cons_self).2 _ hlong (by decide)
  obtain ⟨e, a, he, ha, hsame⟩ := hclash "a.b" fun h => h "a" (.key "b") (by decide)
  exact ⟨hplain, hne, e, a, he, ha, hsame⟩

/-- A member whose key has a point in it, beside one that has the same text as a place. -/
theorem places_confused :
    let document (n : Nat) : Document :=
      .object (.ofPairs [("a", .object (.ofPairs [("b", .nat n)])), ("a.b", .nat n)])
    ((document 1).differences (document 2)).map Difference.path =
        [[.key "a", .key "b"], [.key "a.b"]] ∧
      ((document 1).differences (document 2)).map Difference.text =
        ["$.a.b: expected 1, actual 2", "$.a.b: expected 1, actual 2"] := by
  decide +kernel

end RobotDesk.Json
