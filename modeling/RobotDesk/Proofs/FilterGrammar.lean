import RobotDesk.Proofs.FilterText

/-!
Filter expressions have one reading.

The grammar of expressions is given here apart from the reader.  A clause is a name, ` eq ` and a
literal between quotes; in a literal a quote is written as two.  Clauses are joined by ` and `.  A
quote that closes a literal is followed by ` and ` or by nothing, so no other quote can be taken for
it, and each text has at most one reading.  Therefore the expression for a filter is read as the
clauses of this filter and of no other one, whatever stands in its process key.
-/
namespace RobotDesk.OData

/-- What stands between the quotes of a literal. -/
inductive Quoted : List Char → List Char → Prop where
  | nil : Quoted [] []
  | plain {c : Char} {text literal : List Char} (unquoted : c ≠ '\x27')
      (rest : Quoted text literal) : Quoted (c :: text) (c :: literal)
  | quote {text literal : List Char} (rest : Quoted text literal) :
      Quoted ('\x27' :: '\x27' :: text) ('\x27' :: literal)

/-- What can be the name of a field: anything without blanks and quotes. -/
structure IsName (name : List Char) : Prop where
  nonempty : name ≠ []
  plain : ∀ c ∈ name, c ≠ ' ' ∧ c ≠ '\x27'

/-- A text that spells a clause. -/
inductive SpellsClause : List Char → Clause → Prop where
  | intro {name text literal : List Char} (named : IsName name) (quoted : Quoted text literal) :
      SpellsClause (name ++ (" eq '".toList ++ (text ++ ['\x27'])))
        ⟨String.ofList name, String.ofList literal⟩

/-- A text that spells clauses. -/
inductive Reading : List Char → List Clause → Prop where
  | last {text : List Char} {c : Clause} (clause : SpellsClause text c) : Reading text [c]
  | more {text rest : List Char} {c : Clause} {cs : List Clause} (clause : SpellsClause text c)
      (others : Reading rest cs) : Reading (text ++ (" and ".toList ++ rest)) (c :: cs)

section Unique

theorem Quoted.eq_quoteChars {text literal : List Char} (h : Quoted text literal) :
    text = quoteChars literal := by
  induction h with
  | nil => rfl
  | plain unquoted rest ih => rw [quoteChars_cons_of_ne unquoted, ← ih]
  | quote rest ih => rw [quoteChars_cons_quote, ← ih]

theorem quoted_quoteChars (literal : List Char) : Quoted (quoteChars literal) literal := by
  induction literal with
  | nil => exact .nil
  | cons c literal ih =>
    by_cases hc : c = '\x27'
    · subst hc
      rw [quoteChars_cons_quote]
      exact .quote ih
    · rw [quoteChars_cons_of_ne hc]
      exact .plain hc ih

/-- A text is cut in one way at the first place where a character stands. -/
theorem append_cons_inj {c : Char} {xs xs' ys ys' : List Char} (h : c ∉ xs) (h' : c ∉ xs')
    (heq : xs ++ c :: ys = xs' ++ c :: ys') : xs = xs' ∧ ys = ys' := by
  induction xs generalizing xs' with
  | nil =>
    cases xs' with
    | nil => exact ⟨rfl, (List.cons.inj heq).2⟩
    | cons x xs' => exact absurd (List.mem_cons.mpr (.inl (List.cons.inj heq).1)) h'
  | cons x xs ih =>
    cases xs' with
    | nil => exact absurd (List.mem_cons.mpr (.inl (List.cons.inj heq).1.symm)) h
    | cons x' xs' =>
      rw [List.mem_cons, not_or] at h h'
      obtain ⟨hx, hmore⟩ := List.cons.inj heq
      obtain ⟨rfl, hys⟩ := ih h.2 h'.2 hmore
      exact ⟨by rw [hx], hys⟩

/-- A clause at the front of a text ends in one place, if no quote follows it. -/
theorem SpellsClause.unique {text text' rest rest' : List Char} {c c' : Clause}
    (h : SpellsClause text c) (h' : SpellsClause text' c') (hrest : rest.head? ≠ some '\x27')
    (hrest' : rest'.head? ≠ some '\x27') (heq : text ++ rest = text' ++ rest') :
    c = c' ∧ rest = rest' := by
  obtain @⟨name, text, literal, named, quoted⟩ := h
  obtain @⟨name', text', literal', named', quoted'⟩ := h'
  have hblank : ∀ {n : List Char}, IsName n → ' ' ∉ n := fun hn hmem => (hn.plain _ hmem).1 rfl
  have hspaced : ∀ n t r : List Char, n ++ (" eq '".toList ++ (t ++ ['\x27'])) ++ r =
      n ++ ' ' :: ("eq '".toList ++ (t ++ '\x27' :: r)) := by simp
  rw [hspaced, hspaced] at heq
  obtain ⟨rfl, htail⟩ := append_cons_inj (hblank named) (hblank named') heq
  have hliteral := List.append_cancel_left htail
  have hread := literalTail_quoteChars literal hrest
  rw [← quoted.eq_quoteChars, hliteral, quoted'.eq_quoteChars,
    literalTail_quoteChars literal' hrest'] at hread
  simp only [Option.some.injEq, Prod.mk.injEq] at hread
  obtain ⟨rfl, rfl⟩ := hread
  exact ⟨rfl, rfl⟩

/-- No text has two readings. -/
theorem Reading.unique {text : List Char} {cs cs' : List Clause} (h : Reading text cs)
    (h' : Reading text cs') : cs = cs' := by
  have hend : ([] : List Char).head? ≠ some '\x27' := by simp
  have hand : ∀ rest : List Char, (" and ".toList ++ rest).head? ≠ some '\x27' := by simp
  induction h generalizing cs' with
  | @last text c clause =>
    rw [← List.append_nil text] at h'
    generalize htext : text ++ [] = whole at h'
    cases h' with
    | last clause' =>
      rw [← List.append_nil whole] at htext
      rw [(clause.unique clause' hend hend htext).1]
    | more clause' others' => cases (clause.unique clause' hend (hand _) htext).2
  | @more text rest c cs clause others ih =>
    generalize htext : text ++ (" and ".toList ++ rest) = whole at h'
    cases h' with
    | last clause' =>
      rw [← List.append_nil whole] at htext
      cases (clause.unique clause' (hand _) hend htext).2
    | more clause' others' =>
      obtain ⟨rfl, hmore⟩ := clause.unique clause' (hand _) (hand _) htext
      obtain rfl := List.append_cancel_left hmore
      rw [ih others']

end Unique

section Written

theorem isName_of_isField {field : String} (h : isField field = true) : IsName field.toList := by
  simp only [isField, Bool.and_eq_true, Bool.not_eq_true', List.all_eq_true] at h
  refine ⟨by simpa using h.1, fun c hc => ⟨?_, ?_⟩⟩
  · rintro rfl
    exact absurd (h.2 _ hc) (by decide)
  · rintro rfl
    exact absurd (h.2 _ hc) (by decide)

theorem spellsClause_text {c : Clause} (h : isField c.field = true) :
    SpellsClause c.text.toList c := by
  have hspelled := SpellsClause.intro (isName_of_isField h) (quoted_quoteChars c.literal.toList)
  rwa [String.ofList_toList, String.ofList_toList, ← c.toList_text] at hspelled

/-- The expression of some clauses spells them. -/
theorem reading_expression (c : Clause) (cs : List Clause)
    (h : ∀ d ∈ c :: cs, isField d.field = true) :
    Reading (expression (c :: cs)).toList (c :: cs) := by
  induction cs generalizing c with
  | nil =>
    have htext : expression [c] = c.text := by simp [expression]
    rw [htext]
    exact .last (spellsClause_text (h c (by simp)))
  | cons d cs ih =>
    have hmore := ih d fun e he => h e (List.mem_cons_of_mem c he)
    rw [expression_cons, String.toList_append, String.toList_append, List.append_assoc]
    exact .more (spellsClause_text (h c (by simp))) hmore

theorem reading_expression_iff {cs : List Clause} (hne : cs ≠ [])
    (h : ∀ c ∈ cs, isField c.field = true) (ds : List Clause) :
    Reading (expression cs).toList ds ↔ ds = cs := by
  obtain ⟨c, cs, rfl⟩ := List.exists_cons_of_ne_nil hne
  have hspelled := reading_expression c cs h
  constructor
  · intro hread
    exact hread.unique hspelled
  · rintro rfl
    exact hspelled

end Written

theorem jobExpression?_eq_none_iff (f : JobFilter) : jobExpression? f = none ↔ f = {} := by
  obtain ⟨processKey, status⟩ := f
  cases processKey <;> cases status <;> simp [jobExpression?, JobFilter.isEmpty]

theorem jobExpression?_eq_some {f : JobFilter} {e : String} (h : jobExpression? f = some e) :
    jobClauses f ≠ [] ∧ e = expression (jobClauses f) := by
  unfold jobExpression? at h
  split at h
  · cases h
  · rename_i hempty
    exact ⟨jobClauses_ne_nil (by simpa using hempty), (Option.some.inj h).symm⟩

/-- Other filters have other clauses. -/
theorem jobClauses_injective {f g : JobFilter} (h : jobClauses f = jobClauses g) : f = g := by
  obtain ⟨processKey, status⟩ := f
  obtain ⟨processKey', status'⟩ := g
  cases processKey <;> cases status <;> cases processKey' <;> cases status' <;>
    simp_all [jobClauses, JobStatus.name_inj]

/-- There is an expression for every filter but the empty one.  It is read as the process key and
the status that the filter names, in this order, and in no other way; and the expression for an
asset as its name.  So other filters and other names have other expressions. -/
theorem filters_read_one_way :
    (∀ f : JobFilter, (jobExpression? f = none ↔ f = {}) ∧
      ∀ e, jobExpression? f = some e →
        let clauses := (f.processKey.map (Clause.mk "ReleaseName")).toList
          ++ (f.status.map fun s => Clause.mk "State" s.name).toList
        clauses? e = some clauses ∧ ∀ cs, Reading e.toList cs ↔ cs = clauses) ∧
    (∀ name, clauses? (assetExpression name) = some [⟨"Name", name⟩] ∧
      ∀ cs, Reading (assetExpression name).toList cs ↔ cs = [⟨"Name", name⟩]) ∧
    (∀ f g, jobExpression? f = jobExpression? g → f = g) ∧
    ∀ name name', assetExpression name = assetExpression name' → name = name' := by
  have hread : ∀ f e, jobExpression? f = some e →
      clauses? e = some (jobClauses f) ∧ ∀ cs, Reading e.toList cs ↔ cs = jobClauses f := by
    intro f e h
    obtain ⟨hne, rfl⟩ := jobExpression?_eq_some h
    exact ⟨clauses?_expression hne (isField_jobClauses f),
      reading_expression_iff hne (isField_jobClauses f)⟩
  refine ⟨fun f => ⟨jobExpression?_eq_none_iff f, hread f⟩, fun name => ?_, fun f g h => ?_, ?_⟩
  · refine ⟨clauses?_assetExpression name, reading_expression_iff (by simp) fun c hc => ?_⟩
    obtain rfl := List.mem_singleton.mp hc
    exact (by decide : isField "Name" = true)
  · cases hf : jobExpression? f with
    | none =>
      rw [hf] at h
      rw [(jobExpression?_eq_none_iff f).mp hf, (jobExpression?_eq_none_iff g).mp h.symm]
    | some e =>
      have hclauses := (hread f e hf).1
      rw [(hread g e (h.symm.trans hf)).1] at hclauses
      exact jobClauses_injective (Option.some.inj hclauses).symm
  · intro name name' h
    have hclauses := clauses?_assetExpression name
    rw [h, clauses?_assetExpression] at hclauses
    simpa using hclauses.symm

end RobotDesk.OData
