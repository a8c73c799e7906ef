import RobotDesk.OData.Filter

/-!
Filter expressions are read as they were written.

A literal in which quotes are doubled ends at the quote that closes it and nowhere before, whatever
stands inside; so the clauses of an expression are those it was made from.
-/
namespace RobotDesk.OData

theorem quoteChars_cons_quote (cs : List Char) :
    quoteChars ('\x27' :: cs) = '\x27' :: '\x27' :: quoteChars cs := rfl

theorem quoteChars_cons_of_ne {c : Char} (h : c ≠ '\x27') (cs : List Char) :
    quoteChars (c :: cs) = c :: quoteChars cs := by
  simp [quoteChars, h]

theorem literalTail_cons_of_ne {c : Char} (h : c ≠ '\x27') (cs : List Char) :
    literalTail (c :: cs) = (literalTail cs).map fun (l, r) => (c :: l, r) := by
  rw [literalTail]
  · intro hc
    exact absurd hc h
  · intro _ _ hc
    exact absurd hc h

/-- A quoted literal is read up to its end, unless another quote follows there. -/
theorem literalTail_quoteChars (cs : List Char) {rest : List Char}
    (h : rest.head? ≠ some '\x27') :
    literalTail (quoteChars cs ++ '\x27' :: rest) = some (cs, rest) := by
  induction cs with
  | nil =>
    cases rest with
    | nil => rfl
    | cons c rest =>
      have hc : c ≠ '\x27' := by simpa using h
      simp [literalTail, hc]
  | cons c cs ih =>
    by_cases hc : c = '\x27'
    · subst hc
      rw [quoteChars_cons_quote, List.cons_append, List.cons_append, literalTail, if_pos rfl, ih]
      rfl
    · rw [quoteChars_cons_of_ne hc, List.cons_append, literalTail_cons_of_ne hc, ih]
      rfl

theorem after?_append (front cs : List Char) : after? front (front ++ cs) = some cs := by
  have hfront : front.isPrefixOf (front ++ cs) = true :=
    List.isPrefixOf_iff_prefix.mpr (List.prefix_append front cs)
  rw [after?, if_pos hfront, List.drop_left]

/-- Whether a text can be read as a field: some letters. -/
def isField (s : String) : Bool := !s.toList.isEmpty && s.toList.all Char.isAlpha

namespace Clause

theorem toList_text (c : Clause) : c.text.toList =
    c.field.toList ++ (" eq '".toList ++ (quoteChars c.literal.toList ++ ['\x27'])) := by
  simp [text, quote]

theorem length_text_pos (c : Clause) : 0 < c.text.length := by
  rw [← String.length_toList, toList_text]
  simp only [List.length_append, List.length_singleton]
  omega

theorem clause?_text {c : Clause} (h : isField c.field = true) {rest : List Char}
    (hrest : rest.head? ≠ some '\x27') : clause? (c.text.toList ++ rest) = some (c, rest) := by
  simp only [isField, Bool.and_eq_true, Bool.not_eq_true', List.all_eq_true] at h
  obtain ⟨hnonempty, hletters⟩ := h
  obtain ⟨tail, htail⟩ : ∃ tail, tail = quoteChars c.literal.toList ++ '\x27' :: rest := ⟨_, rfl⟩
  have htext : c.text.toList ++ rest = c.field.toList ++ (" eq '".toList ++ tail) := by
    simp [toList_text, htail]
  have hfield : (c.field.toList ++ (" eq '".toList ++ tail)).takeWhile Char.isAlpha =
      c.field.toList := by
    rw [List.takeWhile_append_of_pos hletters]
    simp
  have hafter : (c.field.toList ++ (" eq '".toList ++ tail)).dropWhile Char.isAlpha =
      " eq '".toList ++ tail := by
    rw [List.dropWhile_append_of_pos hletters]
    rfl
  have hliteral : literalTail tail = some (c.literal.toList, rest) := by
    rw [htail, literalTail_quoteChars _ hrest]
  rw [clause?, htext, hfield, hafter, after?_append]
  simp only [Option.bind_eq_bind, Option.bind_some, hliteral, hnonempty]
  simp

end Clause

theorem expression_cons (c d : Clause) (cs : List Clause) :
    expression (c :: d :: cs) = c.text ++ " and " ++ expression (d :: cs) :=
  String.intercalate_cons_cons

theorem clausesFrom?_expression (c : Clause) (cs : List Clause)
    (h : ∀ d ∈ c :: cs, isField d.field = true) {fuel : Nat} (hfuel : cs.length < fuel) :
    clausesFrom? fuel (expression (c :: cs)).toList = some (c :: cs) := by
  obtain ⟨fuel, rfl⟩ : ∃ n, fuel = n + 1 := ⟨fuel - 1, by omega⟩
  induction cs generalizing c fuel with
  | nil =>
    have hread : clause? (expression [c]).toList = some (c, []) := by
      rw [← List.append_nil (expression [c]).toList]
      exact Clause.clause?_text (h c (by simp)) (by simp)
    simp [clausesFrom?, hread]
  | cons d cs ih =>
    obtain ⟨fuel, rfl⟩ : ∃ n, fuel = n + 1 := ⟨fuel - 1, by simp at hfuel; omega⟩
    have hread : clause? (expression (c :: d :: cs)).toList =
        some (c, " and ".toList ++ (expression (d :: cs)).toList) := by
      rw [expression_cons, String.toList_append, String.toList_append, List.append_assoc]
      exact Clause.clause?_text (h c (by simp)) (by simp)
    have hmore := ih d (fun e he => h e (List.mem_cons_of_mem c he)) fuel (by simpa using hfuel)
    rw [clausesFrom?, hread]
    simp only [Option.bind_eq_bind, Option.bind_some]
    split
    · cases ‹_ = []›
    · rw [after?_append, Option.bind_some, hmore]
      rfl

theorem length_le_length_expression (cs : List Clause) : cs.length ≤ (expression cs).length := by
  induction cs with
  | nil => simp
  | cons c cs ih =>
    have hc := c.length_text_pos
    cases cs with
    | nil => exact hc
    | cons d cs =>
      rw [expression_cons, String.length_append, String.length_append, List.length_cons]
      omega

/-- The clauses of an expression are those it was made from. -/
theorem clauses?_expression {cs : List Clause} (hne : cs ≠ [])
    (h : ∀ c ∈ cs, isField c.field = true) : clauses? (expression cs) = some cs := by
  cases cs with
  | nil => exact absurd rfl hne
  | cons c cs => exact clausesFrom?_expression c cs h (length_le_length_expression (c :: cs))

theorem isField_jobClauses (f : JobFilter) : ∀ c ∈ jobClauses f, isField c.field = true := by
  intro c hc
  simp only [jobClauses, List.mem_append, Option.mem_toList, Option.map_eq_some_iff] at hc
  rcases hc with ⟨key, -, rfl⟩ | ⟨status, -, rfl⟩
  · exact (by decide : isField "ReleaseName" = true)
  · exact (by decide : isField "State" = true)

theorem jobClauses_ne_nil {f : JobFilter} (h : f.isEmpty = false) : jobClauses f ≠ [] := by
  obtain ⟨processKey, status⟩ := f
  cases processKey <;> cases status <;> simp_all [jobClauses, JobFilter.isEmpty]

theorem clauses?_assetExpression (name : String) :
    clauses? (assetExpression name) = some [⟨"Name", name⟩] := by
  apply clauses?_expression (by simp)
  intro c hc
  obtain rfl := List.mem_singleton.mp hc
  exact (by decide : isField "Name" = true)

end RobotDesk.OData
