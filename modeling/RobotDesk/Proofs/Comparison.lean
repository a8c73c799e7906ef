import RobotDesk.Proofs.DifferenceWalk
import RobotDesk.Proofs.JsonReading
import RobotDesk.Trial

/-!
What the differences between two documents say about them together.

There are none exactly if the documents agree, so no step of the walk loses a difference, and the
explanation of a failure lists some exactly if both outputs are documents that do not agree.  If the
documents are exchanged, the same places are found in the same order, with the two sides of each
difference exchanged.
-/
namespace RobotDesk

namespace Json

open Difference

section Completeness

theorem between_eq_nil_iff (s : Step) (x y : Option Json) : between s x y = [] ↔
    x.isSome = y.isSome ∧ ∀ v w, x = some v → y = some w → differences v w = [] := by
  cases x <;> cases y <;> simp [between]

theorem leaf_eq_nil_iff {e a : Json} (h : Flat e a) : leaf e a = [] ↔ Agree e a := by
  rw [leaf]
  split
  · rename_i hkind
    simp only [List.cons_ne_nil, false_iff]
    exact fun hagree => hkind hagree.kind_eq
  · rw [← h.same_iff_agree]
    split
    · rename_i hsame
      simp [hsame]
    · rename_i hsame
      simp [hsame]

theorem lengths_eq_nil_iff (e a : List Json) : lengths e a = [] ↔ e.length = a.length := by
  rw [lengths]
  split <;> simp_all

theorem agree_objects_iff (e a : Entries) :
    Agree (.object e) (.object a) ↔ ∀ k ∈ Entries.unionKeys e a,
      (Entries.get? k e).isSome = (Entries.get? k a).isSome ∧
        ∀ v w, Entries.get? k e = some v → Entries.get? k a = some w → Agree v w := by
  constructor
  · intro h k _
    cases h with
    | object keys values => exact ⟨keys k, values k⟩
  · intro h
    refine .object (fun k => ?_) fun k v w hv hw => ?_
    · by_cases hk : k ∈ Entries.unionKeys e a
      · exact (h k hk).1
      · rw [(Entries.get?_eq_none_of_not_union hk).1, (Entries.get?_eq_none_of_not_union hk).2]
    · have hk : k ∈ Entries.unionKeys e a := by
        rw [Entries.mem_unionKeys, ← Entries.isSome_get?_iff, hv]
        exact .inl rfl
      exact (h k hk).2 v w hv hw

theorem agree_arrays_iff (e a : List Json) :
    Agree (.array e) (.array a) ↔ e.length = a.length ∧ ∀ i < min e.length a.length,
      e[i]?.isSome = a[i]?.isSome ∧ ∀ v w, e[i]? = some v → a[i]? = some w → Agree v w := by
  constructor
  · intro h
    cases h with
    | array length items =>
      refine ⟨length, fun i hi => ⟨?_, items i⟩⟩
      rw [Bool.eq_iff_iff]
      simp [length]
  · rintro ⟨hlength, hitems⟩
    refine .array hlength fun i v w hv hw => ?_
    obtain ⟨hi, -⟩ := List.getElem?_eq_some_iff.mp hv
    exact (hitems i (by omega)).2 v w hv hw

/-- The walk of two documents finds nothing exactly if they agree. -/
theorem differences_eq_nil_iff (e a : Document) :
    e.differences a = [] ↔ Agree e.value a.value := by
  refine step_induction
    (motive := fun e => ∀ a : Document, e.differences a = [] ↔ Agree e.value a.value) ?_ e a
  intro e ih a
  have hinner : ∀ s, (∀ v w, child? s e.value = some v → child? s a.value = some w →
      differences v w = []) ↔
      ∀ v w, child? s e.value = some v → child? s a.value = some w → Agree v w := by
    intro s
    refine forall_congr' fun v => forall_congr' fun w => forall_congr' fun hv =>
      forall_congr' fun hw => ?_
    exact ih s v hv ⟨w, a.ordered.child hw⟩
  rw [differences_eq, List.append_eq_nil_iff, List.flatMap_eq_nil_iff]
  simp only [between_eq_nil_iff, hinner]
  generalize e.value = e, a.value = a
  fun_cases steps e a with
  | case1 e a => simp [agree_objects_iff, outer]
  | case2 e a =>
    rw [outer, lengths_eq_nil_iff, agree_arrays_iff, List.forall_mem_map]
    simp only [List.mem_range, child?_index_array]
  | case3 _ _ hobjects harrays =>
    have hflat : Flat e a := ⟨hobjects, harrays⟩
    simp [outer_of_flat hflat, leaf_eq_nil_iff hflat]

theorem parse?_eq_some_iff {s : String} {d : Document} :
    parse? s = some d ↔ parse s = .ok d := by
  rw [parse?]
  cases parse s <;> simp [Except.toOption]

theorem textDifferences_ne_nil_iff (expected actual : String) :
    textDifferences expected actual ≠ [] ↔
      ∃ e a, parse expected = .ok e ∧ parse actual = .ok a ∧ ¬ Agree e.value a.value := by
  simp only [← parse?_eq_some_iff]
  rw [textDifferences]
  split
  · rename_i e a he ha
    simp [he, ha, differences_eq_nil_iff]
  · rename_i hnone
    constructor
    · intro h
      exact absurd rfl h
    · rintro ⟨e, a, he, ha, -⟩
      exact (hnone e a he ha).elim

end Completeness

section Mirror

/-- The difference with the expected and the actual side exchanged. -/
def Difference.mirror (d : Difference) : Difference := ⟨d.path, d.cause.swap⟩

theorem leaf_mirror {e a : Json} (h : Flat e a) : leaf a e = (leaf e a).map mirror := by
  have hsame : a.same e = e.same a := by
    rw [Bool.eq_iff_iff, h.same_iff_agree, h.symm.same_iff_agree]
    exact ⟨Agree.symm, Agree.symm⟩
  by_cases hkind : e.kind = a.kind
  · by_cases heq : e.same a = true
    · simp [leaf, hkind, hsame, heq]
    · simp [leaf, hkind, hsame, heq, mirror, Cause.swap]
  · simp [leaf, hkind, Ne.symm hkind, mirror, Cause.swap]

theorem lengths_mirror (e a : List Json) : lengths a e = (lengths e a).map mirror := by
  by_cases h : e.length = a.length
  · simp [lengths, h]
  · simp [lengths, h, Ne.symm h, mirror, Cause.swap]

theorem between_mirror (s : Step) {x y : Option Json}
    (h : ∀ v w, x = some v → y = some w → differences w v = (differences v w).map mirror) :
    between s y x = (between s x y).map mirror := by
  cases x with
  | none => cases y <;> rfl
  | some v =>
    cases y with
    | none => rfl
    | some w =>
      rw [between, between, h v w rfl rfl, List.map_map, List.map_map]
      rfl

theorem outer_mirror (e a : Json) : outer a e = (outer e a).map mirror := by
  fun_cases outer e a with
  | case1 e a => rfl
  | case2 e a => exact lengths_mirror e a
  | case3 _ _ hobjects harrays =>
    have hflat : Flat e a := ⟨hobjects, harrays⟩
    rw [outer_of_flat hflat.symm, leaf_mirror hflat]

theorem steps_comm (e a : Document) : steps a.value e.value = steps e.value a.value := by
  obtain ⟨e, he⟩ := e
  obtain ⟨a, ha⟩ := a
  dsimp only
  fun_cases steps e a with
  | case1 e a => rw [steps, Members.unionKeys_comm ⟨e, he⟩ ⟨a, ha⟩]
  | case2 e a => rw [steps, Nat.min_comm]
  | case3 _ _ hobjects harrays =>
    have hflat : Flat e a := ⟨hobjects, harrays⟩
    exact steps_of_flat hflat.symm

/-- Exchanging two documents exchanges the sides of each difference. -/
theorem differences_mirror (e a : Document) :
    a.differences e = (e.differences a).map mirror := by
  refine step_induction
    (motive := fun e => ∀ a : Document, a.differences e = (e.differences a).map mirror) ?_ e a
  intro e ih a
  rw [differences_eq e a, differences_eq a e, steps_comm, outer_mirror, List.map_append,
    List.map_flatMap]
  refine congrArg (_ ++ ·) (List.flatMap_congr fun s _ => ?_)
  exact between_mirror s fun v w hv hw => ih s v hv ⟨w, a.ordered.child hw⟩

/-- Two documents have as many differences as the same two the other way round.  Those that come at
the same turn have the same place, and the sides of their causes are exchanged. -/
theorem differences_mirrored (e a : Document) :
    ((a.differences e).map text).length = ((e.differences a).map text).length ∧
      ∀ (i : Nat) d, (e.differences a)[i]? = some d →
        (a.differences e)[i]? = some ⟨d.path, d.cause.swap⟩ ∧
        ((e.differences a).map text)[i]? = some (place d.path ++ ": " ++ d.cause.text) ∧
        ((a.differences e).map text)[i]? = some (place d.path ++ ": " ++ d.cause.swap.text) := by
  have hmirror := differences_mirror e a
  constructor
  · simp [hmirror]
  · intro i d hd
    have hd' : (a.differences e)[i]? = some d.mirror := by
      rw [hmirror, List.getElem?_map, hd]
      rfl
    refine ⟨hd', ?_, ?_⟩
    · rw [List.getElem?_map, hd]
      rfl
    · rw [List.getElem?_map, hd']
      rfl

/-- Two documents that differ in each of the ways. -/
theorem differences_mirrored_for_orders :
    let e : Document := .object (.ofPairs [("gone", .null), ("n", .nat 3),
      ("rows", .array [.nat 1, .nat 2]), ("total", .nat 3)])
    let a : Document := .object (.ofPairs [("extra", .null), ("n", .nat 4),
      ("rows", .array [.nat 1]), ("total", .string "3")])
    (a.differences e).length = (e.differences a).length ∧
      (a.differences e)[2]? = some ⟨[.key "n"], .values (nat 4) (nat 3)⟩ ∧
      ((e.differences a).map text)[3]? =
        some "$.rows: array length differs (expected 2, actual 1)" ∧
      ((a.differences e).map text)[3]? =
        some "$.rows: array length differs (expected 1, actual 2)" ∧
      (a.differences e)[0]? = some ⟨[.key "extra"], .missing⟩ := by
  intro e a
  obtain ⟨hlength, hmirror⟩ := differences_mirrored e a
  rw [List.length_map, List.length_map] at hlength
  have hrow := hmirror 3 ⟨[.key "rows"], .lengths 2 1⟩ rfl
  exact ⟨hlength, (hmirror 2 ⟨[.key "n"], .values (nat 3) (nat 4)⟩ rfl).1, hrow.2.1,
    hrow.2.2, (hmirror 0 ⟨[.key "extra"], .unexpected⟩ rfl).1⟩

end Mirror

end Json

namespace Verdict

/-- The two texts of which the explanation of a failure speaks. -/
def heading (expected actual : String) : String :=
  "output mismatch:\n  expected: " ++ expected ++ "\n  actual: " ++ actual

/-- The lines that are added for differences. -/
def differenceLines (ds : List Json.Difference) : String :=
  String.join (ds.map ("\n  - " ++ ·.text))

theorem mismatch_eq (expected actual : String) : mismatch expected actual =
    heading expected actual ++ differenceLines (Json.textDifferences expected actual) := rfl

theorem differenceLines_cons_ne (d : Json.Difference) (ds : List Json.Difference) :
    differenceLines (d :: ds) ≠ "" := by
  intro h
  have hlength := congrArg String.length h
  simp [differenceLines, String.join_cons] at hlength

/-- A line is added exactly if there is a difference. -/
theorem lines_added_iff (expected actual : String) :
    (∃ d ds, mismatch expected actual = heading expected actual ++ differenceLines (d :: ds)) ↔
      Json.textDifferences expected actual ≠ [] := by
  rw [mismatch_eq]
  cases h : Json.textDifferences expected actual with
  | nil =>
    simp only [ne_eq, not_true_eq_false, iff_false]
    rintro ⟨d, ds, heq⟩
    exact differenceLines_cons_ne d ds ((String.append_right_inj _).mp heq).symm
  | cons d ds =>
    simp only [ne_eq, reduceCtorEq, not_false_eq_true, iff_true]
    exact ⟨d, ds, rfl⟩

end Verdict

open Json Json.Difference Verdict

/-- Two documents have no differences exactly if they agree.  For any two texts, the explanation of
a failure has a line for a difference exactly if both texts spell documents and these do not agree,
and then the lines are those of their differences. -/
theorem differences_none_iff_agree (e a : Document) (expected actual : String) :
    ((e.differences a).map Difference.text = [] ↔ Agree e.value a.value) ∧
      ((∃ d ds, mismatch expected actual = heading expected actual ++ differenceLines (d :: ds)) ↔
        ∃ v w, parse expected = .ok v ∧ parse actual = .ok w ∧ ¬ Agree v.value w.value) ∧
      ∀ v w, parse expected = .ok v → parse actual = .ok w →
        mismatch expected actual =
          heading expected actual ++ differenceLines (v.differences w) := by
  refine ⟨?_, ?_, fun v w hv hw => ?_⟩
  · rw [List.map_eq_nil_iff]
    exact differences_eq_nil_iff e a
  · rw [lines_added_iff, textDifferences_ne_nil_iff]
  · rw [mismatch_eq, textDifferences, parse?_eq_some_iff.mpr hv, parse?_eq_some_iff.mpr hw]

/-- The two zeros among the reals agree, also inside documents.  The integer zero is neither. -/
theorem differences_none_of_zeros :
    let zero (negative : Bool) : Document :=
      .object (.ofPairs [("a", .array [.null, .object .empty]),
        ("z", .number (.real ⟨negative, 0⟩))])
    Agree (zero false).value (zero true).value ∧
      ∃ d ds, mismatch "0" "-0" = heading "0" "-0" ++ differenceLines (d :: ds) := by
  intro zero
  have hreal : parse "-0" = .ok (.number (.real ⟨true, 0⟩)) := isReal_iff.mp (by decide +kernel)
  obtain ⟨hnone, hline, -⟩ := differences_none_iff_agree (zero false) (zero true) "0" "-0"
  refine ⟨hnone.mp rfl, hline.mpr ⟨.number (.int 0), _, rfl, hreal, ?_⟩⟩
  intro h
  cases h

end RobotDesk
