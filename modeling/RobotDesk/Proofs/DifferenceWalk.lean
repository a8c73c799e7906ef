import Mathlib.Data.List.Basic
import RobotDesk.Proofs.Documents

/-!
The walk over two documents that finds their differences, one step at a time.

Two objects are walked along the keys that at least one of them has, in their order, and two arrays
along the positions that both have.  At each step the walk goes on if it leads somewhere in both
documents, and otherwise something is missing or unexpected.
-/
namespace RobotDesk.Json

namespace Difference

/-- The differences one step into two values, given what the step leads to. -/
def between (s : Step) : Option Json → Option Json → List Difference
  | some v, some w => (differences v w).map (under s)
  | some _, none => [⟨[s], .missing⟩]
  | none, some _ => [⟨[s], .unexpected⟩]
  | none, none => []

/-- The difference between two values apart from what is inside both. -/
def outer : Json → Json → List Difference
  | .object _, .object _ => []
  | .array e, .array a => lengths e a
  | e, a => leaf e a

end Difference

open Difference

/-- The steps that the walk takes into two values. -/
def steps : Json → Json → List Step
  | .object e, .object a => (Entries.unionKeys e a).map .key
  | .array e, .array a => (List.range (min e.length a.length)).map .index
  | _, _ => []

section Merge

variable {k : String} {e a : Entries}

theorem memberDifferences_cons_left (ha : ∀ m ∈ a, k < m.1) (v : Json) :
    memberDifferences ((k, v) :: e) a = ⟨[.key k], .missing⟩ :: memberDifferences e a := by
  cases a with
  | nil => rw [memberDifferences]; rfl
  | cons n a =>
    have hlt : k < n.1 := ha n List.mem_cons_self
    have hne : n.1 ≠ k := fun heq => String.lt_irrefl k (heq ▸ hlt)
    have hstop : decide (n.1 < k) = false := decide_eq_false (String.lt_asymm hlt)
    rw [memberDifferences]
    simp only [List.takeWhile_cons, List.dropWhile_cons, hstop, Bool.false_eq_true, if_false]
    exact if_neg hne

theorem memberDifferences_cons_right (he : ∀ m ∈ e, k < m.1) (w : Json) :
    memberDifferences e ((k, w) :: a) = ⟨[.key k], .unexpected⟩ :: memberDifferences e a := by
  cases e with
  | nil =>
    rw [memberDifferences, memberDifferences]
    rfl
  | cons m e =>
    have hskip : decide (k < m.1) = true := decide_eq_true (he m List.mem_cons_self)
    rw [memberDifferences, memberDifferences]
    simp only [List.takeWhile_cons, List.dropWhile_cons, hskip, if_true]
    rfl

theorem memberDifferences_cons_both (v w : Json) :
    memberDifferences ((k, v) :: e) ((k, w) :: a) =
      (differences v w).map (under (.key k)) ++ memberDifferences e a := by
  have hstop : decide (k < k) = false := decide_eq_false (String.lt_irrefl k)
  rw [memberDifferences]
  simp only [List.takeWhile_cons, List.dropWhile_cons, hstop, Bool.false_eq_true, if_false, if_true]
  rfl

/-- Two maps are walked along all their keys. -/
theorem memberDifferences_eq (e a : Members) :
    memberDifferences e.entries a.entries =
      (Entries.unionKeys e.entries a.entries).flatMap fun k =>
        between (.key k) (e.get? k) (a.get? k) := by
  refine Entries.merge_induction (motive := fun e a => memberDifferences e a =
    (Entries.unionKeys e a).flatMap fun k =>
      between (.key k) (Entries.get? k e) (Entries.get? k a)) ?nil ?left ?right ?both
    e.sorted a.sorted
  case nil => simp [memberDifferences, Entries.unionKeys, Entries.insertAll]
  case left =>
    intro k v e a he ha ih
    rw [memberDifferences_cons_left ha, Entries.unionKeys_cons_left ha, List.flatMap_cons,
      Entries.get?_cons_self, Entries.get?_eq_none_of_lt ha, ih]
    refine congrArg (_ :: ·) (List.flatMap_congr fun l hl => ?_)
    rw [Entries.get?_cons_of_ne (Entries.ne_of_mem_unionKeys he ha hl)]
  case right =>
    intro k w e a he ha ih
    rw [memberDifferences_cons_right he, Entries.unionKeys_cons_right he ha, List.flatMap_cons,
      Entries.get?_cons_self, Entries.get?_eq_none_of_lt he, ih]
    refine congrArg (_ :: ·) (List.flatMap_congr fun l hl => ?_)
    rw [Entries.get?_cons_of_ne (Entries.ne_of_mem_unionKeys he ha hl)]
  case both =>
    intro k v w e a he ha ih
    rw [memberDifferences_cons_both, Entries.unionKeys_cons_both ha, List.flatMap_cons,
      Entries.get?_cons_self, Entries.get?_cons_self, ih]
    refine congrArg (_ ++ ·) (List.flatMap_congr fun l hl => ?_)
    have hne := Entries.ne_of_mem_unionKeys he ha hl
    rw [Entries.get?_cons_of_ne hne, Entries.get?_cons_of_ne hne]

end Merge

/-- Two arrays are walked along the positions that both have. -/
theorem itemDifferences_eq (i : Nat) (e a : List Json) :
    itemDifferences i e a = (List.range (min e.length a.length)).flatMap fun j =>
      between (.index (i + j)) e[j]? a[j]? := by
  induction e generalizing i a with
  | nil => simp [itemDifferences]
  | cons v e ih =>
    cases a with
    | nil => simp [itemDifferences]
    | cons w a =>
      rw [itemDifferences, ih, List.length_cons, List.length_cons, Nat.succ_min_succ,
        List.range_succ_eq_map, List.flatMap_cons, List.flatMap_map]
      refine congrArg (_ ++ ·) (List.flatMap_congr fun j _ => ?_)
      simp only [List.getElem?_cons_succ, Nat.succ_eq_add_one, Nat.add_assoc, Nat.add_comm 1]

theorem differences_of_flat {e a : Json} (h : Flat e a) : differences e a = leaf e a := by
  cases e <;> cases a
  case array.array vs ws => exact (h.arrays vs ws rfl rfl).elim
  case object.object ms ns => exact (h.objects ms ns rfl rfl).elim
  all_goals rfl

theorem outer_of_flat {e a : Json} (h : Flat e a) : outer e a = leaf e a := by
  cases e <;> cases a
  case array.array vs ws => exact (h.arrays vs ws rfl rfl).elim
  case object.object ms ns => exact (h.objects ms ns rfl rfl).elim
  all_goals rfl

theorem steps_of_flat {e a : Json} (h : Flat e a) : steps e a = [] := by
  cases e <;> cases a
  case array.array vs ws => exact (h.arrays vs ws rfl rfl).elim
  case object.object ms ns => exact (h.objects ms ns rfl rfl).elim
  all_goals rfl

/-- The walk of two documents: what differs at once, and then the steps into them. -/
theorem differences_eq (e a : Document) :
    e.differences a = outer e.value a.value ++
      (steps e.value a.value).flatMap fun s =>
        between s (child? s e.value) (child? s a.value) := by
  obtain ⟨e, he⟩ := e
  obtain ⟨a, ha⟩ := a
  rw [Document.differences]
  fun_cases steps e a with
  | case1 e a =>
    rw [differences, memberDifferences_eq ⟨e, he⟩ ⟨a, ha⟩, List.flatMap_map]
    rfl
  | case2 e a =>
    rw [differences, itemDifferences_eq, List.flatMap_map]
    simp only [Nat.zero_add]
    rfl
  | case3 _ _ hobjects harrays =>
    have hflat : Flat e a := ⟨hobjects, harrays⟩
    rw [differences_of_flat hflat, outer_of_flat hflat, List.flatMap_nil, List.append_nil]

end RobotDesk.Json
