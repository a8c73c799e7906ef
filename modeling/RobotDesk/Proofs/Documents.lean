import RobotDesk.Json.Difference
import RobotDesk.Proofs.MemberMap
import RobotDesk.Proofs.Magnitude

/-!
The insides of JSON documents, and their agreement.

A document is entered step by step, to the member with a key or to the item at a position.  Two
documents agree if they are equal as JSON: objects as maps, arrays item by item, and an integer
never with a real.
-/
namespace RobotDesk.Json

section Steps

/-- What one step into a value leads to. -/
def child? (s : Step) (v : Json) : Option Json :=
  match s, v with
  | .key k, .object ms => Entries.get? k ms
  | .index i, .array vs => vs[i]?
  | _, _ => none

@[simp] theorem child?_key_object (k : String) (ms : Entries) :
    child? (.key k) (.object ms) = Entries.get? k ms := rfl

@[simp] theorem child?_index_array (i : Nat) (vs : List Json) :
    child? (.index i) (.array vs) = vs[i]? := rfl

theorem exists_object_of_child {v w : Json} {k : String} (h : child? (.key k) v = some w) :
    ∃ ms, v = .object ms ∧ Entries.get? k ms = some w := by
  cases v with
  | object ms => exact ⟨ms, rfl, h⟩
  | _ => cases h

theorem exists_array_of_child {v w : Json} {i : Nat} (h : child? (.index i) v = some w) :
    ∃ vs, v = .array vs ∧ vs[i]? = some w := by
  cases v with
  | array vs => exact ⟨vs, rfl, h⟩
  | _ => cases h

/-- What a path into a value leads to. -/
def at? : List Step → Json → Option Json
  | [], v => some v
  | s :: path, v => (child? s v).bind (at? path)

theorem at?_cons (s : Step) (path : List Step) (v : Json) :
    at? (s :: path) v = (child? s v).bind (at? path) := rfl

/-- A step leads from a document into a document. -/
theorem Ordered.child {v w : Json} (h : Ordered v) {s : Step} (hw : child? s v = some w) :
    Ordered w := by
  cases s with
  | key k =>
    obtain ⟨ms, rfl, hget⟩ := exists_object_of_child hw
    cases h with
    | object sorted members => exact members (k, w) (Entries.mem_of_get? hget)
  | index i =>
    obtain ⟨vs, rfl, hget⟩ := exists_array_of_child hw
    cases h with
    | array items => exact items w (List.mem_of_getElem? hget)

/-- What holds of a document whenever it holds of all that one step leads to holds of all
documents. -/
theorem step_induction {motive : Document → Prop}
    (step : ∀ d, (∀ s w (h : child? s d.value = some w), motive ⟨w, d.ordered.child h⟩) → motive d)
    (d : Document) : motive d := by
  obtain ⟨v, ordered⟩ := d
  induction ordered with
  | null => exact step .null (by rintro ⟨⟩ w ⟨⟩)
  | bool b => exact step (.bool b) (by rintro ⟨⟩ w ⟨⟩)
  | number n => exact step (.number n) (by rintro ⟨⟩ w ⟨⟩)
  | string s => exact step (.string s) (by rintro ⟨⟩ w ⟨⟩)
  | array items ih =>
    refine step ⟨_, .array items⟩ fun s w hw => ?_
    cases s with
    | key k => cases hw
    | index i => exact ih w (List.mem_of_getElem? hw)
  | object sorted members ih =>
    refine step ⟨_, .object sorted members⟩ fun s w hw => ?_
    cases s with
    | key k => exact ih (k, w) (Entries.mem_of_get? hw)
    | index i => cases hw

end Steps

section Parts

mutual

/-- A value and all values inside it. -/
def parts : Json → List Json
  | .array vs => .array vs :: partsOfItems vs
  | .object ms => .object ms :: partsOfMembers ms
  | v => [v]

def partsOfItems : List Json → List Json
  | [] => []
  | v :: vs => parts v ++ partsOfItems vs

def partsOfMembers : List (String × Json) → List Json
  | [] => []
  | (_, v) :: ms => parts v ++ partsOfMembers ms

end

theorem self_mem_parts (v : Json) : v ∈ v.parts := by
  cases v <;> simp [parts]

theorem parts_of_item {vs : List Json} {v : Json} (h : v ∈ vs) :
    v.parts ⊆ (Json.array vs).parts := by
  have hitems : partsOfItems vs = vs.flatMap parts := by
    clear h
    induction vs with
    | nil => rfl
    | cons v vs ih => rw [partsOfItems, ih, List.flatMap_cons]
  intro x hx
  rw [parts, hitems]
  exact List.mem_cons_of_mem _ (List.mem_flatMap.mpr ⟨v, h, hx⟩)

theorem parts_of_member {ms : Entries} {m : String × Json} (h : m ∈ ms) :
    m.2.parts ⊆ (Json.object ms).parts := by
  have hmembers : partsOfMembers ms = ms.flatMap (·.2.parts) := by
    clear h
    induction ms with
    | nil => rfl
    | cons m ms ih => rw [partsOfMembers, ih, List.flatMap_cons]
  intro x hx
  rw [parts, hmembers]
  exact List.mem_cons_of_mem _ (List.mem_flatMap.mpr ⟨m, h, hx⟩)

/-- What a step leads to has no parts but those of the whole. -/
theorem parts_of_child {v w : Json} {s : Step} (h : child? s v = some w) : w.parts ⊆ v.parts := by
  cases s with
  | key k =>
    obtain ⟨ms, rfl, hget⟩ := exists_object_of_child h
    exact parts_of_member (Entries.mem_of_get? hget)
  | index i =>
    obtain ⟨vs, rfl, hget⟩ := exists_array_of_child h
    exact parts_of_item (List.mem_of_getElem? hget)

end Parts

section Agreement

/-- Two values that are equal as JSON. -/
inductive Agree : Json → Json → Prop where
  | null : Agree .null .null
  | bool (b : Bool) : Agree (.bool b) (.bool b)
  | int (n : Int) : Agree (.number (.int n)) (.number (.int n))
  | real {x y : Number.Binary64} (value : x.value = y.value) :
      Agree (.number (.real x)) (.number (.real y))
  | string (s : String) : Agree (.string s) (.string s)
  | array {e a : List Json} (length : e.length = a.length)
      (items : ∀ (i : Nat) v w, e[i]? = some v → a[i]? = some w → Agree v w) :
      Agree (.array e) (.array a)
  | object {e a : Entries}
      (keys : ∀ k, (Entries.get? k e).isSome = (Entries.get? k a).isSome)
      (values : ∀ k v w, Entries.get? k e = some v → Entries.get? k a = some w → Agree v w) :
      Agree (.object e) (.object a)

theorem Agree.symm {e a : Json} (h : Agree e a) : Agree a e := by
  induction h with
  | null => exact .null
  | bool b => exact .bool b
  | int n => exact .int n
  | real value => exact .real value.symm
  | string s => exact .string s
  | array length _ ih => exact .array length.symm fun i v w hv hw => ih i w v hw hv
  | object keys _ ih => exact .object (fun k => (keys k).symm) fun k v w hv hw => ih k w v hw hv

theorem Agree.kind_eq {e a : Json} (h : Agree e a) : e.kind = a.kind := by
  cases h <;> rfl

theorem agree_number_iff (m n : Numeral) : Agree (.number m) (.number n) ↔ m.same n = true := by
  constructor
  · intro h
    cases h with
    | int n => simp [Numeral.same]
    | real value => exact (Number.Binary64.same_iff_value _ _).mpr value
  · intro h
    cases m with
    | int m =>
      cases n with
      | int n =>
        obtain rfl : m = n := by simpa [Numeral.same] using h
        exact .int m
      | real y => cases h
    | real x =>
      cases n with
      | int n => cases h
      | real y => exact .real ((Number.Binary64.same_iff_value x y).mp h)

/-- Values of which at most one is an array and at most one is an object are compared at once. -/
structure Flat (e a : Json) : Prop where
  objects : ∀ ms ns, e = .object ms → a = .object ns → False
  arrays : ∀ vs ws, e = .array vs → a = .array ws → False

theorem Flat.symm {e a : Json} (h : Flat e a) : Flat a e :=
  ⟨fun ms ns ha he => h.objects ns ms he ha, fun vs ws ha he => h.arrays ws vs he ha⟩

theorem Flat.same_iff_agree {e a : Json} (h : Flat e a) : e.same a = true ↔ Agree e a := by
  constructor
  · intro hsame
    cases e <;> cases a
    case null.null => exact .null
    case bool.bool b c =>
      obtain rfl : b = c := by simpa [same] using hsame
      exact .bool b
    case number.number m n => exact (agree_number_iff m n).mpr hsame
    case string.string s t =>
      obtain rfl : s = t := by simpa [same] using hsame
      exact .string s
    case array.array vs ws => exact (h.arrays vs ws rfl rfl).elim
    case object.object ms ns => exact (h.objects ms ns rfl rfl).elim
    all_goals cases hsame
  · intro hagree
    cases hagree with
    | null => rfl
    | bool b => simp [same]
    | int n => exact (agree_number_iff _ _).mp (.int n)
    | real value => exact (agree_number_iff _ _).mp (.real value)
    | string s => simp [same]
    | array => exact (h.arrays _ _ rfl rfl).elim
    | object => exact (h.objects _ _ rfl rfl).elim

end Agreement

end RobotDesk.Json
