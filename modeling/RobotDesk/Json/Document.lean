import RobotDesk.Json.Basic

/-!
JSON documents.

In a document the members of every object are sorted by their keys, by code point, so that an object
is a map.  A document carries this with it, and so do the members of an object in one.  Members are
put in one by one, each where its key belongs; of two values of a key the last one stays.
-/
namespace RobotDesk

namespace Entries

theorem eq_or_mem_of_mem_insert {key : String} {v : Json} {ms : Entries} {m : String × Json}
    (h : m ∈ ms.insert key v) : m = (key, v) ∨ m ∈ ms := by
  induction ms with
  | nil => exact .inl (List.mem_singleton.mp h)
  | cons n ms ih =>
    rw [insert] at h
    split at h
    · exact List.mem_cons.mp h
    · split at h
      · rcases List.mem_cons.mp h with rfl | h
        · exact .inl rfl
        · exact .inr (List.mem_cons_of_mem _ h)
      · rcases List.mem_cons.mp h with rfl | h
        · exact .inr List.mem_cons_self
        · exact (ih h).imp id (List.mem_cons_of_mem _)

/-- A member that is put in goes where its key belongs. -/
theorem insert_sorted (key : String) (v : Json) {ms : Entries}
    (h : (ms.map Prod.fst).Pairwise (· < ·)) :
    ((ms.insert key v).map Prod.fst).Pairwise (· < ·) := by
  induction ms with
  | nil => exact List.pairwise_singleton _ key
  | cons n ms ih =>
    have hsorted := h
    rw [List.map_cons, List.pairwise_cons] at h
    obtain ⟨hfirst, hmore⟩ := h
    rw [insert]
    split
    · rename_i hlt
      refine List.pairwise_cons.mpr ⟨fun k hk => ?_, hsorted⟩
      rcases List.mem_cons.mp hk with rfl | hk
      · exact hlt
      · exact String.lt_trans hlt (hfirst k hk)
    · rename_i hnot
      split
      · rename_i heq
        subst heq
        exact List.pairwise_cons.mpr ⟨hfirst, hmore⟩
      · rename_i hne
        refine List.pairwise_cons.mpr ⟨fun k hk => ?_, ih hmore⟩
        obtain ⟨m, hm, rfl⟩ := List.mem_map.mp hk
        rcases eq_or_mem_of_mem_insert hm with rfl | hm
        · exact Std.lt_of_le_of_ne (String.not_lt.mp hnot) (Ne.symm hne)
        · exact hfirst m.1 (List.mem_map_of_mem hm)

end Entries

namespace Json

/-- A value in which the keys of every object are sorted. -/
inductive Ordered : Json → Prop where
  | null : Ordered .null
  | bool (b : Bool) : Ordered (.bool b)
  | number (n : Numeral) : Ordered (.number n)
  | string (s : String) : Ordered (.string s)
  | array {vs : List Json} (items : ∀ v ∈ vs, Ordered v) : Ordered (.array vs)
  | object {ms : Entries} (sorted : (ms.map Prod.fst).Pairwise (· < ·))
      (members : ∀ m ∈ ms, Ordered m.2) : Ordered (.object ms)

theorem ordered_empty : Ordered (.object []) :=
  .object List.Pairwise.nil fun _ hm => absurd hm List.not_mem_nil

theorem Ordered.insert {ms : Entries} (h : Ordered (.object ms)) (key : String) {v : Json}
    (hv : Ordered v) : Ordered (.object (ms.insert key v)) := by
  cases h with
  | object sorted members =>
    refine .object (Entries.insert_sorted key v sorted) fun m hm => ?_
    rcases Entries.eq_or_mem_of_mem_insert hm with rfl | hm
    · exact hv
    · exact members m hm

theorem Ordered.insertAll {extra base : Entries} (h : ∀ m ∈ extra, Ordered m.2)
    (hbase : Ordered (.object base)) : Ordered (.object (extra.insertAll base)) := by
  induction extra generalizing base with
  | nil => exact hbase
  | cons m extra ih =>
    exact ih (fun n hn => h n (List.mem_cons_of_mem m hn))
      (hbase.insert m.1 (h m List.mem_cons_self))

mutual

/-- Decides whether the keys of every object are sorted. -/
def isOrdered : Json → Bool
  | .null | .bool _ | .number _ | .string _ => true
  | .array vs => itemsOrdered vs
  | .object ms => decide ((ms.map Prod.fst).Pairwise (· < ·)) && entriesOrdered ms

def itemsOrdered : List Json → Bool
  | [] => true
  | v :: vs => isOrdered v && itemsOrdered vs

def entriesOrdered : List (String × Json) → Bool
  | [] => true
  | (_, v) :: ms => isOrdered v && entriesOrdered ms

end

mutual

theorem isOrdered_iff : (v : Json) → (isOrdered v = true ↔ Ordered v)
  | .null => ⟨fun _ => .null, fun _ => rfl⟩
  | .bool b => ⟨fun _ => .bool b, fun _ => rfl⟩
  | .number n => ⟨fun _ => .number n, fun _ => rfl⟩
  | .string s => ⟨fun _ => .string s, fun _ => rfl⟩
  | .array vs => by
    rw [isOrdered, itemsOrdered_iff vs]
    exact ⟨.array, fun | .array items => items⟩
  | .object ms => by
    rw [isOrdered, Bool.and_eq_true, decide_eq_true_iff, entriesOrdered_iff ms]
    exact ⟨fun h => .object h.1 h.2, fun | .object sorted members => ⟨sorted, members⟩⟩

theorem itemsOrdered_iff : (vs : List Json) → (itemsOrdered vs = true ↔ ∀ v ∈ vs, Ordered v)
  | [] => by simp [itemsOrdered]
  | v :: vs => by
    rw [itemsOrdered, Bool.and_eq_true, isOrdered_iff v, itemsOrdered_iff vs,
      List.forall_mem_cons]

theorem entriesOrdered_iff : (ms : List (String × Json)) →
    (entriesOrdered ms = true ↔ ∀ m ∈ ms, Ordered m.2)
  | [] => by simp [entriesOrdered]
  | (key, v) :: ms => by
    rw [entriesOrdered, Bool.and_eq_true, isOrdered_iff v, entriesOrdered_iff ms,
      List.forall_mem_cons]

end

instance (v : Json) : Decidable (Ordered v) := decidable_of_iff _ (isOrdered_iff v)

end Json

/-- A value whose objects are maps. -/
@[ext] structure Document where
  value : Json
  ordered : value.Ordered
deriving Repr

/-- The members of an object that is a map. -/
@[ext] structure Members where
  entries : Entries
  ordered : (Json.object entries).Ordered
deriving Repr

namespace Members

def empty : Members := ⟨[], Json.ordered_empty⟩

instance : Inhabited Members := ⟨empty⟩

def toJson (ms : Members) : Json := .object ms.entries

theorem sorted (ms : Members) : (ms.entries.map Prod.fst).Pairwise (· < ·) := by
  cases ms.ordered with
  | object sorted members => exact sorted

theorem ordered_of_mem {ms : Members} {m : String × Json} (h : m ∈ ms.entries) : m.2.Ordered := by
  cases ms.ordered with
  | object sorted members => exact members m h

/-- Puts a value under a key; a value that the key had before is gone. -/
def insert (key : String) (v : Document) (ms : Members) : Members :=
  ⟨ms.entries.insert key v.value, ms.ordered.insert key v.ordered⟩

/-- The members of one object put over those of another. -/
def overlay (extra base : Members) : Members where
  entries := extra.entries.insertAll base.entries
  ordered := .insertAll (fun _ => ordered_of_mem) base.ordered

/-- Puts values under keys, one after the other. -/
def insertAll : List (String × Document) → Members → Members
  | [], ms => ms
  | (key, v) :: pairs, ms => insertAll pairs (ms.insert key v)

/-- The last value of each key. -/
def ofPairs (pairs : List (String × Document)) : Members := insertAll pairs empty

def get? (key : String) (ms : Members) : Option Json := ms.entries.get? key

@[simp] theorem entries_insert (key : String) (v : Document) (ms : Members) :
    (ms.insert key v).entries = ms.entries.insert key v.value := rfl

theorem entries_insertAll (pairs : List (String × Document)) (ms : Members) :
    (insertAll pairs ms).entries =
      Entries.insertAll (pairs.map fun m => (m.1, m.2.value)) ms.entries := by
  induction pairs generalizing ms with
  | nil => rfl
  | cons m pairs ih => exact ih (ms.insert m.1 m.2)

end Members

/-- The items of an array in a document are documents. -/
theorem Json.Ordered.items {vs : List Json} (h : Ordered (.array vs)) :
    ∃ ds : List Document, vs = ds.map Document.value := by
  cases h with
  | array items => exact ⟨vs.pmap Document.mk items, by simp [List.map_pmap]⟩

namespace Document

def null : Document := ⟨.null, .null⟩

def bool (b : Bool) : Document := ⟨.bool b, .bool b⟩

def number (n : Numeral) : Document := ⟨.number n, .number n⟩

def nat (n : Nat) : Document := number (.int n)

def string (s : String) : Document := ⟨.string s, .string s⟩

def array (items : List Document) : Document where
  value := .array (items.map value)
  ordered := .array fun v hv => by
    obtain ⟨d, -, rfl⟩ := List.mem_map.mp hv
    exact d.ordered

def object (ms : Members) : Document := ⟨ms.toJson, ms.ordered⟩

/-- The members of a document that is an object. -/
def members? : Document → Option Members
  | ⟨.object ms, ordered⟩ => some ⟨ms, ordered⟩
  | _ => none

theorem members?_eq_some_iff {d : Document} {ms : Members} :
    d.members? = some ms ↔ d = .object ms := by
  obtain ⟨v, ordered⟩ := d
  cases v with
  | object entries => simp [members?, object, Members.toJson, Members.ext_iff]
  | _ => simp [members?, object, Members.toJson]

end Document
end RobotDesk
