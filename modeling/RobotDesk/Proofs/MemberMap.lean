import RobotDesk.Json.Document

/-!
The members of an object as a map.

What is found under a key after some members were put over others is the value of the former, or
else of the latter.  Sorted members have one value for each of their keys, and the keys of two
objects together have one sorted list.
-/
namespace RobotDesk

namespace Entries

theorem get?_insert_of_ne {key k : String} (h : k ≠ key) (v : Json) (ms : Entries) :
    get? k (insert key v ms) = get? k ms := by
  induction ms with
  | nil => simp [insert, get?, h]
  | cons m ms ih =>
    rw [insert]
    by_cases hlt : key < m.1
    · simp [hlt, get?, h]
    · by_cases heq : key = m.1
      · subst heq
        simp [get?, h]
      · simp [hlt, heq, get?, ih]

theorem get?_eq_none_of_not_mem {k : String} {ms : Entries} (h : k ∉ ms.map Prod.fst) :
    get? k ms = none := by
  induction ms with
  | nil => rfl
  | cons m ms ih =>
    rw [List.map_cons, List.mem_cons, not_or] at h
    simp [get?, h.1, ih h.2]

/-- Members that are put over others have their own values, and the others show where they have
none. -/
theorem get?_insertAll {extra : Entries} (h : (extra.map Prod.fst).Nodup) (base : Entries)
    (k : String) : get? k (insertAll extra base) = (get? k extra).or (get? k base) := by
  induction extra generalizing base with
  | nil => rfl
  | cons m extra ih =>
    obtain ⟨key, v⟩ := m
    rw [List.map_cons, List.nodup_cons] at h
    have hmore : get? k (insertAll ((key, v) :: extra) base) =
        (get? k extra).or (get? k (insert key v base)) := ih h.2 (insert key v base)
    rw [hmore]
    by_cases hk : k = key
    · subst hk
      simp [get?, get?_insert_self, get?_eq_none_of_not_mem h.1]
    · simp [get?, get?_insert_of_ne hk, hk]

theorem insertAll_sorted (extra : Entries) {base : Entries}
    (h : (base.map Prod.fst).Pairwise (· < ·)) :
    ((insertAll extra base).map Prod.fst).Pairwise (· < ·) := by
  induction extra generalizing base with
  | nil => exact h
  | cons m extra ih => exact ih (insert_sorted m.1 m.2 h)

theorem isSome_get?_iff (k : String) (ms : Entries) :
    (get? k ms).isSome = true ↔ k ∈ ms.map Prod.fst := by
  induction ms with
  | nil => simp
  | cons m ms ih =>
    by_cases hk : k = m.1
    · simp [get?, hk]
    · simp [get?, hk, ih]

theorem mem_keys_insert (key : String) (v : Json) (ms : Entries) (k : String) :
    k ∈ (insert key v ms).map Prod.fst ↔ k = key ∨ k ∈ ms.map Prod.fst := by
  rw [← isSome_get?_iff, ← isSome_get?_iff]
  by_cases hk : k = key
  · subst hk
    simp [get?_insert_self]
  · simp [get?_insert_of_ne hk, hk]

theorem mem_of_get? {k : String} {v : Json} {ms : Entries} (h : get? k ms = some v) :
    (k, v) ∈ ms := by
  induction ms with
  | nil => cases h
  | cons m ms ih =>
    rw [get?] at h
    split at h
    · rename_i hk
      cases h
      subst hk
      exact List.mem_cons_self
    · exact List.mem_cons_of_mem m (ih h)

theorem get?_of_mem {ms : Entries} (h : (ms.map Prod.fst).Nodup) {k : String} {v : Json}
    (hmem : (k, v) ∈ ms) : get? k ms = some v := by
  induction ms with
  | nil => cases hmem
  | cons m ms ih =>
    rw [List.map_cons, List.nodup_cons] at h
    rcases List.mem_cons.mp hmem with rfl | hmem
    · simp [get?]
    · have hne : k ≠ m.1 := by
        rintro rfl
        exact h.1 (List.mem_map.mpr ⟨_, hmem, rfl⟩)
      simp [get?, hne, ih h.2 hmem]

theorem get?_cons_of_ne {key k : String} (h : k ≠ key) (v : Json) (ms : Entries) :
    get? k ((key, v) :: ms) = get? k ms := by
  simp [get?, h]

theorem get?_cons_self (key : String) (v : Json) (ms : Entries) :
    get? key ((key, v) :: ms) = some v := by
  simp [get?]

theorem get?_eq_none_of_lt {k : String} {ms : Entries} (h : ∀ m ∈ ms, k < m.1) :
    get? k ms = none := by
  apply get?_eq_none_of_not_mem
  intro hk
  obtain ⟨m, hm, rfl⟩ := List.mem_map.mp hk
  exact String.lt_irrefl _ (h m hm)

theorem insert_first {key : String} {ms : Entries} (h : ∀ m ∈ ms, key < m.1) (v : Json) :
    insert key v ms = (key, v) :: ms := by
  cases ms with
  | nil => rfl
  | cons m ms => rw [insert, if_pos (h m List.mem_cons_self)]

theorem nodup_of_sorted {keys : List String} (h : keys.Pairwise (· < ·)) : keys.Nodup := by
  apply h.imp
  rintro k l hlt rfl
  exact String.lt_irrefl k hlt

/-- A member with a smaller key than those put in stays in front of them. -/
theorem insertAll_cons_of_lt {key : String} {extra : Entries} (h : ∀ m ∈ extra, key < m.1)
    (v : Json) (base : Entries) :
    insertAll extra ((key, v) :: base) = (key, v) :: insertAll extra base := by
  induction extra generalizing base with
  | nil => rfl
  | cons m extra ih =>
    have hlt : key < m.1 := h m List.mem_cons_self
    have hne : m.1 ≠ key := by
      rintro rfl
      exact String.lt_irrefl _ hlt
    have hstep : insert m.1 m.2 ((key, v) :: base) = (key, v) :: insert m.1 m.2 base := by
      rw [insert, if_neg (String.lt_asymm hlt), if_neg hne]
    have hmore := ih (fun n hn => h n (List.mem_cons_of_mem m hn)) (insert m.1 m.2 base)
    rw [← hstep] at hmore
    exact hmore

/-- The keys that at least one of two objects has, in their order. -/
def unionKeys (e a : Entries) : List String := (insertAll a e).map Prod.fst

theorem mem_unionKeys (e a : Entries) (k : String) :
    k ∈ unionKeys e a ↔ k ∈ e.map Prod.fst ∨ k ∈ a.map Prod.fst := by
  induction a generalizing e with
  | nil => simp [unionKeys, insertAll]
  | cons m a ih =>
    have hstep : unionKeys e (m :: a) = unionKeys (insert m.1 m.2 e) a := rfl
    rw [hstep, ih, mem_keys_insert, List.map_cons, List.mem_cons]
    simp only [or_assoc, or_left_comm]

theorem eq_nil_of_insertAll {ms : Entries} (h : insertAll ms [] = []) : ms = [] := by
  cases ms with
  | nil => rfl
  | cons m ms =>
    have hkey : m.1 ∈ unionKeys [] (m :: ms) :=
      (mem_unionKeys [] (m :: ms) m.1).mpr (.inr List.mem_cons_self)
    rw [unionKeys, h] at hkey
    cases hkey

theorem get?_eq_none_of_not_union {e a : Entries} {k : String} (h : k ∉ unionKeys e a) :
    get? k e = none ∧ get? k a = none := by
  rw [mem_unionKeys, not_or] at h
  exact ⟨get?_eq_none_of_not_mem h.1, get?_eq_none_of_not_mem h.2⟩

theorem unionKeys_sorted {e : Entries} (he : (e.map Prod.fst).Pairwise (· < ·)) (a : Entries) :
    (unionKeys e a).Pairwise (· < ·) :=
  insertAll_sorted a he

section Union

variable {k : String} {e a : Entries}

theorem unionKeys_cons_left (ha : ∀ m ∈ a, k < m.1) (v : Json) :
    unionKeys ((k, v) :: e) a = k :: unionKeys e a := by
  rw [unionKeys, insertAll_cons_of_lt ha]
  rfl

theorem unionKeys_cons_right (he : ∀ m ∈ e, k < m.1) (ha : ∀ m ∈ a, k < m.1) (w : Json) :
    unionKeys e ((k, w) :: a) = k :: unionKeys e a := by
  have hstep : insertAll ((k, w) :: a) e = insertAll a (insert k w e) := rfl
  rw [unionKeys, hstep, insert_first he, insertAll_cons_of_lt ha]
  rfl

theorem unionKeys_cons_both (ha : ∀ m ∈ a, k < m.1) (v w : Json) :
    unionKeys ((k, v) :: e) ((k, w) :: a) = k :: unionKeys e a := by
  have hstep : insertAll ((k, w) :: a) ((k, v) :: e) = insertAll a ((k, w) :: e) := by
    simp [insertAll, insert]
  rw [unionKeys, hstep, insertAll_cons_of_lt ha]
  rfl

/-- The keys behind the smallest one are other keys. -/
theorem ne_of_mem_unionKeys (he : ∀ m ∈ e, k < m.1) (ha : ∀ m ∈ a, k < m.1) {l : String}
    (hl : l ∈ unionKeys e a) : l ≠ k := by
  rintro rfl
  rcases (mem_unionKeys e a l).mp hl with hl | hl
  · obtain ⟨m, hm, rfl⟩ := List.mem_map.mp hl
    exact String.lt_irrefl _ (he m hm)
  · obtain ⟨m, hm, rfl⟩ := List.mem_map.mp hl
    exact String.lt_irrefl _ (ha m hm)

end Union

theorem first_lt {m : String × Json} {ms : Entries}
    (h : ((m :: ms).map Prod.fst).Pairwise (· < ·)) : ∀ n ∈ ms, m.1 < n.1 :=
  fun n hn => (List.pairwise_cons.mp h).1 n.1 (List.mem_map_of_mem hn)

theorem lt_all_of_lt_first {k : String} {m : String × Json} {ms : Entries} (hk : k < m.1)
    (h : ((m :: ms).map Prod.fst).Pairwise (· < ·)) : ∀ n ∈ m :: ms, k < n.1 := by
  intro n hn
  rcases List.mem_cons.mp hn with rfl | hn
  · exact hk
  · exact String.lt_trans hk (first_lt h n hn)

/-- Two maps are taken apart from their smallest keys on. -/
theorem merge_induction {motive : Entries → Entries → Prop} (nil : motive [] [])
    (left : ∀ k v e a, (∀ m ∈ e, k < m.1) → (∀ m ∈ a, k < m.1) → motive e a →
      motive ((k, v) :: e) a)
    (right : ∀ k w e a, (∀ m ∈ e, k < m.1) → (∀ m ∈ a, k < m.1) → motive e a →
      motive e ((k, w) :: a))
    (both : ∀ k v w e a, (∀ m ∈ e, k < m.1) → (∀ m ∈ a, k < m.1) → motive e a →
      motive ((k, v) :: e) ((k, w) :: a))
    {e a : Entries} (he : (e.map Prod.fst).Pairwise (· < ·))
    (ha : (a.map Prod.fst).Pairwise (· < ·)) : motive e a := by
  induction e generalizing a with
  | nil =>
    induction a with
    | nil => exact nil
    | cons n a ih =>
      exact right n.1 n.2 [] a (by simp) (first_lt ha) (ih (List.pairwise_cons.mp ha).2)
  | cons m e ihe =>
    have hmore := (List.pairwise_cons.mp he).2
    induction a with
    | nil => exact left m.1 m.2 e [] (first_lt he) (by simp) (ihe hmore ha)
    | cons n a iha =>
      have hmore' := (List.pairwise_cons.mp ha).2
      by_cases hlt : m.1 < n.1
      · exact left m.1 m.2 e (n :: a) (first_lt he) (lt_all_of_lt_first hlt ha) (ihe hmore ha)
      · by_cases heq : m.1 = n.1
        · obtain ⟨k, v⟩ := m
          obtain ⟨l, w⟩ := n
          obtain rfl : k = l := heq
          exact both k v w e a (first_lt he) (first_lt ha) (ihe hmore hmore')
        · have hgt : n.1 < m.1 := Std.lt_of_le_of_ne (String.not_lt.mp hlt) (Ne.symm heq)
          exact right n.1 n.2 (m :: e) a (lt_all_of_lt_first hgt he) (first_lt ha) (iha hmore')

end Entries

namespace Members

open Entries

/-- A member is found under its key. -/
theorem mem_iff_get? (ms : Members) (k : String) (v : Json) :
    (k, v) ∈ ms.entries ↔ ms.get? k = some v :=
  ⟨get?_of_mem (nodup_of_sorted ms.sorted), mem_of_get?⟩

theorem get?_overlay (extra base : Members) (k : String) :
    (extra.overlay base).get? k = (extra.get? k).or (base.get? k) :=
  get?_insertAll (nodup_of_sorted extra.sorted) base.entries k

theorem get?_insert (key k : String) (d : Document) (ms : Members) :
    (ms.insert key d).get? k = if k = key then some d.value else ms.get? k := by
  by_cases hk : k = key
  · rw [if_pos hk, hk]
    exact get?_insert_self ..
  · rw [if_neg hk]
    exact get?_insert_of_ne hk ..

/-- The value is the last that is listed under the key. -/
def IsLast (pairs : List (String × Document)) (k : String) (d : Document) : Prop :=
  ∃ earlier later, pairs = earlier ++ (k, d) :: later ∧ ∀ m ∈ later, m.1 ≠ k

theorem isLast_cons {m : String × Document} {pairs : List (String × Document)} {k : String}
    {d : Document} :
    IsLast (m :: pairs) k d ↔ IsLast pairs k d ∨ m = (k, d) ∧ k ∉ pairs.map Prod.fst := by
  constructor
  · rintro ⟨earlier, later, hpairs, hlater⟩
    cases earlier with
    | nil =>
      obtain ⟨rfl, rfl⟩ := List.cons.inj hpairs
      refine .inr ⟨rfl, fun hk => ?_⟩
      obtain ⟨n, hn, heq⟩ := List.mem_map.mp hk
      exact hlater n hn heq
    | cons n earlier => exact .inl ⟨earlier, later, (List.cons.inj hpairs).2, hlater⟩
  · rintro (⟨earlier, later, rfl, hlater⟩ | ⟨rfl, hk⟩)
    · exact ⟨m :: earlier, later, rfl, hlater⟩
    · exact ⟨[], pairs, rfl, fun n hn heq => hk (List.mem_map.mpr ⟨n, hn, heq⟩)⟩

/-- Of the values that are put in under one key, the last one counts. -/
theorem get?_insertAll_eq_some_iff (pairs : List (String × Document)) (base : Members) (k : String)
    (d : Document) :
    (insertAll pairs base).get? k = some d.value ↔
      IsLast pairs k d ∨ k ∉ pairs.map Prod.fst ∧ base.get? k = some d.value := by
  induction pairs generalizing base with
  | nil => simp [insertAll, IsLast]
  | cons m pairs ih =>
    rw [insertAll, ih, isLast_cons, get?_insert]
    by_cases hk : k = m.1
    · rw [if_pos hk, Option.some.injEq, ← Document.ext_iff]
      grind
    · rw [if_neg hk]
      grind

theorem mem_ofPairs_iff (pairs : List (String × Document)) (k : String) (d : Document) :
    (k, d.value) ∈ (ofPairs pairs).entries ↔ IsLast pairs k d := by
  have hnone : empty.get? k = none := rfl
  rw [mem_iff_get?, ofPairs, get?_insertAll_eq_some_iff, hnone]
  simp

theorem eq_nil_of_ofPairs {pairs : List (String × Document)} (h : ofPairs pairs = empty) :
    pairs = [] := by
  have hentries := congrArg entries h
  rw [ofPairs, entries_insertAll] at hentries
  exact List.map_eq_nil_iff.mp (eq_nil_of_insertAll hentries)

/-- Which of two objects comes first does not matter for their keys. -/
theorem unionKeys_comm (e a : Members) :
    unionKeys a.entries e.entries = unionKeys e.entries a.entries := by
  have hsorted := unionKeys_sorted e.sorted a.entries
  have hsorted' := unionKeys_sorted a.sorted e.entries
  refine List.Perm.eq_of_pairwise (fun k l _ _ hlt hgt => ?_) hsorted' hsorted ?_
  · exact absurd hgt (String.lt_asymm hlt)
  · rw [List.perm_ext_iff_of_nodup (nodup_of_sorted hsorted') (nodup_of_sorted hsorted)]
    intro k
    rw [mem_unionKeys, mem_unionKeys]
    exact Or.comm

end Members
end RobotDesk
