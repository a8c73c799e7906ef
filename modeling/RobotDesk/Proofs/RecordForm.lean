import RobotDesk.Proofs.NormalForm

/-!
Records are written in normal form.

A record is read from an object, which may leave fields out and bring others, or from an array.  In
either case each field has a value that was read, or the one it has in a blank record and need not
be given.  Written, the fields come in their order, and one that is omitted has the value of a blank
record.
-/
namespace RobotDesk.Json

open Text

/-- A field of a record, with what it takes for its record to be written in normal form. -/
structure Slot {σ : Type} (blank : σ) (need : Nat) where
  {α : Type}
  name : String
  presence : Presence
  codec : Codec α
  get : σ → α
  set : α → σ → σ
  /-- The members that are written for the field: one or none. -/
  members : σ → Entries
  get_set : ∀ v s, get (set v s) = v
  normal : codec.Normal need
  missing : presence ≠ .required → ∀ depth, need ≤ depth → codec.Rereads depth (get blank)
  written : ∀ s, members s = [(name, codec.toJson (get s))] ∨
    members s = [] ∧ presence ≠ .required ∧ get s = get blank

namespace Slot

variable {σ α : Type} {blank : σ} {need : Nat}

/-- A field that has to be given. -/
@[simp] def required (name : String) (c : Codec α) (get : σ → α) (set : α → σ → σ)
    (normal : c.Normal need) (get_set : ∀ v s, get (set v s) = v := by intros; rfl) :
    Slot blank need where
  name := name
  presence := .required
  codec := c
  get := get
  set := set
  members s := [(name, c.toJson (get s))]
  get_set := get_set
  normal := normal
  missing := fun h => absurd rfl h
  written := fun _ => .inl rfl

/-- A field that is written even if it was not given. -/
@[simp] def defaulted (name : String) (c : Codec α) (get : σ → α) (set : α → σ → σ)
    (normal : c.Normal need) (missing : ∀ depth, need ≤ depth → c.Rereads depth (get blank))
    (get_set : ∀ v s, get (set v s) = v := by intros; rfl) : Slot blank need where
  name := name
  presence := .defaulted
  codec := c
  get := get
  set := set
  members s := [(name, c.toJson (get s))]
  get_set := get_set
  normal := normal
  missing := fun _ => missing
  written := fun _ => .inl rfl

/-- A field that is written as null if it has no value. -/
@[simp] def nullable (name : String) (c : Codec α) (get : σ → Option α) (set : Option α → σ → σ)
    (normal : c.Normal need) (null : c.NeverNull) (none : get blank = none := by rfl)
    (get_set : ∀ v s, get (set v s) = v := by intros; rfl) : Slot blank need where
  name := name
  presence := .optional
  codec := .option c
  get := get
  set := set
  members s := [(name, (Codec.option c).toJson (get s))]
  get_set := get_set
  normal := normal.option null
  missing := fun _ depth _ => none ▸ Codec.option_none_rereads c depth
  written := fun _ => .inl rfl

/-- A field that is omitted if it has no value. -/
@[simp] def omittable (name : String) (c : Codec α) (get : σ → Option α) (set : Option α → σ → σ)
    (normal : c.Normal need) (null : c.NeverNull) (none : get blank = none := by rfl)
    (get_set : ∀ v s, get (set v s) = v := by intros; rfl) : Slot blank need where
  name := name
  presence := .defaulted
  codec := .option c
  get := get
  set := set
  members s := present? name c (get s)
  get_set := get_set
  normal := normal.option null
  missing := fun _ depth _ => none ▸ Codec.option_none_rereads c depth
  written := fun s => by
    cases h : get s with
    | none => exact .inr ⟨rfl, by decide, none.symm⟩
    | some v => exact .inl rfl

/-- The field as it is read. -/
def field (a : Slot blank need) : RecordField σ := .make a.presence a.name a.codec a.set

end Slot

section Records

variable {σ : Type} {blank : σ} {need depth : Nat}

/-- The fields of a record: each has its own name and its own place, and together they are all of
the record. -/
structure Lawful (slots : List (Slot blank need)) : Prop where
  distinct : (slots.map (·.name)).Nodup := by decide
  frame : ∀ a ∈ slots, ∀ b ∈ slots, a.name ≠ b.name → ∀ v s, a.get (b.set v s) = a.get s := by simp
  ext : ∀ s t, (∀ a ∈ slots, a.get s = a.get t) → s = t := by rintro ⟨⟩ ⟨⟩ h; simpa using h

variable {slots : List (Slot blank need)}

theorem Lawful.eq_of_name (h : Lawful slots) {a b : Slot blank need} (ha : a ∈ slots)
    (hb : b ∈ slots) (hname : a.name = b.name) : a = b := by
  have hdistinct := List.pairwise_map.mp h.distinct
  clear h
  induction slots with
  | nil => cases ha
  | cons c slots ih =>
    obtain ⟨hfirst, hmore⟩ := List.pairwise_cons.mp hdistinct
    rcases List.mem_cons.mp ha with rfl | ha'
    · rcases List.mem_cons.mp hb with rfl | hb'
      · rfl
      · exact absurd hname (hfirst b hb')
    · rcases List.mem_cons.mp hb with rfl | hb'
      · exact absurd hname.symm (hfirst a ha')
      · exact ih ha' hb' hmore

theorem Lawful.find?_name (h : Lawful slots) {b : Slot blank need} (hb : b ∈ slots) :
    (slots.map Slot.field).find? (·.name = b.name) = some b.field := by
  rw [List.find?_map]
  cases hfind : slots.find? ((fun f : RecordField σ => decide (f.name = b.name)) ∘ Slot.field) with
  | none =>
    have hnone := List.find?_eq_none.mp hfind b hb
    simp [Slot.field, RecordField.make] at hnone
  | some a =>
    have hname := List.find?_some hfind
    rw [h.eq_of_name (List.mem_of_find?_eq_some hfind) hb (of_decide_eq_true hname)]
    rfl

section Reading

/-- Every field of a record that is being read has a value that is read back, or is still open and
has the value of a blank record. -/
def Filled (slots : List (Slot blank need)) (depth : Nat) (isOpen : Slot blank need → Prop)
    (s : σ) : Prop :=
  ∀ a ∈ slots, a.codec.Rereads depth (a.get s) ∨ isOpen a ∧ a.get s = a.get blank

variable {isOpen isOpen' : Slot blank need → Prop} {s s' : σ} {g r : List Glyph}

theorem Filled.set (h : Lawful slots) (hs : Filled slots depth isOpen s) {b : Slot blank need}
    (hb : b ∈ slots) {v : b.α} (hv : b.codec.Rereads depth v)
    (hopen : ∀ a ∈ slots, a.name ≠ b.name → isOpen a → isOpen' a) :
    Filled slots depth isOpen' (b.set v s) := by
  intro a ha
  by_cases hname : a.name = b.name
  · obtain rfl := h.eq_of_name ha hb hname
    rw [a.get_set]
    exact .inl hv
  · rw [h.frame a ha b hb hname]
    exact (hs a ha).imp id fun ⟨hisOpen, hblank⟩ => ⟨hopen a ha hname hisOpen, hblank⟩

/-- In the end no field is open that has to be given. -/
theorem Filled.rereads (hs : Filled slots depth isOpen s) (hneed : need ≤ depth)
    (hopen : ∀ a ∈ slots, isOpen a → a.presence ≠ .required) :
    ∀ a ∈ slots, a.codec.Rereads depth (a.get s) := by
  intro a ha
  rcases hs a ha with hread | ⟨hisOpen, hblank⟩
  · exact hread
  · rw [hblank]
    exact a.missing (hopen a ha hisOpen) depth hneed

theorem filled_blank (hopen : ∀ a ∈ slots, isOpen a) : Filled slots depth isOpen blank :=
  fun a ha => .inr ⟨hopen a ha, rfl⟩

theorem Slot.rereads_of_read (b : Slot blank need) (hneed : need ≤ depth) {set : σ → σ}
    (h : b.field.read depth g = .ok (set, r)) : ∃ v, set = b.set v ∧ b.codec.Rereads depth v := by
  obtain ⟨⟨v, r'⟩, hv, h⟩ := ok_of_bind h
  cases h
  exact ⟨v, rfl, b.normal depth hneed g v r hv⟩

theorem Filled.step (h : Lawful slots) (hneed : need ≤ depth) {seen seen' : List String}
    {key : String} (hs : Filled slots depth (·.name ∉ seen) s)
    (hstep : Fields.step (slots.map Slot.field) depth (seen, s) key g = .ok ((seen', s'), r)) :
    Filled slots depth (·.name ∉ seen') s' := by
  unfold Fields.step at hstep
  split at hstep
  · obtain ⟨_, _, hstep⟩ := ok_of_bind hstep
    obtain ⟨_, _, hstep⟩ := ok_of_bind hstep
    cases hstep
    exact hs
  · rename_i f hfind
    split at hstep
    · cases hstep
    · obtain ⟨b, hb, rfl⟩ := List.mem_map.mp (List.mem_of_find?_eq_some hfind)
      have hfound := List.find?_some hfind
      have hkey : b.name = key := of_decide_eq_true hfound
      obtain ⟨_, _, hstep⟩ := ok_of_bind hstep
      obtain ⟨⟨set, _⟩, hset, hstep⟩ := ok_of_bind hstep
      cases hstep
      obtain ⟨v, rfl, hv⟩ := b.rereads_of_read hneed hset
      refine hs.set h hb hv fun a _ hname hnew => ?_
      rw [List.mem_cons, not_or]
      exact ⟨hkey ▸ hname, hnew⟩

theorem rereads_of_readObject (h : Lawful slots) (hneed : need ≤ depth)
    (hread : Fields.readObject (slots.map Slot.field) depth blank g = .ok (s, r)) :
    ∀ a ∈ slots, a.codec.Rereads depth (a.get s) := by
  obtain ⟨⟨⟨seen, t⟩, _⟩, hfold, hread⟩ := ok_of_bind hread
  dsimp only at hread
  split at hread
  · rename_i hcomplete
    cases hread
    have hfilled : Filled slots depth (·.name ∉ seen) s :=
      foldMembers_invariant (fun _ _ _ _ _ hs hstep => Filled.step h hneed hs hstep)
        (filled_blank fun a _ => List.not_mem_nil) hfold
    refine hfilled.rereads hneed fun a ha hnew hrequired => hnew ?_
    have ha' := List.all_eq_true.mp hcomplete a.field (List.mem_map_of_mem ha)
    simpa [Slot.field, RecordField.make, hrequired] using ha'
  · cases hread

theorem rereads_of_readArray (h : Lawful slots) (hneed : need ≤ depth)
    {rest : List (Slot blank need)} (hrest : ∀ a ∈ rest, a ∈ slots) {first : Bool}
    (hs : Filled slots depth (· ∈ rest) s)
    (hread : Fields.readArray depth (rest.map Slot.field) first s g = .ok (s', r)) :
    ∀ a ∈ slots, a.codec.Rereads depth (a.get s') := by
  induction rest generalizing first s g with
  | nil =>
    have hend : s' = s := by
      rw [List.map_nil, Fields.readArray] at hread
      split at hread
      · cases hread
      · cases hread
        rfl
      · cases hread
    rw [hend]
    exact hs.rereads hneed fun a _ ha => absurd ha List.not_mem_nil
  | cons b rest ih =>
    have hb : b ∈ slots := hrest b List.mem_cons_self
    -- One more item is read, and then the others.
    have hmore {g : List Glyph} (hread : (b.field.read depth g >>= fun p =>
        Fields.readArray depth (rest.map Slot.field) false (p.1 s) p.2) = .ok (s', r)) :
        ∀ a ∈ slots, a.codec.Rereads depth (a.get s') := by
      obtain ⟨⟨set, _⟩, hset, hread⟩ := ok_of_bind hread
      obtain ⟨v, rfl, hv⟩ := b.rereads_of_read hneed hset
      refine ih (fun a ha => hrest a (List.mem_cons_of_mem b ha)) (hs.set h hb hv ?_) hread
      intro a _ hname ha
      rcases List.mem_cons.mp ha with rfl | ha
      · exact absurd rfl hname
      · exact ha
    rw [List.map_cons, Fields.readArray] at hread
    split at hread
    · cases hread
    · split at hread
      · rename_i hdefaulted
        cases hread
        refine hs.rereads hneed fun a _ ha hrequired => ?_
        have ha' := List.all_eq_true.mp hdefaulted a.field (List.mem_map_of_mem ha)
        simp [Slot.field, RecordField.make, hrequired] at ha'
      · cases hread
    · split at hread
      · cases hread
      · split at hread
        · cases hread
        · cases hread
        · exact hmore hread
    · split at hread
      · exact hmore hread
      · cases hread

end Reading

section Writing

/-- A written record is being read: its first fields are set, and the others are new. -/
structure Progress (slots : List (Slot blank need)) (s : σ) (done rest : List (Slot blank need))
    (seen : List String) (t : σ) : Prop where
  split : slots = done ++ rest
  set : ∀ a ∈ done, a.get t = a.get s ∧ (a.presence = .required → a.name ∈ seen)
  new : ∀ a ∈ rest, a.get t = a.get blank ∧ a.name ∉ seen

variable {s t : σ} {done rest : List (Slot blank need)} {seen : List String} {b : Slot blank need}

theorem Progress.mem (hp : Progress slots s done (b :: rest) seen t) : b ∈ slots := by
  rw [hp.split]
  simp

theorem Progress.name_ne (h : Lawful slots) (hp : Progress slots s done (b :: rest) seen t)
    {a : Slot blank need} (ha : a ∈ done ∨ a ∈ rest) : a ∈ slots ∧ a.name ≠ b.name := by
  have hdistinct := List.pairwise_map.mp h.distinct
  rw [hp.split] at hdistinct ⊢
  obtain ⟨-, hrest, hdone⟩ := List.pairwise_append.mp hdistinct
  rcases ha with ha | ha
  · exact ⟨by simp [ha], hdone a ha b List.mem_cons_self⟩
  · exact ⟨by simp [ha], ((List.pairwise_cons.mp hrest).1 a ha).symm⟩

theorem Progress.take (h : Lawful slots) (hp : Progress slots s done (b :: rest) seen t) :
    Progress slots s (done ++ [b]) rest (b.name :: seen) (b.set (b.get s) t) where
  split := by rw [hp.split, List.append_assoc, List.singleton_append]
  set := by
    intro a ha
    rcases List.mem_append.mp ha with ha | ha
    · obtain ⟨hmem, hname⟩ := hp.name_ne h (.inl ha)
      obtain ⟨hget, hseen⟩ := hp.set a ha
      rw [h.frame a hmem b hp.mem hname]
      exact ⟨hget, fun hrequired => List.mem_cons_of_mem _ (hseen hrequired)⟩
    · obtain rfl := List.mem_singleton.mp ha
      exact ⟨a.get_set _ t, fun _ => List.mem_cons_self⟩
  new := by
    intro a ha
    obtain ⟨hmem, hname⟩ := hp.name_ne h (.inr ha)
    obtain ⟨hget, hnew⟩ := hp.new a (List.mem_cons_of_mem b ha)
    rw [h.frame a hmem b hp.mem hname, List.mem_cons, not_or]
    exact ⟨hget, hname, hnew⟩

theorem Progress.pass (hp : Progress slots s done (b :: rest) seen t)
    (hpresence : b.presence ≠ .required) (hblank : b.get s = b.get blank) :
    Progress slots s (done ++ [b]) rest seen t where
  split := by rw [hp.split, List.append_assoc, List.singleton_append]
  set := by
    intro a ha
    rcases List.mem_append.mp ha with ha | ha
    · exact hp.set a ha
    · obtain rfl := List.mem_singleton.mp ha
      exact ⟨(hp.new a List.mem_cons_self).1.trans hblank.symm, fun h => absurd h hpresence⟩
  new := fun a ha => hp.new a (List.mem_cons_of_mem b ha)

theorem Progress.complete (h : Lawful slots) (hp : Progress slots s done [] seen t) :
    t = s ∧ Fields.complete (slots.map Slot.field) seen = true := by
  have hdone : slots = done := by rw [hp.split, List.append_nil]
  refine ⟨h.ext t s fun a ha => (hp.set a (hdone ▸ ha)).1, List.all_eq_true.mpr fun f hf => ?_⟩
  obtain ⟨a, ha, rfl⟩ := List.mem_map.mp hf
  by_cases hrequired : a.presence = .required
  · simp [Slot.field, RecordField.make, (hp.set a (hdone ▸ ha)).2 hrequired]
  · simp [Slot.field, RecordField.make, hrequired]

/-- The members of a written record set its fields, one after the other. -/
theorem Progress.folds (h : Lawful slots)
    (hspells : ∀ a ∈ slots, a.members s = [(a.name, a.codec.toJson (a.get s))] →
      Spells (a.codec.read depth) (a.codec.toJson (a.get s)).render (a.get s))
    (hp : Progress slots s done rest seen t) :
    ∃ seen', Folds (Fields.step (slots.map Slot.field) depth) (seen, t)
        ((rest.flatMap (·.members s)).map fun m => (m.1, m.2.render)) (seen', s) ∧
      Fields.complete (slots.map Slot.field) seen' = true := by
  induction rest generalizing done seen t with
  | nil =>
    obtain ⟨rfl, hcomplete⟩ := hp.complete h
    exact ⟨seen, .nil _, hcomplete⟩
  | cons b rest ih =>
    rw [List.flatMap_cons]
    rcases b.written s with hwritten | ⟨homitted, hpresence, hblank⟩
    · obtain ⟨seen', hfolds, hcomplete⟩ := ih (hp.take h)
      have hnew : seen.contains b.name = false := by
        simpa using (hp.new b List.mem_cons_self).2
      rw [hwritten, List.singleton_append, List.map_cons]
      exact ⟨seen', hfolds.field (h.find?_name hp.mem) hnew (hspells b hp.mem hwritten), hcomplete⟩
    · obtain ⟨seen', hfolds, hcomplete⟩ := ih (hp.pass hpresence hblank)
      rw [homitted, List.nil_append]
      exact ⟨seen', hfolds, hcomplete⟩

theorem progress_blank : Progress slots s [] slots [] blank where
  split := rfl
  set := fun _ ha => absurd ha List.not_mem_nil
  new := fun _ _ => ⟨rfl, List.not_mem_nil⟩

end Writing

/-- How a record is read and written, field by field. -/
structure RecordForm (fields : List (RecordField σ)) (blank : σ) (toJson : σ → Json) (need : Nat)
    where
  slots : List (Slot blank need)
  fields_eq : fields = slots.map Slot.field := by rfl
  toJson_eq : ∀ s, toJson s = .object (slots.flatMap (·.members s)) := by intro s; rfl
  lawful : Lawful slots := by exact {}

/-- A record is written in normal form. -/
theorem RecordForm.normal {fields : List (RecordField σ)} {toJson : σ → Json}
    (f : RecordForm fields blank toJson need) :
    (Codec.record fields blank toJson).Normal (need + 1) := by
  obtain ⟨slots, hfields, htoJson, h⟩ := f
  subst hfields
  intro depth hdepth g s r hread hreals
  obtain ⟨depth, rfl⟩ : ∃ n, depth = n + 1 := ⟨depth - 1, by omega⟩
  have hneed : need ≤ depth := by omega
  have hfound : ∀ a ∈ slots, a.codec.Rereads depth (a.get s) := by
    simp only [Codec.record] at hread
    split at hread
    case h_4 heq =>
      cases heq
      exact rereads_of_readArray h hneed (fun _ ha => ha) (filled_blank fun _ ha => ha) hread
    case h_5 heq =>
      cases heq
      exact rereads_of_readObject h hneed hread
    all_goals cases hread
  change ∀ x ∈ (toJson s).reals, ReadsBack x at hreals
  rw [htoJson, reals_object] at hreals
  have hspells : ∀ a ∈ slots, a.members s = [(a.name, a.codec.toJson (a.get s))] →
      Spells (a.codec.read depth) (a.codec.toJson (a.get s)).render (a.get s) := by
    intro a ha hwritten
    refine hfound a ha fun x hx => hreals x ?_
    refine List.mem_flatMap.mpr ⟨(a.name, a.codec.toJson (a.get s)), ?_, hx⟩
    exact List.mem_flatMap.mpr ⟨a, ha, by rw [hwritten]; exact List.mem_singleton_self _⟩
  obtain ⟨seen, hfolds, hcomplete⟩ := progress_blank.folds h hspells
  have htext : ((Codec.record (slots.map Slot.field) blank toJson).toJson s).render = "\x7b" ++
      membersText ((slots.flatMap (·.members s)).map fun m => (m.1, m.2.render)) ++ "\x7d" := by
    change (toJson s).render = _
    rw [htoJson, render, renderMembers_eq]
  rw [htext]
  exact Codec.record_spells hfolds hcomplete

end Records

end RobotDesk.Json
