import RobotDesk.Proofs.JsonReading

/-!
Codecs whose compact text is a normal form.

Whatever text a value was read from, the text written for it is read as that value again.  The text
written may open more brackets than the one that was read, since a field that was left out is
written with the value it has by default.  So a codec is normal from a number of brackets on.
-/
namespace RobotDesk.Json.Codec

open Text

variable {α : Type} {c : Codec α} {need : Nat}

/-- A value whose text is read back where so many brackets may open, if its reals are. -/
def Rereads (c : Codec α) (depth : Nat) (v : α) : Prop :=
  (∀ x ∈ (c.toJson v).reals, ReadsBack x) → Spells (c.read depth) (c.toJson v).render v

/-- A codec that rereads whatever it has read, if at least so many brackets may open. -/
def Normal (c : Codec α) (need : Nat) : Prop :=
  ∀ depth, need ≤ depth → ∀ g v r, c.read depth g = .ok (v, r) → c.Rereads depth v

/-- A codec that writes no value in the way null is written. -/
def NeverNull (c : Codec α) : Prop :=
  ∀ v, (glyphs (c.toJson v).render).head? ≠ some (.char 'n')

theorem Normal.mono (h : c.Normal need) {more : Nat} (hle : need ≤ more) : c.Normal more :=
  fun depth hdepth => h depth (Nat.le_trans hle hdepth)

/-- The text of a value that was read, with at most as many brackets as any text may open. -/
theorem Normal.decode_render (h : c.Normal need) (hneed : need ≤ depthLimit) {g : List Glyph}
    {v : α} (hread : c.decode g = .ok v) (hreals : ∀ x ∈ (c.toJson v).reals, ReadsBack x) :
    c.decode (glyphs (c.toJson v).render) = .ok v := by
  obtain ⟨r, hread, -⟩ := read_of_whole hread
  exact decode_of_spells (h depthLimit hneed g v r hread hreals)

section Scalars

theorem string_rereads (depth : Nat) (s : String) : Codec.string.Rereads depth s :=
  fun _ => string_spells depth s

theorem normal_string : Codec.string.Normal need := fun depth _ _ s _ _ => string_rereads depth s

theorem neverNull_string : Codec.string.NeverNull := head?_renderString

theorem normal_bool : Codec.bool.Normal need := by
  intro depth _ _ b _ _ _
  cases b
  · exact ⟨⟨_, _, rfl, rfl, by decide⟩, fun _ _ => rfl⟩
  · exact ⟨⟨_, _, rfl, rfl, by decide⟩, fun _ _ => rfl⟩

/-- Whatever else is asked of an integer that was read, it has at most 64 bits. -/
theorem isWord_of_bind {negative : Bool} {g r : List Glyph} {n : Int} {v : α}
    {k : Front Numeral → Except ReadError (Front α)}
    (hk : ∀ m r', k (m, r') = .ok (v, r) → m = .int n)
    (h : numeralTail negative g >>= k = .ok (v, r)) : IsWord n := by
  obtain ⟨⟨m, r'⟩, hm, h⟩ := ok_of_bind h
  rw [hk m r' h] at hm
  exact isWord_of_numeralTail hm

theorem isWord_of_count {depth n : Nat} {g r : List Glyph}
    (h : Codec.count.read depth g = .ok (n, r)) : IsWord n := by
  simp only [Codec.count] at h
  split at h
  case h_1 => cases h
  case' h_2 => refine isWord_of_bind (fun m r' hm => ?_) h
  case' h_3 =>
    split at h
    case isFalse => cases h
    case' isTrue => refine isWord_of_bind (fun m r' hm => ?_) h
  all_goals
    dsimp only at hm
    split at hm
    · cases hm
      rfl
    · cases hm

theorem normal_count : Codec.count.Normal need := by
  intro depth _ g n r hread _
  obtain ⟨-, hword⟩ := isWord_of_count hread
  have htext : (Codec.count.toJson n).render = n.repr := rfl
  obtain ⟨c, g, hglyphs, hc⟩ := starts_repr n
  rw [htext]
  refine ⟨⟨c, g, hglyphs, isSpace_of_isDigit hc, by rintro rfl; cases hc⟩, fun rest hrest => ?_⟩
  have hnumeral : numeralTail false (.char c :: (g ++ rest)) = .ok (.int n, rest) := by
    rw [← List.cons_append, ← hglyphs, numeralTail_repr false n hrest, wholeOf_nat (by omega)]
    rfl
  rw [hglyphs, List.cons_append]
  simp only [Codec.count, skipSpace_cons (isSpace_of_isDigit hc)]
  split
  case h_1 heq => cases heq
  case h_2 heq =>
    cases heq
    cases hc
  case h_3 heq =>
    cases heq
    rw [digit?_char hc, hnumeral]
    rfl

/-- Names that are found again. -/
theorem choice_rereads {parse : String → Option α} {print : α → String}
    (h : ∀ v, parse (print v) = some v) (depth : Nat) (v : α) :
    (Codec.choice parse print).Rereads depth v := by
  intro _
  refine ⟨⟨_, _, glyphs_renderString _, rfl, by decide⟩, fun rest _ => ?_⟩
  have hname : choiceName parse (((print v).toList.flatMap escapeChar).map .char ++
      .char '"' :: rest) = .ok (v, rest) := by
    simp only [choiceName, stringTail_escaped, bind, Except.bind, h]
  have htext : ((Codec.choice parse print).toJson v).render = renderString (print v) := rfl
  rw [htext, glyphs_renderString, List.cons_append, List.append_assoc]
  cases depth <;> exact hname

theorem normal_choice {parse : String → Option α} {print : α → String}
    (h : ∀ v, parse (print v) = some v) : (Codec.choice parse print).Normal need :=
  fun depth _ _ v _ _ => choice_rereads h depth v

theorem neverNull_choice (parse : String → Option α) (print : α → String) :
    (Codec.choice parse print).NeverNull :=
  fun v => head?_renderString (print v)

/-- Texts that are read may have several spellings, but the one written has to be read as well. -/
theorem normal_spelled {parse : String → Option α} {print : α → String}
    (h : ∀ s v, parse s = some v → parse (print v) = some v) :
    (Codec.spelled parse print).Normal need := by
  intro depth _ g v r hread _
  obtain ⟨⟨s, r'⟩, -, hread⟩ := ok_of_bind hread
  dsimp only at hread
  split at hread
  · rename_i hparse
    cases hread
    refine ⟨⟨_, _, glyphs_renderString _, rfl, by decide⟩, fun rest _ => ?_⟩
    have htext : ((Codec.spelled parse print).toJson v).render = renderString (print v) := rfl
    have hstring : readString (.char '"' :: (((print v).toList.flatMap escapeChar).map .char ++
        .char '"' :: rest)) = .ok (print v, rest) := stringTail_escaped (print v) rest
    rw [htext, glyphs_renderString, List.cons_append, List.append_assoc]
    simp only [Codec.spelled, List.singleton_append, hstring, bind, Except.bind, h s v hparse]
  · cases hread

theorem neverNull_spelled (parse : String → Option α) (print : α → String) :
    (Codec.spelled parse print).NeverNull :=
  fun v => head?_renderString (print v)

end Scalars

section Brackets

theorem members_spells {depth : Nat} {ms : Members} (h : ∀ m ∈ ms.entries, Legible depth m.2) :
    Spells (Codec.members.read (depth + 1)) ms.toJson.render ms where
  starts := by
    rw [Members.toJson, render]
    exact starts_object _
  reads := by
    intro rest _
    rw [Members.toJson, render, renderMembers_eq, glyphs_object]
    exact foldMembers_of_folds
      (folds_memberStep ms.entries rfl fun m hm => value_render (h m hm)) rest

theorem members_empty_rereads {depth : Nat} (h : 1 ≤ depth) :
    Codec.members.Rereads depth .empty := by
  intro _
  obtain ⟨depth, rfl⟩ : ∃ n, depth = n + 1 := ⟨depth - 1, by omega⟩
  exact members_spells fun _ hm => absurd hm List.not_mem_nil

theorem normal_members : Codec.members.Normal need := by
  intro depth _ g ms r hread hreals
  simp only [Codec.members] at hread
  split at hread
  · cases hread
  · cases hread
  · rename_i depth _ _ _ _
    change ∀ x ∈ (Json.object ms.entries).reals, ReadsBack x at hreals
    rw [reals_object] at hreals
    have hlegible := members_forall (fun _ _ _ hv => legible_of_value hv) hread
    exact members_spells fun m hm =>
      hlegible m hm fun x hx => hreals x (List.mem_flatMap.mpr ⟨m, hm, hx⟩)
  · cases hread

theorem neverNull_members : Codec.members.NeverNull := by
  intro ms
  change (glyphs (Json.object ms.entries).render).head? ≠ _
  simp [render, glyphs]

theorem option_none_rereads (c : Codec α) (depth : Nat) : (Codec.option c).Rereads depth none :=
  fun _ => option_none_spells c depth

theorem Normal.option (h : c.Normal need) (hnull : c.NeverNull) : (Codec.option c).Normal need := by
  intro depth hdepth g v r hread hreals
  simp only [Codec.option] at hread
  split at hread
  · obtain ⟨_, _, hread⟩ := ok_of_bind hread
    cases hread
    exact option_none_spells c depth
  · obtain ⟨⟨w, r'⟩, hw, hread⟩ := ok_of_bind hread
    cases hread
    exact option_some_spells (h depth hdepth _ w _ hw hreals) (hnull w)

theorem Normal.list (h : c.Normal need) : (Codec.list c).Normal (need + 1) := by
  intro depth hdepth g vs r hread hreals
  simp only [Codec.list] at hread
  split at hread
  · cases hread
  · cases hread
  · rename_i depth _
    have hitems : ∀ v ∈ vs, c.Rereads depth v :=
      items_forall (fun g v r hv => h depth (by omega) g v r hv) hread
    have hwritten : ∀ p ∈ vs.map fun v => ((c.toJson v).render, v),
        Spells (c.read depth) p.1 p.2 := by
      intro p hp
      obtain ⟨v, hv, rfl⟩ := List.mem_map.mp hp
      refine hitems v hv fun x hx => hreals x ?_
      change x ∈ (Json.array (vs.map c.toJson)).reals
      rw [reals_array, List.flatMap_map]
      exact List.mem_flatMap.mpr ⟨v, hv, hx⟩
    have hlist := list_spells _ hwritten
    have htext : ((Codec.list c).toJson vs).render =
        "[" ++ itemsText (vs.map fun v => (c.toJson v).render) ++ "]" := by
      change (Json.array (vs.map c.toJson)).render = _
      rw [render, renderItems_eq, List.map_map]
      rfl
    simp only [List.map_map, Function.comp_def, List.map_id'] at hlist
    rw [htext]
    exact hlist
  · cases hread

theorem neverNull_list (c : Codec α) : (Codec.list c).NeverNull := by
  intro vs
  change (glyphs (Json.array (vs.map c.toJson)).render).head? ≠ _
  simp [render, glyphs]

end Brackets

end RobotDesk.Json.Codec
