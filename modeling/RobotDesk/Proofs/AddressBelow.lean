import RobotDesk.Proofs.PercentText

/-!
Addresses below an address.

A path is cut at its slashes, and each part leads on from the place reached.  So when a text that
spells an address is followed by a slash and more text, the whole spells an address below the first:
scheme and host stay, and the segments go on from where the first text leads.  A query or a
fragment in the first text would swallow what follows, and is excluded.
-/
namespace RobotDesk.Text

variable (separator c : Char) (cs : List Char)

theorem splitOn_ne_nil : splitOn separator cs ≠ [] := by
  unfold splitOn
  split
  · simp
  · split
    · simp
    · split <;> simp

theorem splitOn_cons : splitOn separator (c :: cs) =
    if c = separator then [] :: splitOn separator cs
    else (splitOn separator cs).modifyHead (c :: ·) := by
  rw [splitOn]
  cases h : splitOn separator cs with
  | nil => exact absurd h (splitOn_ne_nil separator cs)
  | cons part more => rfl

end RobotDesk.Text

namespace RobotDesk.Wire.Url

section Parts

theorem parts_ne_nil (cs : List Char) : parts cs ≠ [] := Text.splitOn_ne_nil _ _

theorem parts_cons (c : Char) (cs : List Char) :
    parts (c :: cs) = if isSlash c then [] :: parts cs else (parts cs).modifyHead (c :: ·) := by
  have hcons : ∀ d : Char, Text.splitOn '/' (d :: cs.map fun c => if c = '\\' then '/' else c) =
      if d = '/' then [] :: parts cs else (parts cs).modifyHead (d :: ·) :=
    fun d => Text.splitOn_cons '/' d _
  by_cases hback : c = '\\'
  · simp [parts, isSlash, hback, Text.splitOn]
  · rw [parts, List.map_cons, if_neg hback, hcons]
    simp [isSlash, hback]

theorem parts_eq_singleton {cs : List Char} (h : ∀ c ∈ cs, isSlash c = false) :
    parts cs = [cs] := by
  induction cs with
  | nil => rfl
  | cons c cs ih =>
    rw [parts_cons, h c List.mem_cons_self, ih fun d hd => h d (List.mem_cons_of_mem _ hd)]
    rfl

theorem parts_append (xs ys : List Char) : parts (xs ++ '/' :: ys) = parts xs ++ parts ys := by
  induction xs with
  | nil => rw [List.nil_append, parts_cons]; rfl
  | cons x xs ih =>
    rw [List.cons_append, parts_cons, parts_cons, ih]
    split
    · rfl
    · cases h : parts xs with
      | nil => exact absurd h (parts_ne_nil xs)
      | cons part more => rfl

/-- The last part is the end of the text, and the whole text if there is no other part. -/
theorem parts_eq_concat (cs : List Char) : ∃ front last, parts cs = front ++ [last] ∧
    last <:+ cs ∧ (∀ c ∈ last, isSlash c = false) ∧ (front = [] → last = cs) := by
  induction cs with
  | nil => exact ⟨[], [], rfl, List.suffix_refl _, by simp, fun _ => rfl⟩
  | cons c cs ih =>
    obtain ⟨front, last, hparts, hsuffix, hplain, hwhole⟩ := ih
    rw [parts_cons, hparts]
    have hlonger : last <:+ c :: cs := hsuffix.trans (List.suffix_cons c cs)
    cases hc : isSlash c with
    | true => exact ⟨[] :: front, last, rfl, hlonger, hplain, by simp⟩
    | false =>
      cases front with
      | nil =>
        obtain rfl := hwhole rfl
        exact ⟨[], c :: last, rfl, List.suffix_refl _, by simpa [hc] using hplain, fun _ => rfl⟩
      | cons part more => exact ⟨(c :: part) :: more, last, rfl, hlonger, hplain, by simp⟩

end Parts

section Walk

/-- The place reached from another by a part of a path that something follows. -/
def advance (reached : List String) (segment : List Char) : List String :=
  if isAbove segment then reached.dropLast
  else if isHere segment then reached
  else reached ++ [escapeSegment segment]

theorem advance_of_not {segment : List Char} (habove : isAbove segment = false)
    (hhere : isHere segment = false) (reached : List String) :
    advance reached segment = reached ++ [escapeSegment segment] := by
  simp [advance, habove, hhere]

theorem walk_cons {rest : List (List Char)} (h : rest ≠ []) (reached : List String)
    (segment : List Char) :
    walk reached (segment :: rest) = walk (advance reached segment) rest := by
  obtain ⟨next, more, rfl⟩ := List.exists_cons_of_ne_nil h
  rw [walk, advance]
  split
  · rfl
  split <;> rfl

theorem walk_append (reached : List String) (front : List (List Char)) {rest : List (List Char)}
    (h : rest ≠ []) : walk reached (front ++ rest) = walk (front.foldl advance reached) rest := by
  induction front generalizing reached with
  | nil => rfl
  | cons segment front ih =>
    rw [List.cons_append, walk_cons (by simp [h]), ih]
    rfl

theorem walk_nil (reached : List String) : walk reached (parts []) = reached ++ [""] := rfl

/-- The last segment is empty, or it is the last part of the path. -/
theorem walk_singleton (reached : List String) (last : List Char) :
    ∃ before, walk reached [last] = before ++ [""] ∨
      walk reached [last] = before ++ [escapeSegment last] := by
  rw [walk]
  split
  · exact ⟨_, .inl rfl⟩
  split
  · exact ⟨_, .inl rfl⟩
  · exact ⟨_, .inr rfl⟩

end Walk

section Spans

variable {p : Char → Bool} {d : Char} (hd : p d = false) (xs ys : List Char)

include hd

theorem takeWhile_append_cons : (xs ++ d :: ys).takeWhile p = xs.takeWhile p := by
  induction xs with
  | nil => simp [hd]
  | cons x xs ih => simp only [List.cons_append, List.takeWhile_cons, ih]

theorem dropWhile_append_cons : (xs ++ d :: ys).dropWhile p = xs.dropWhile p ++ d :: ys := by
  induction xs with
  | nil => simp [hd]
  | cons x xs ih =>
    simp only [List.cons_append, List.dropWhile_cons, ih]
    split <;> rfl

omit ys in
theorem mem_dropWhile_iff : d ∈ xs.dropWhile p ↔ d ∈ xs := by
  induction xs with
  | nil => simp
  | cons x xs ih =>
    by_cases hx : p x = true
    · have hne : d ≠ x := by
        rintro rfl
        rw [hd] at hx
        cases hx
      rw [List.dropWhile_cons_of_pos hx, ih, List.mem_cons, or_iff_right hne]
    · rw [List.dropWhile_cons_of_neg hx]

end Spans

section Clean

/-- Whether a character inside an address is looked at. -/
def isSeen (c : Char) : Bool := c ≠ '\t' && c ≠ '\n' && c ≠ '\r'

/-- Between characters that are no blanks only tabs and line breaks are dropped. -/
theorem clean_eq_filter {first last : Char} (hfirst : 32 < first.toNat) (hlast : 32 < last.toNat)
    (cs : List Char) :
    clean (first :: (cs ++ [last])) = (first :: (cs ++ [last])).filter isSeen := by
  have hfirst' : ¬ first.toNat ≤ 32 := by omega
  have hlast' : ¬ last.toNat ≤ 32 := by omega
  have hseen :
      isSeen = fun c => !decide (c = '\t') && !decide (c = '\n') && !decide (c = '\r') := by
    funext c
    simp [isSeen]
  simp [clean, hfirst', hlast', hseen]

end Clean

section Below

variable {hosts : Hosts}

/-- How an address starts. -/
def schemeText (secure : Bool) : List Char := if secure then "https:".toList else "http:".toList

theorem scheme?_schemeText (secure : Bool) (cs : List Char) :
    scheme? (schemeText secure ++ cs) = some (secure, cs) := by
  cases secure <;> simp [scheme?, schemeText]

theorem ofText?_append {base : String} {secure : Bool} {rest : List Char}
    (hbase : base.toList = schemeText secure ++ rest) (more : List Char) {last : Char}
    (hlast : 32 < last.toNat) :
    ofText? hosts (base ++ String.ofList (more ++ [last])) = ofAuthority? hosts secure
      ((rest.filter isSeen ++ (more ++ [last]).filter isSeen).dropWhile isSlash) := by
  have hclean : clean (base ++ String.ofList (more ++ [last])).toList =
      schemeText secure ++ (rest.filter isSeen ++ (more ++ [last]).filter isSeen) := by
    obtain ⟨behind, hbehind⟩ : ∃ behind, schemeText secure = 'h' :: behind := by
      cases secure <;> exact ⟨_, rfl⟩
    have hseen : (schemeText secure).filter isSeen = schemeText secure := by
      cases secure <;> rfl
    have htext : (base ++ String.ofList (more ++ [last])).toList =
        'h' :: ((behind ++ rest ++ more) ++ [last]) := by
      simp [hbase, hbehind]
    rw [htext, clean_eq_filter (by decide) hlast, ← htext]
    simp only [String.toList_append, hbase, String.toList_ofList, List.filter_append, hseen,
      List.append_assoc]
  rw [ofText?, hclean, scheme?_schemeText]

theorem isSlash_of_endsPath {c : Char} (h : endsPath c = true) : isSlash c = false := by
  simp only [endsPath, Bool.or_eq_true, decide_eq_true_eq] at h
  rcases h with rfl | rfl <;> rfl

theorem isSeen_of_endsPath {c : Char} (h : endsPath c = true) : isSeen c = true := by
  simp only [endsPath, Bool.or_eq_true, decide_eq_true_eq] at h
  rcases h with rfl | rfl <;> rfl

theorem stays_congr {xs ys : List Char} (h : ∀ c, endsPath c = true → (c ∈ xs ↔ c ∈ ys)) :
    (∀ c ∈ xs, endsPath c = false) ↔ ∀ c ∈ ys, endsPath c = false := by
  constructor <;> intro hstays c hc <;> by_cases hends : endsPath c = true
  · exact hstays c ((h c hends).mpr hc)
  · exact eq_false_of_ne_true hends
  · exact hstays c ((h c hends).mp hc)
  · exact eq_false_of_ne_true hends

/-- Where a text names a host, a slash and more behind it belong to the path. -/
theorem ofAuthority?_below {secure : Bool} {rest : List Char} {u : Url}
    (hu : ofAuthority? hosts secure ((rest ++ ['/']).dropWhile isSlash) = some u) :
    ∃ host path, (∀ c, endsPath c = true → (c ∈ path ↔ c ∈ rest)) ∧
      ∀ more, ofAuthority? hosts secure ((rest ++ '/' :: more).dropWhile isSlash) =
        some (ofRoot secure host (path ++ '/' :: more)) := by
  cases hrest : rest.dropWhile isSlash with
  | nil =>
    -- With slashes only there is no authority.
    simp [List.dropWhile_append, hrest, isSlash, ofAuthority?] at hu
  | cons b bs =>
    have hdrop : ∀ more, (rest ++ '/' :: more).dropWhile isSlash = (b :: bs) ++ '/' :: more := by
      intro more
      simp [List.dropWhile_append, hrest]
    have hslash : (!(isSlash '/' || endsPath '/')) = false := rfl
    obtain ⟨authority, hauthority⟩ : ∃ authority,
        (b :: bs).takeWhile (fun c => !(isSlash c || endsPath c)) = authority := ⟨_, rfl⟩
    have hread : ∀ more, ofAuthority? hosts secure ((rest ++ '/' :: more).dropWhile isSlash) =
        if authority.isEmpty then none
        else (hosts.read? secure (String.ofList authority)).map fun host => ofRoot secure host
          ((b :: bs).dropWhile (fun c => !(isSlash c || endsPath c)) ++ '/' :: more) := by
      intro more
      rw [hdrop, ofAuthority?, takeWhile_append_cons hslash, dropWhile_append_cons hslash,
        hauthority]
    rw [hread []] at hu
    split at hu
    · cases hu
    rename_i hnamed
    obtain ⟨host, hhost, -⟩ := Option.map_eq_some_iff.mp hu
    refine ⟨host, (b :: bs).dropWhile (fun c => !(isSlash c || endsPath c)), fun c hc => ?_,
      fun more => ?_⟩
    · rw [mem_dropWhile_iff (by simp [hc]), ← hrest, mem_dropWhile_iff (isSlash_of_endsPath hc)]
    · rw [hread more, if_neg hnamed, hhost, Option.map_some]

/-- Below a text that spells an address, everything but the path is that of the address. -/
theorem ofText?_below {base : String} {secure : Bool} {rest : List Char}
    (hbase : base.toList = schemeText secure ++ rest) {u : Url}
    (hu : ofText? hosts (base ++ "/") = some u) :
    ∃ host path, (∀ c, endsPath c = true → (c ∈ path ↔ c ∈ base.toList)) ∧
      u = ofRoot secure host (path ++ ['/']) ∧
      ∀ (more : List Char) (last : Char), 32 < last.toNat →
        ofText? hosts (base ++ String.ofList ('/' :: (more ++ [last]))) =
          some (ofRoot secure host (path ++ '/' :: (more ++ [last]).filter isSeen)) := by
  have hslash : ofText? hosts (base ++ "/") =
      ofAuthority? hosts secure ((rest.filter isSeen ++ ['/']).dropWhile isSlash) :=
    ofText?_append hbase [] (by decide)
  obtain ⟨host, path, hmem, hread⟩ := ofAuthority?_below (hslash ▸ hu)
  refine ⟨host, path, fun c hc => ?_, ?_, fun more last hlast => ?_⟩
  · have hscheme : c ∉ schemeText secure := by
      simp only [endsPath, Bool.or_eq_true, decide_eq_true_eq] at hc
      rcases hc with rfl | rfl <;> cases secure <;> decide
    simp [hmem c hc, hbase, hscheme, isSeen_of_endsPath hc]
  · rw [hslash, hread []] at hu
    exact (Option.some.inj hu).symm
  · rw [← hread, ← List.cons_append, ofText?_append hbase _ hlast, List.cons_append,
      List.filter_cons_of_pos (by decide)]

theorem queryOf_eq_none_iff {cs : List Char} (h : '#' ∉ cs) :
    queryOf (cs.dropWhile (!endsPath ·)) = none ↔ ∀ c ∈ cs, endsPath c = false := by
  induction cs with
  | nil => simp [queryOf]
  | cons c cs ih =>
    rw [List.mem_cons, not_or] at h
    by_cases hc : c = '?'
    · subst hc
      simp [queryOf, endsPath]
    · have hends : endsPath c = false := by simp [endsPath, hc, Ne.symm h.1]
      rw [List.dropWhile_cons_of_pos (by simp [hends]), ih h.2, List.forall_mem_cons]
      simp [hends]

theorem ofRoot_of_stays (secure : Bool) (host : String) {cs : List Char}
    (h : ∀ c ∈ cs, endsPath c = false) :
    ofRoot secure host cs = ⟨secure, host, walk [] (parts (cs.drop 1)), none⟩ := by
  have htake : cs.takeWhile (!endsPath ·) = cs := by
    rw [← List.append_nil cs, List.takeWhile_append_of_pos (by simpa using h), List.takeWhile_nil]
  have hhash : '#' ∉ cs := fun hmem => absurd (h _ hmem) (by decide)
  rw [ofRoot, htake, (queryOf_eq_none_iff hhash).mpr h]

/-- A path leads to a place, and what follows goes on from there. -/
theorem walk_below (path : List Char) : ∃ reached, ∀ more,
    walk [] (parts ((path ++ '/' :: more).drop 1)) = walk reached (parts more) := by
  cases path with
  | nil => exact ⟨[], fun more => rfl⟩
  | cons slash path =>
    refine ⟨(parts path).foldl advance [], fun more => ?_⟩
    rw [List.cons_append, List.drop_one, List.tail_cons, parts_append,
      walk_append _ _ (parts_ne_nil _)]

end Below
end RobotDesk.Wire.Url
