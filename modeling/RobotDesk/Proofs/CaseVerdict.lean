import RobotDesk.Proofs.NumeralText
import RobotDesk.Proofs.OwnJob

/-!
When a test case passes.

The verdict on the output of a job looks for markers in its JSON text.  A marker begins with a
letter that the printer never writes of itself, and holds nothing that is escaped or that stands
between two strings.  So it can be found only inside one string of the output, and is found there
exactly when the string has it before it is escaped.  The status of a case therefore follows from
the last record seen, and what was expected plays no part in it.
-/
namespace RobotDesk

namespace Text

theorem occursIn_iff (part cs : List Char) : occursIn part cs = true ↔ part <:+: cs := by
  induction cs with
  | nil => simp [occursIn]
  | cons c cs ih => simp [occursIn, List.infix_cons_iff, ih]

theorem contains_iff (whole part : String) :
    contains whole part = true ↔ part.toList <:+: whole.toList :=
  occursIn_iff _ _

section Parts

variable {part : List Char}

theorem prefix_append_cons_iff {c : Char} (h : c ∉ part) (before after : List Char) :
    part <+: before ++ c :: after ↔ part <+: before := by
  constructor
  · intro hpart
    have hcut : before ++ [c] <+: before ++ c :: after := by simp
    rcases List.prefix_or_prefix_of_prefix hpart hcut with hshort | hlong
    · rcases List.prefix_concat_iff.mp hshort with rfl | hbefore
      · simp at h
      · exact hbefore
    · exact absurd (hlong.subset (by simp)) h
  · intro hpart
    exact hpart.trans (List.prefix_append before _)

/-- A part that lacks a character stands on one side of it. -/
theorem infix_append_cons_iff {c : Char} (h : c ∉ part) (before after : List Char) :
    part <:+: before ++ c :: after ↔ part <:+: before ∨ part <:+: after := by
  induction before with
  | nil =>
    have hfirst := prefix_append_cons_iff h [] after
    rw [List.nil_append] at hfirst ⊢
    rw [List.infix_cons_iff, hfirst, List.infix_nil, List.prefix_nil]
  | cons d before ih =>
    have hfirst := prefix_append_cons_iff h (d :: before) after
    rw [List.cons_append] at hfirst ⊢
    rw [List.infix_cons_iff, List.infix_cons_iff, hfirst, ih, or_assoc]

/-- A part does not begin among characters that are not its first. -/
theorem infix_append_iff_of_head {first : Char} (h : part.head? = some first) {skipped : List Char}
    (hskipped : first ∉ skipped) (after : List Char) :
    part <:+: skipped ++ after ↔ part <:+: after := by
  obtain ⟨rest, rfl⟩ := List.head?_eq_some_iff.mp h
  induction skipped with
  | nil => rfl
  | cons d skipped ih =>
    rw [List.mem_cons, not_or] at hskipped
    rw [List.cons_append, List.infix_cons_iff, List.cons_prefix_cons, ih hskipped.2]
    simp [hskipped.1]

end Parts
end Text

namespace Json

open Text

/-- The letters that the printer writes of itself, in literals, numbers and escapes. -/
def ownLetters : List Char := "abcdeflnrstu".toList

/-- A text of letters whose first the printer never writes of itself. -/
structure IsMarker (marker : List Char) : Prop where
  letters : ∀ c ∈ marker, c.isAlpha = true
  first : ∃ c, marker.head? = some c ∧ c ∉ ownLetters

/-- Whether the printer may write a character of itself, other than to mark an escape. -/
def isOwn (c : Char) : Bool := !c.isAlpha || ownLetters.contains c

namespace IsMarker

variable {marker : List Char} (hm : IsMarker marker)

include hm

theorem not_mem {c : Char} (h : c.isAlpha = false) : c ∉ marker := by
  intro hc
  rw [hm.letters c hc] at h
  cases h

theorem not_infix_nil : ¬ marker <:+: [] := by
  obtain ⟨c, hc, -⟩ := hm.first
  rw [List.infix_nil]
  rintro rfl
  cases hc

/-- A marker does not begin in what the printer writes of itself. -/
theorem infix_own_append_iff {own : List Char} (h : ∀ c ∈ own, isOwn c = true)
    (after : List Char) : marker <:+: own ++ after ↔ marker <:+: after := by
  obtain ⟨c, hc, hforeign⟩ := hm.first
  refine infix_append_iff_of_head hc (fun hmem => ?_) after
  have hletter := hm.letters c (List.mem_of_head? hc)
  have hown := h c hmem
  simp [isOwn, hletter, hforeign] at hown

theorem not_infix_own {own : List Char} (h : ∀ c ∈ own, isOwn c = true) : ¬ marker <:+: own := by
  rw [← List.append_nil own, hm.infix_own_append_iff h]
  exact hm.not_infix_nil

end IsMarker

section Characters

theorem isAlpha_of_lt {c : Char} (h : c.toNat < 65) : c.isAlpha = false := by
  have htable : ∀ n < 65, (Char.ofNat n).isAlpha = false := by decide
  have hc := htable c.toNat h
  rwa [Char.ofNat_toNat] at hc

theorem isOwn_of_inNumeral {c : Char} (h : inNumeral c = true) : isOwn c = true := by
  simp only [inNumeral, Bool.or_eq_true, decide_eq_true_eq] at h
  rcases h with (((h | rfl) | rfl) | rfl) | rfl
  · have hletter : c.isAlpha = false := isAlpha_of_lt (by
      simp [Char.isDigit, UInt32.le_iff_toNat_le] at h
      omega)
    simp [isOwn, hletter]
  all_goals decide

end Characters

section Strings

theorem isOwn_hexDigit : ∀ n < 16, isOwn (hexDigit n) = true := by decide

/-- A character stands for itself, or it is no letter and an escape stands for it. -/
theorem escapeChar_cases (c : Char) : escapeChar c = [c] ∨
    c.isAlpha = false ∧ ∃ tail, escapeChar c = '\\' :: tail ∧ ∀ d ∈ tail, isOwn d = true := by
  by_cases hshort : c ∈ shortEscaped
  · simp only [shortEscaped, List.mem_cons, List.not_mem_nil, or_false] at hshort
    rcases hshort with rfl | rfl | rfl | rfl | rfl | rfl | rfl <;>
      exact .inr ⟨rfl, _, rfl, List.all_eq_true.mp (by decide)⟩
  · rw [escapeChar_long hshort]
    split
    · rename_i hlow
      refine .inr ⟨isAlpha_of_lt (by omega), _, rfl, ?_⟩
      simp only [List.mem_cons, List.not_mem_nil, or_false]
      rintro d (rfl | rfl | rfl | rfl | rfl)
      · decide
      · decide
      · decide
      · exact isOwn_hexDigit _ (by omega)
      · exact isOwn_hexDigit _ (by omega)
    · exact .inl rfl

variable {marker : List Char} (hm : IsMarker marker)

include hm

/-- Escapes neither make a marker nor hide one, whatever stands before them. -/
theorem infix_escaped_iff (before cs : List Char) :
    marker <:+: before ++ cs.flatMap escapeChar ↔ marker <:+: before ++ cs := by
  induction cs generalizing before with
  | nil => rfl
  | cons c cs ih =>
    rw [List.flatMap_cons]
    rcases escapeChar_cases c with hplain | ⟨hletter, tail, hescape, htail⟩
    · have hmore := ih (before ++ [c])
      rwa [List.append_assoc, List.append_assoc, List.singleton_append, List.singleton_append,
        ← List.singleton_append, ← hplain] at hmore
    · have hmore := ih []
      rw [List.nil_append, List.nil_append] at hmore
      rw [hescape, List.cons_append, infix_append_cons_iff (hm.not_mem (by decide)),
        hm.infix_own_append_iff htail, hmore, infix_append_cons_iff (hm.not_mem hletter)]

theorem infix_renderString_iff (s : String) :
    marker <:+: (renderString s).toList ↔ marker <:+: s.toList := by
  have hquote : '"' ∉ marker := hm.not_mem (by decide)
  have htext : (renderString s).toList =
      [] ++ '"' :: (s.toList.flatMap escapeChar ++ '"' :: []) := by
    simp [renderString]
  have hescaped := infix_escaped_iff hm [] s.toList
  rw [List.nil_append, List.nil_append] at hescaped
  rw [htext, infix_append_cons_iff hquote, infix_append_cons_iff hquote, hescaped]
  simp [hm.not_infix_nil]

end Strings

/-- The strings in a value, at any depth: string values, and the keys of objects. -/
inductive Holds : Json → String → Prop where
  | string (s : String) : Holds (.string s) s
  | item {vs : List Json} {v : Json} {s : String} (mem : v ∈ vs) (inside : Holds v s) :
      Holds (.array vs) s
  | key {ms : Entries} {m : String × Json} (mem : m ∈ ms) : Holds (.object ms) m.1
  | value {ms : Entries} {m : String × Json} {s : String} (mem : m ∈ ms) (inside : Holds m.2 s) :
      Holds (.object ms) s

section Values

variable {marker : List Char} (hm : IsMarker marker)

include hm

theorem infix_itemsText_iff {α : Type} (text : α → String) (xs : List α) :
    marker <:+: (itemsText (xs.map text)).toList ↔ ∃ x ∈ xs, marker <:+: (text x).toList := by
  induction xs with
  | nil => simpa [itemsText] using hm.not_infix_nil
  | cons x xs ih =>
    cases xs with
    | nil => simp [itemsText]
    | cons y xs =>
      have hcons : (itemsText ((x :: y :: xs).map text)).toList =
          (text x).toList ++ ',' :: (itemsText ((y :: xs).map text)).toList := by
        simp [itemsText, String.intercalate_cons_cons]
      rw [hcons, infix_append_cons_iff (hm.not_mem (by decide)), ih]
      simp

theorem infix_memberText_iff (m : String × String) :
    marker <:+: (memberText m).toList ↔ marker <:+: m.1.toList ∨ marker <:+: m.2.toList := by
  have htext : (memberText m).toList = (renderString m.1).toList ++ ':' :: m.2.toList := by
    simp [memberText]
  rw [htext, infix_append_cons_iff (hm.not_mem (by decide)), infix_renderString_iff hm]

/-- Brackets around a text bring no marker into it. -/
theorem infix_bracketed_iff {opening closing : Char} (ho : opening.isAlpha = false)
    (hc : closing.isAlpha = false) (text : List Char) :
    marker <:+: opening :: (text ++ [closing]) ↔ marker <:+: text := by
  have hopen := infix_append_cons_iff (hm.not_mem ho) [] (text ++ [closing])
  rw [List.nil_append] at hopen
  rw [hopen, infix_append_cons_iff (hm.not_mem hc)]
  simp [hm.not_infix_nil]

theorem infix_render_array_iff (vs : List Json) :
    marker <:+: (render (.array vs)).toList ↔ ∃ v ∈ vs, marker <:+: v.render.toList := by
  have htext : (render (.array vs)).toList = '[' :: ((renderItems vs).toList ++ [']']) := by
    simp [render]
  rw [htext, infix_bracketed_iff hm (by decide) (by decide), renderItems_eq,
    infix_itemsText_iff hm]

theorem infix_render_object_iff (ms : Entries) :
    marker <:+: (render (.object ms)).toList ↔
      ∃ m ∈ ms, marker <:+: m.1.toList ∨ marker <:+: m.2.render.toList := by
  have htext : (render (.object ms)).toList =
      '\x7b' :: ((renderMembers ms).toList ++ ['\x7d']) := by
    simp [render]
  rw [htext, infix_bracketed_iff hm (by decide) (by decide), renderMembers_eq, membersText,
    List.map_map, infix_itemsText_iff hm]
  simp only [Function.comp_apply, infix_memberText_iff hm]

/-- A marker stands in the text of a value exactly if it stands in one of the strings in it. -/
theorem infix_render_iff (v : Json) :
    marker <:+: v.render.toList ↔ ∃ s, v.Holds s ∧ marker <:+: s.toList := by
  -- Without strings in it, a value has only what the printer writes of itself.
  have hnone {v : Json} (hown : ∀ c ∈ v.render.toList, isOwn c = true) (hv : ∀ s, ¬ v.Holds s) :
      marker <:+: v.render.toList ↔ ∃ s, v.Holds s ∧ marker <:+: s.toList :=
    ⟨fun h => absurd h (hm.not_infix_own hown), fun ⟨s, h, _⟩ => absurd h (hv s)⟩
  cases v with
  | null => exact hnone (List.all_eq_true.mp (by decide)) (by rintro s ⟨⟩)
  | bool b => cases b <;> exact hnone (List.all_eq_true.mp (by decide)) (by rintro s ⟨⟩)
  | number n =>
    refine hnone (fun c hc => ?_) (by rintro s ⟨⟩)
    rw [render] at hc
    exact isOwn_of_inNumeral (numeric_renderNumeral n c hc)
  | string s =>
    rw [render, infix_renderString_iff hm]
    constructor
    · intro h
      exact ⟨s, .string s, h⟩
    · rintro ⟨t, ⟨⟩, h⟩
      exact h
  | array vs =>
    have ih : ∀ v ∈ vs, (marker <:+: v.render.toList ↔ ∃ s, v.Holds s ∧ marker <:+: s.toList) :=
      fun v hv => infix_render_iff v
    rw [infix_render_array_iff hm]
    constructor
    · rintro ⟨v, hv, h⟩
      obtain ⟨s, hs, h⟩ := (ih v hv).mp h
      exact ⟨s, .item hv hs, h⟩
    · rintro ⟨s, hs, h⟩
      cases hs with
      | item hv inside => exact ⟨_, hv, (ih _ hv).mpr ⟨s, inside, h⟩⟩
  | object ms =>
    have ih : ∀ m ∈ ms,
        (marker <:+: m.2.render.toList ↔ ∃ s, m.2.Holds s ∧ marker <:+: s.toList) :=
      fun m hmem => infix_render_iff m.2
    rw [infix_render_object_iff hm]
    constructor
    · rintro ⟨m, hmem, h | h⟩
      · exact ⟨m.1, .key hmem, h⟩
      · obtain ⟨s, hs, h⟩ := (ih m hmem).mp h
        exact ⟨s, .value hmem hs, h⟩
    · rintro ⟨s, hs, h⟩
      cases hs with
      | key hmem => exact ⟨_, hmem, .inl h⟩
      | value hmem inside => exact ⟨_, hmem, .inr ((ih _ hmem).mpr ⟨s, inside, h⟩)⟩
termination_by sizeOf v
decreasing_by
  · have hsize := List.sizeOf_lt_of_mem hv
    simp only [array.sizeOf_spec]
    omega
  · have hsize := List.sizeOf_lt_of_mem hmem
    have hvalue : sizeOf m.2 < sizeOf m := by
      cases m
      simp only [Prod.mk.sizeOf_spec]
      omega
    simp only [object.sizeOf_spec]
    omega

end Values
end Json

namespace Verdict

/-- A text shows one of the markers of success. -/
def Shown (s : String) : Prop := "OK".toList <:+: s.toList ∨ "processedCount".toList <:+: s.toList

theorem isMarker_of_mem : ∀ marker ∈ successMarkers, Json.IsMarker marker.toList := by
  intro marker hmem
  simp only [successMarkers, List.mem_cons, List.not_mem_nil, or_false] at hmem
  rcases hmem with rfl | rfl
  · exact ⟨List.all_eq_true.mp (by decide), 'O', rfl, by decide⟩
  · exact ⟨List.all_eq_true.mp (by decide), 'p', rfl, by decide⟩

theorem looksSuccessful_iff (output : String) : looksSuccessful output = true ↔ Shown output := by
  simp [looksSuccessful, successMarkers, Text.contains_iff, Shown]

/-- An output looks successful exactly if one of the strings in it shows a marker. -/
theorem looksSuccessful_render_iff (v : Json) :
    looksSuccessful v.render = true ↔ ∃ s, v.Holds s ∧ Shown s := by
  have hok := Json.infix_render_iff (isMarker_of_mem "OK" (by decide)) v
  have hcount := Json.infix_render_iff (isMarker_of_mem "processedCount" (by decide)) v
  rw [looksSuccessful_iff, Shown, hok, hcount]
  constructor
  · rintro (⟨s, hs, h⟩ | ⟨s, hs, h⟩)
    · exact ⟨s, hs, .inl h⟩
    · exact ⟨s, hs, .inr h⟩
  · rintro ⟨s, hs, h | h⟩
    · exact .inl ⟨s, hs, h⟩
    · exact .inr ⟨s, hs, h⟩

-- The letters of a marker in two strings make none, and a key counts as well as a value.
example : looksSuccessful (Json.array [.string "O", .string "K"]).render = false := by decide
example : looksSuccessful (Json.array [.object [("\nOK", .null)]]).render = true := by decide

end Verdict

/-- How polling ends with a record: the job has ended, or its time is over. -/
def Ending.ofLast (job : JobRecord) : Ending :=
  if job.status.isTerminal then .finished job else .timedOut job

variable {σ : Type} {b : Backend σ}

theorem Polling.Concludes.eq_ofLast {interval deadline polls : Nat} {job : JobRecord}
    {w w' : World σ} {ending : Ending}
    (h : Concludes b interval deadline polls job w (.ok ending, w')) :
    ∃ answers, Watch b interval deadline w job answers w' ∧
      ending = .ofLast (answers.getLastD job) := by
  cases h with
  | finished watch terminal => exact ⟨_, watch, (if_pos terminal).symm⟩
  | timedOut watch unfinished expired =>
    exact ⟨_, watch, (if_neg (Bool.eq_false_iff.mp unfinished)).symm⟩

namespace Trial

theorem outputText_shown_iff (job : JobRecord) :
    Verdict.looksSuccessful (outputText job) = true ↔
      ∃ output, job.outputArguments = some output ∧
        ∃ s, output.toJson.Holds s ∧ Verdict.Shown s := by
  unfold outputText
  cases job.outputArguments with
  | none =>
    have hnone : Verdict.looksSuccessful "no output" = false := by decide
    simp [hnone]
  | some output => simp [Verdict.looksSuccessful_render_iff]

/-- What the last record says about a case: an error if the job has not ended or was faulted, and
else a success exactly if one of the strings in the output shows a marker.  Only a success needs no
explanation. -/
structure Judged (last : JobRecord) (f : Finding) : Prop where
  unfinished : last.status.isTerminal = false → f.status = .error ∧ f.actual = ""
  faulted : last.status = .faulted → f.status = .error
  ended : last.status = .successful ∨ last.status = .stopped →
    (f.status = .pass ∨ f.status = .fail) ∧
      (f.status = .pass ↔ ∃ output, last.outputArguments = some output ∧
        ∃ s, output.toJson.Holds s ∧ Verdict.Shown s)
  detail : f.detail = none ↔ f.status = .pass

theorem judged_of_ended {last : JobRecord}
    (h : last.status = .successful ∨ last.status = .stopped) (expected : String) :
    Judged last (if Verdict.looksSuccessful (outputText last) then ⟨.pass, outputText last, none⟩
      else ⟨.fail, outputText last, some (Verdict.mismatch expected (outputText last))⟩) := by
  have hterminal : last.status.isTerminal ≠ false := by
    rcases h with h | h <;> simp [h, JobStatus.isTerminal]
  have hfaulted : last.status ≠ .faulted := by
    rcases h with h | h <;> simp [h]
  have hshown := outputText_shown_iff last
  by_cases hlooks : Verdict.looksSuccessful (outputText last) = true
  · rw [if_pos hlooks]
    exact ⟨fun h => absurd h hterminal, fun h => absurd h hfaulted,
      fun _ => ⟨.inl rfl, fun _ => hshown.mp hlooks, fun _ => rfl⟩, by simp⟩
  · rw [if_neg hlooks]
    exact ⟨fun h => absurd h hterminal, fun h => absurd h hfaulted,
      fun _ => ⟨.inr rfl, by simp, fun h => absurd (hshown.mpr h) hlooks⟩, by simp⟩

theorem judged_classify (deadline : Nat) (expected : String) (last : JobRecord) :
    Judged last (classify deadline expected (.ofLast last)) := by
  by_cases hterminal : last.status.isTerminal = true
  · rw [Ending.ofLast, if_pos hterminal, classify]
    by_cases hfaulted : last.status = .faulted
    · rw [if_pos hfaulted]
      exact ⟨by simp [hterminal], fun _ => rfl, by simp [hfaulted], by simp⟩
    · rw [if_neg hfaulted]
      apply judged_of_ended
      cases hstatus : last.status <;> simp_all [JobStatus.isTerminal]
  · rw [Ending.ofLast, if_neg hterminal, classify]
    refine ⟨fun _ => ⟨rfl, rfl⟩, fun _ => rfl, ?_, by simp⟩
    rintro (h | h) <;> simp [h, JobStatus.isTerminal] at hterminal

/-- What was expected changes the explanation of a failure only. -/
theorem classify_expected (deadline : Nat) (expected expected' : String) (ending : Ending) :
    (classify deadline expected ending).status = (classify deadline expected' ending).status ∧
      (classify deadline expected ending).actual = (classify deadline expected' ending).actual := by
  cases ending with
  | timedOut job => exact ⟨rfl, rfl⟩
  | finished job =>
    simp only [classify]
    by_cases hfaulted : job.status = .faulted
    · simp [hfaulted]
    · cases Verdict.looksSuccessful (outputText job) <;> simp [hfaulted]

/-- A case that has a result was judged by the last record seen. -/
theorem runCase_ok_eq {s : Settings} {botId processKey : String} {c : TestCase} {w w' : World σ}
    {r : TestResult} (h : runCase b s botId processKey c w = (.ok r, w')) :
    ∃ job answers, Pursuit b s botId processKey c w job answers w' ∧
      r = Course.result ⟨w.now, job, .ofLast (answers.getLastD job)⟩ s botId c w'.now w'.clock := by
  have hfollowed := follow_followed b s botId processKey c w
  generalize hrun : follow b s botId processKey c w = result at hfollowed
  cases hfollowed with
  | undated untold => cases (runCase_eq hrun).symm.trans h
  | unstaged told failure => cases (runCase_eq hrun).symm.trans h
  | unstarted told staged failure => cases (runCase_eq hrun).symm.trans h
  | @watched answer job v u _ told staged started watch =>
    cases answer with
    | error stop => cases (runCase_eq hrun).symm.trans h
    | ok ending =>
      obtain ⟨answers, hwatch, rfl⟩ := (Polling.concludes_of_untilTerminal watch).eq_ofLast
      cases (runCase_eq hrun).symm.trans h
      exact ⟨_, answers, .intro staged started hwatch, rfl⟩

/-- A case, for any orchestrator.  If it has a result, this has the id of the started job, and is
judged by the last record seen.  With anything else expected, the case makes the same calls and
leaves the same world; it fails in the same way, or has a result with the same status, output and
job. -/
theorem case_judged_by_last_record (b : Backend σ) (s : Settings) (botId processKey : String)
    (c : TestCase) (w : World σ) :
    let run := runCase b s botId processKey c w
    (∀ r, run.1 = .ok r → ∃ job answers, Pursuit b s botId processKey c w job answers run.2 ∧
      r.jobId = job.jobId ∧
      Judged (answers.getLastD job) ⟨r.status, r.actualOutput, r.diffDetail⟩) ∧
    ∀ expected,
      let run' := runCase b s botId processKey { c with expectedOutput := expected } w
      run'.2 = run.2 ∧ run'.1.map (fun r => (r.status, r.actualOutput, r.jobId)) =
        run.1.map fun r => (r.status, r.actualOutput, r.jobId) := by
  intro run
  refine ⟨fun r hr => ?_, fun expected => ?_⟩
  · have hrun : runCase b s botId processKey c w = (.ok r, run.2) := Prod.ext hr rfl
    obtain ⟨job, answers, hpursuit, rfl⟩ := runCase_ok_eq hrun
    exact ⟨job, answers, hpursuit, rfl, judged_classify _ _ _⟩
  · have hfollow : follow b s botId processKey { c with expectedOutput := expected } w =
      follow b s botId processKey c w := rfl
    cases hrun : follow b s botId processKey c w with
    | mk answer w' =>
    rw [show run = _ from runCase_eq hrun, runCase_eq (hfollow.trans hrun)]
    refine ⟨rfl, ?_⟩
    cases answer with
    | error f => rfl
    | ok course =>
      obtain ⟨hstatus, hactual⟩ :=
        classify_expected s.deadline expected c.expectedOutput course.ending
      simp only [Except.map, Course.result, hstatus, hactual]

end Trial
end RobotDesk
