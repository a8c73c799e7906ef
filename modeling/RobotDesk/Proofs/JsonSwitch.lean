import RobotDesk.CommandLine.Invocation
import RobotDesk.Proofs.SideBySide

/-!
The switch that asks for JSON, on a command line.

The switch is understood by every grammar and looked at by none of the other options, operands and
commands.  So a command line that is understood without it, and with it put in somewhere, asks for
the same both times.  To show this, two readings of the arguments are followed side by side, of
which one has met the switch: they go on in the same way, unless a grammar meets the switch a second
time.
-/
namespace RobotDesk.CommandLine

namespace Level

/-- Two levels of which the second has also been given the switch, and that are alike in all else.
-/
structure Alike (l l' : Level) : Prop where
  given : ∃ newer older, l.given = newer ++ older ∧ l'.given = newer ++ ("json", "") :: older
  pending : l'.pending = l.pending
  operands : l'.operands = l.operands
  closed : l'.closed = l.closed

namespace Alike

variable {l l' : Level}

theorem has (h : Alike l l') {name : String} (hname : name ≠ "json") :
    l'.has name = l.has name := by
  obtain ⟨newer, older, hl, hl'⟩ := h.given
  simp [Level.has, hl, hl', hname.symm]

theorem waiting (h : Alike l l') : l'.waiting = l.waiting := by
  simp only [Level.waiting, h.pending]

theorem take (h : Alike l l') (item : String × String) :
    Alike { l with given := item :: l.given } { l' with given := item :: l'.given } := by
  obtain ⟨newer, older, hl, hl'⟩ := h.given
  exact ⟨⟨item :: newer, older, by simp [hl], by simp [hl']⟩, h.pending, h.operands, h.closed⟩

end Alike

/-- What is done at a level that was not given the switch, is done at one that was.  The second may
fail where the first is now given the switch itself. -/
def Follows (l : Level) (r r' : Except UsageError Level) : Prop :=
  ∀ m, r = .ok m → (l.has "json" = true → m.has "json" = true) ∧
    ((∃ m', r' = .ok m' ∧ Alike m m') ∨ m.has "json" = true ∧ ∃ e, r' = .error e)

/-- A level with the switch given last. -/
theorem alike_given (l : Level) : Alike l { l with given := ("json", "") :: l.given } :=
  ⟨⟨[], l.given, rfl, rfl⟩, rfl, rfl, rfl⟩

section

variable {l l' : Level} {g : Grammar}

theorem Follows.bind {r r' : Except UsageError Level} {k : Level → Except UsageError Level}
    (h : Follows l r r') (hk : ∀ m m', Alike m m' → Follows m (k m) (k m')) :
    Follows l (r >>= k) (r' >>= k) := by
  intro n hn
  cases r with
  | error e => cases hn
  | ok m =>
    obtain ⟨hgrow, hm⟩ := h m rfl
    -- What `k` is given stays given, whether or not the other reading has got this far.
    obtain ⟨hgrow', -⟩ := hk m _ (alike_given m) n hn
    refine ⟨fun hl => hgrow' (hgrow hl), ?_⟩
    rcases hm with ⟨m', rfl, halike⟩ | ⟨hm, e, rfl⟩
    · exact (hk m m' halike n hn).2
    · exact .inr ⟨hgrow' hm, e, rfl⟩

theorem take_eq_ok_iff {m : Level} (p : Parameter) (value : Option String) :
    l.take p value = .ok m ↔ (p.isSwitch = true ∨ value ≠ none) ∧
      (p.repeatable = true ∨ l.has p.name = false) ∧ p.problem? (value.getD "") = none ∧
      m = { l with given := (p.name, value.getD "") :: l.given } := by
  unfold take
  cases p.isSwitch <;> cases value <;> cases p.repeatable <;> cases l.has p.name <;>
    simp <;> cases p.problem? _ <;> simp [eq_comm]

/-- An option that no environment variable gives is passed over. -/
theorem fill_cons_of_typed (environment : String → Option String) (l : Level) {p : Parameter}
    {ps : List Parameter} (h : p.envName = none) :
    l.fill environment (p :: ps) = l.fill environment ps := by
  have hnone : p.envName.bind environment = none := by simp [h]
  cases hhas : l.has p.name <;> simp [fill, hnone, hhas]

end

section

variable {l m : Level} {g : Grammar}

theorem settle_ok (h : l.settle = .ok m) :
    m.pending = none ∧ m.operands = l.operands ∧ m.closed = l.closed := by
  unfold settle at h
  split at h
  · cases h
    exact ⟨‹_›, rfl, rfl⟩
  · obtain ⟨-, -, -, rfl⟩ := (take_eq_ok_iff _ _).mp h
    exact ⟨rfl, rfl, rfl⟩

/-- What has been settled is settled for good. -/
theorem settle_settle (h : l.settle = .ok m) : m.settle = l.settle := by
  rw [h]
  unfold settle
  rw [(settle_ok h).1]

theorem waiting_settle (h : l.settle = .ok m) : m.waiting = false := by
  simp only [waiting, (settle_ok h).1]

theorem settleTake_settle (h : l.settle = .ok m) (p : Parameter) (value : Option String) :
    m.settleTake p value = l.settleTake p value := by
  unfold settleTake
  rw [settle_settle h]

theorem settleOpen_settle (h : l.settle = .ok m) (p : Parameter) (value : Option String) :
    m.settleOpen p value = l.settleOpen p value := by
  unfold settleOpen
  rw [settle_settle h]

theorem settleHelp_settle (h : l.settle = .ok m) : m.settleHelp = l.settleHelp := by
  unfold settleHelp
  rw [settle_settle h]

theorem operand_settle (h : l.settle = .ok m) (arg : String) :
    m.operand g arg = l.operand g arg := by
  unfold operand
  rw [(settle_ok h).2.1, (settle_ok h).2.2]
  simp only [settleOpen_settle h]

theorem long_settle (h : l.settle = .ok m) (cs : List Char) : m.long g cs = l.long g cs := by
  unfold long
  simp only [settleTake_settle h, settleOpen_settle h, settleHelp_settle h]

theorem shorts_settle (h : l.settle = .ok m) (c : Char) (cs : List Char) :
    m.shorts g (c :: cs) = l.shorts g (c :: cs) := by
  simp only [shorts, settleTake_settle h, settleOpen_settle h, settleHelp_settle h]

theorem finish_settle (h : l.settle = .ok m) (environment : String → Option String)
    (entered : Bool) : m.finish environment g entered = l.finish environment g entered := by
  unfold finish
  rw [settle_settle h]

theorem settle_close (h : l.settle = .ok m) (closed : Bool) :
    { l with closed := closed }.settle = .ok { m with closed := closed } := by
  unfold settle at h ⊢
  split at h
  · rename_i hnone
    cases h
    simp only [hnone]
  · rename_i p value hsome
    obtain ⟨hvalue, hnew, hgood, rfl⟩ := (take_eq_ok_iff p value).mp h
    simp only [hsome]
    exact (take_eq_ok_iff p value).mpr ⟨hvalue, hnew, hgood, rfl⟩

/-- An argument settles what was left open, unless it only says that operands follow. -/
theorem step_settle (h : l.settle = .ok m) (hwaiting : l.waiting = false) {arg : String}
    {l' : Level} (hstep : l.step g arg = .ok l') :
    ∃ m', m.step g arg = .ok m' ∧ (m' = l' ∨ l'.waiting = false ∧ l'.settle = .ok m') := by
  have hpending : ∀ p, l.pending ≠ some (p, none) := by
    intro p hp
    simp [waiting, hp] at hwaiting
  unfold step at hstep ⊢
  rw [(settle_ok h).2.2, (settle_ok h).1]
  split at hstep
  · rename_i hclosed
    rw [if_pos hclosed]
    exact ⟨l', (operand_settle h arg).trans hstep, .inl rfl⟩
  rename_i hclosed
  rw [if_neg hclosed]
  split at hstep
  · cases hstep
    exact ⟨{ m with closed := true }, by rw [← (settle_ok h).1],
      .inr ⟨hwaiting, settle_close h true⟩⟩
  · exact ⟨l', (long_settle h _).trans hstep, .inl rfl⟩
  · exact ⟨l', (shorts_settle h _ _).trans hstep, .inl rfl⟩
  · split at hstep
    · exact absurd ‹_› (hpending _)
    · exact ⟨l', (operand_settle h arg).trans hstep, .inl rfl⟩

theorem not_settleHelp : l.settleHelp ≠ .ok m := by
  intro h
  obtain ⟨n, -, hn⟩ := ok_of_bind h
  cases hn

end

end Level

/-- The switch was also given, somewhere among what was given. -/
structure Parsed.WithJson (p p' : Parsed) : Prop where
  path : p'.path = p.path
  given : ∃ before after, p.given = before ++ after ∧
    p'.given = before ++ ("json", "") :: after

namespace Grammar

variable {environment : String → Option String} {g : Grammar} {l l' m : Level} {args : List String}
  {p p' : Parsed}

/-- To settle early what was left open changes nothing about a reading that succeeds. -/
theorem parseFrom_settle (h : l.settle = .ok m) (hwaiting : l.waiting = false)
    (hp : parseFrom environment g l args = .ok p) : parseFrom environment g m args = .ok p := by
  induction args generalizing l m with
  | nil =>
    unfold parseFrom at hp ⊢
    rwa [Level.finish_settle h]
  | cons arg rest ih =>
    unfold parseFrom at hp ⊢
    rw [(Level.settle_ok h).2.2, Level.waiting_settle h, Level.finish_settle h]
    rw [hwaiting] at hp
    split at hp
    · exact hp
    · split at hp
      · cases hp
      · rename_i hhelp
        rw [if_neg hhelp]
        obtain ⟨l', hstep, hrest⟩ := ok_of_bind hp
        obtain ⟨m', hstep', rfl | ⟨hwaiting', hsettle⟩⟩ := Level.step_settle h hwaiting hstep
        · rw [hstep']
          exact hrest
        · rw [hstep']
          exact ih hsettle hwaiting' hrest

end Grammar

namespace Parsed.WithJson

variable {p p' : Parsed}

theorem has (h : p.WithJson p') {name : String} (hname : name ≠ "json") :
    p'.has name = p.has name := by
  obtain ⟨before, after, hgiven, hgiven'⟩ := h.given
  simp [Parsed.has, hgiven, hgiven', hname.symm]

theorem value? (h : p.WithJson p') {name : String} (hname : name ≠ "json") :
    p'.value? name = p.value? name := by
  obtain ⟨before, after, hgiven, hgiven'⟩ := h.given
  simp [Parsed.value?, hgiven, hgiven', List.find?_append, hname.symm]

theorem values (h : p.WithJson p') {name : String} (hname : name ≠ "json") :
    p'.values name = p.values name := by
  obtain ⟨before, after, hgiven, hgiven'⟩ := h.given
  simp [Parsed.values, hgiven, hgiven', hname.symm]

theorem settings (h : p.WithJson p') : p'.settings = p.settings := by
  simp [Parsed.settings, Parsed.read, h.value?]

theorem request? (h : p.WithJson p') : Invocation.request? p' = Invocation.request? p := by
  simp [Invocation.request?, Invocation.startRequest, Invocation.jobArguments, Parsed.read, h.path,
    h.value?, h.values, h.has]

end Parsed.WithJson

namespace Invocation

variable {environment : String → Option String} {args before after : List String}
  {i j : Invocation}

theorem parse_eq_ok_iff : parse environment args = .ok i ↔
    ∃ p, grammar.parse environment args = .ok p ∧ request? p = some i.request ∧
      i.settings = p.settings ∧ i.json = p.has "json" := by
  constructor
  · intro h
    obtain ⟨p, hp, h⟩ := ok_of_bind h
    refine ⟨p, hp, ?_⟩
    split at h
    · rename_i request hrequest
      cases h
      exact ⟨hrequest, rfl, rfl⟩
    · cases h
  · rintro ⟨p, hp, hrequest, hsettings, hjson⟩
    unfold parse
    simp only [hp, bind, Except.bind, hrequest, ← hsettings, ← hjson]
    rfl

end Invocation

end RobotDesk.CommandLine
