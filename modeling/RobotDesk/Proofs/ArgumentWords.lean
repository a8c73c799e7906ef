import RobotDesk.Proofs.ArgumentText
import RobotDesk.Proofs.JsonSwitch

/-!
Arguments for a job among the words of a command line.

An argument is typed as `--arg=key=text`.  The key ends at the first `=`; the text is taken as the
JSON value that it spells, and as a string if it spells none.  Arguments may stand anywhere among
the other words of `job start`, as long as options are taken there.  To show this, two readings of
the words are followed side by side, one of them without the arguments: they are given the same
options and operands, and apart from these the other is given the arguments, in their order.
-/
namespace RobotDesk.CommandLine

open Json

/-- What is typed behind the first `=` of an argument: the compact text of a value, or any text. -/
inductive Typed where
  | value (d : Document)
  | text (raw : String)

namespace Typed

/-- The text as it is typed. -/
def raw : Typed → String
  | .value d => d.value.render
  | .text raw => raw

/-- What the job is to be given for it. -/
def document : Typed → Document
  | .value d => d
  | .text raw => .string raw

/-- A value that is read back, as deep as the reader goes; or a text that spells no value. -/
def Fits : Typed → Prop
  | .value d => d.value.Portable ∧ d.value.nesting ≤ 127
  | .text raw => ∀ d, Json.parse raw ≠ .ok d

theorem parse?_raw {t : Typed} (h : t.Fits) :
    (Json.parse? t.raw).getD (.string t.raw) = t.document := by
  cases t with
  | value d =>
    have hparse : Json.parse d.value.render = .ok d := (h.1.parse_render_iff).mpr h.2
    rw [raw, Json.parse?, hparse]
    rfl
  | text raw =>
    cases hparse : Json.parse raw with
    | error f =>
      rw [Typed.raw, Json.parse?, hparse]
      rfl
    | ok d => exact absurd hparse (h d)

end Typed

section Pair

variable {k : String} (hk : '=' ∉ k.toList)

include hk

theorem ne_equals : ∀ c ∈ k.toList, decide (c ≠ '=') = true := by
  intro c hc
  apply decide_eq_true
  rintro rfl
  exact hk hc

theorem pair?_of_no_equals : pair? k = none := by
  have hnone : k.toList.dropWhile (· ≠ '=') = [] := by
    rw [← List.append_nil k.toList, List.dropWhile_append_of_pos (ne_equals hk)]
    rfl
  unfold pair?
  rw [hnone]

/-- The key ends at the first `=`, also if there are more in the text. -/
theorem pair?_typed {t : Typed} (h : t.Fits) :
    pair? (k ++ "=" ++ t.raw) = some (k, t.document) := by
  have hletters : (k ++ "=" ++ t.raw).toList = k.toList ++ '=' :: t.raw.toList := by simp
  have hdrop : (k ++ "=" ++ t.raw).toList.dropWhile (· ≠ '=') = '=' :: t.raw.toList := by
    rw [hletters, List.dropWhile_append_of_pos (ne_equals hk)]
    rfl
  have htake : (k ++ "=" ++ t.raw).toList.takeWhile (· ≠ '=') = k.toList := by
    rw [hletters, List.takeWhile_append_of_pos (ne_equals hk),
      List.takeWhile_cons_of_neg (by decide), List.append_nil]
  unfold pair?
  rw [hdrop, htake]
  simp only [String.ofList_toList, Typed.parse?_raw h]

end Pair

/-- A word of a command line: an argument for the job, or any other. -/
inductive Word where
  | argument (key : String) (typed : Typed)
  | other (text : String)

namespace Word

def text : Word → String
  | .argument key typed => "--arg=" ++ (key ++ "=" ++ typed.raw)
  | .other text => text

def other? : Word → Option String
  | .argument _ _ => none
  | .other text => some text

def pair? : Word → Option (String × Document)
  | .argument key typed => some (key, typed.document)
  | .other _ => none

end Word

/-- The line without its arguments. -/
def others (line : List Word) : List String := line.filterMap Word.other?

/-- The arguments of a line, with their values. -/
def pairsOf (line : List Word) : List (String × Document) := line.filterMap Word.pair?

/-- The arguments among what was given, the latest first. -/
def argumentsOf (given : List (String × String)) : List (String × Document) :=
  given.filterMap fun item => if item.1 = "arg" then pair? item.2 else none

/-- What was given apart from arguments. -/
def restOf (given : List (String × String)) : List (String × String) :=
  given.filter (·.1 ≠ "arg")

theorem jobArguments_eq (p : Parsed) :
    Invocation.jobArguments p = .ofPairs (argumentsOf p.given).reverse := by
  have hpairs : (p.values "arg").filterMap pair? = (argumentsOf p.given).reverse := by
    rw [Parsed.values, List.filterMap_reverse, List.filterMap_map, List.filterMap_filter]
    simp [argumentsOf]
  rw [Invocation.jobArguments, hpairs]

/-- The same was given apart from arguments; and if no other arguments were given, then these. -/
structure Carries (pairs : List (String × Document)) (given given' : List (String × String)) :
    Prop where
  rest : restOf given' = restOf given
  arguments : argumentsOf given = [] → argumentsOf given' = pairs.reverse

namespace Carries

variable {pairs : List (String × Document)} {given given' : List (String × String)}

theorem refl (given : List (String × String)) : Carries [] given given := ⟨rfl, fun h => h⟩

theorem cons (h : Carries pairs given given') (item : String × String) :
    Carries pairs (item :: given) (item :: given') := by
  constructor
  · simp only [restOf, List.filter_cons]
    rw [← restOf, ← restOf, h.rest]
  · intro hnone
    simp only [argumentsOf, List.filterMap_cons] at hnone ⊢
    split at hnone
    · exact h.arguments hnone
    · cases hnone

theorem append (h : Carries pairs given given') (before : List (String × String)) :
    Carries pairs (before ++ given) (before ++ given') := by
  induction before with
  | nil => exact h
  | cons item before ih => exact ih.cons item

/-- One more argument is given. -/
theorem argument (h : Carries pairs given given') {text : String} {x : String × Document}
    (hx : pair? text = some x) : Carries (pairs ++ [x]) given (("arg", text) :: given') := by
  constructor
  · exact h.rest
  · intro hnone
    have hmore : argumentsOf (("arg", text) :: given') = x :: argumentsOf given' := by
      simp [argumentsOf, hx]
    rw [hmore, h.arguments hnone, List.reverse_append]
    rfl

theorem any (h : Carries pairs given given') {name : String} (hname : name ≠ "arg") :
    given'.any (·.1 = name) = given.any (·.1 = name) := by
  have hrest (items : List (String × String)) :
      (restOf items).any (·.1 = name) = items.any (·.1 = name) := by
    simp only [restOf, List.any_filter]
    congr 1
    funext item
    by_cases hitem : item.1 = name <;> simp [hitem, hname]
  rw [← hrest, h.rest, hrest]

theorem find? (h : Carries pairs given given') {name : String} (hname : name ≠ "arg") :
    given'.find? (·.1 = name) = given.find? (·.1 = name) := by
  have hrest (items : List (String × String)) :
      (restOf items).find? (·.1 = name) = items.find? (·.1 = name) := by
    simp only [restOf, List.find?_filter]
    congr 1
    funext item
    by_cases hitem : item.1 = name <;> simp [hitem, hname]
  rw [← hrest, h.rest, hrest]

end Carries

/-- Arguments can be given again. -/
def Parameter.Repeats (p : Parameter) : Prop := p.name = "arg" → p.repeatable = true

namespace Level

/-- Two levels of which the second was also given arguments, and that are alike in all else. -/
structure Beside (pairs : List (String × Document)) (l l' : Level) : Prop where
  given : Carries pairs l.given l'.given
  pending : l'.pending = l.pending
  operands : l'.operands = l.operands
  closed : l'.closed = l.closed
  repeatsPending : ∀ p value, l.pending = some (p, value) → p.Repeats
  repeatsOperands : ∀ p ∈ l.operands, p.Repeats

/-- Both levels come to the same: an error, or levels that again differ by these arguments. -/
inductive Agree (pairs : List (String × Document)) :
    Except UsageError Level → Except UsageError Level → Prop where
  | ok {m m' : Level} (h : Beside pairs m m') : Agree pairs (.ok m) (.ok m')
  | error (e : UsageError) : Agree pairs (.error e) (.error e)

section Agree

variable {pairs : List (String × Document)} {l l' : Level}

theorem Agree.bind {r r' : Except UsageError Level} {k : Level → Except UsageError Level}
    (h : Agree pairs r r') (hk : ∀ m m', Beside pairs m m' → Agree pairs (k m) (k m')) :
    Agree pairs (r >>= k) (r' >>= k) := by
  cases h with
  | ok h => exact hk _ _ h
  | error e => exact .error e

theorem Agree.of_ok {m : Level} {r' : Except UsageError Level} (h : Agree pairs (.ok m) r') :
    ∃ m', r' = .ok m' ∧ Beside pairs m m' := by
  cases h with
  | ok h => exact ⟨_, rfl, h⟩

theorem take_agree {p : Parameter} (value : Option String) (h : Beside pairs l l')
    (hp : p.Repeats) : Agree pairs (l.take p value) (l'.take p value) := by
  have hnew : (!p.repeatable && l'.has p.name) = (!p.repeatable && l.has p.name) := by
    by_cases hname : p.name = "arg"
    · simp [hp hname]
    · rw [Level.has, h.given.any hname]
      rfl
  unfold take
  rw [hnew]
  split
  · exact .error _
  split
  · exact .error _
  simp only
  split
  · exact .error _
  · exact .ok ⟨h.given.cons _, h.pending, h.operands, h.closed, h.repeatsPending,
      h.repeatsOperands⟩

/-- A step leads both levels to the same. -/
theorem lifts_agree (pairs : List (String × Document)) :
    Lifts Parameter.Repeats (Beside pairs) (fun _ => Agree pairs) where
  same h := ⟨h.pending, h.operands, h.closed⟩
  knownPending h := h.repeatsPending
  knownOperands h := h.repeatsOperands
  pending _ h hq := ⟨h.given, rfl, h.operands, h.closed, hq, h.repeatsOperands⟩
  operands _ h hps := ⟨h.given, h.pending, rfl, h.closed, h.repeatsPending, hps⟩
  closed h := ⟨h.given, h.pending, h.operands, rfl, h.repeatsPending, h.repeatsOperands⟩
  ok h _ := .ok h
  error := .error
  given _ h := h
  bind := .bind
  take := take_agree

theorem fill_of_typed (environment : String → Option String) (l : Level) {ps : List Parameter}
    (h : ∀ p ∈ ps, p.envName = none) : l.fill environment ps = .ok l := by
  induction ps with
  | nil => rfl
  | cons p ps ih =>
    rw [fill_cons_of_typed environment l (h p List.mem_cons_self)]
    exact ih fun q hq => h q (List.mem_cons_of_mem p hq)

/-- The options of `job start` come from no environment variables, so both levels end alike. -/
theorem finish_agree (environment : String → Option String) (h : Beside pairs l l') :
    Agree pairs (l.finish environment Invocation.startGrammar false)
      (l'.finish environment Invocation.startGrammar false) := by
  have htyped : ∀ p ∈ Invocation.startGrammar.options, p.envName = none := by decide
  refine ((lifts_agree pairs).settle h).bind fun m m' hm => ?_
  rw [fill_of_typed environment m htyped, fill_of_typed environment m' htyped]
  refine Agree.bind (.ok hm) fun n n' hn => ?_
  rw [hn.operands]
  split
  · rename_i hcommands
    cases hcommands
  split
  · exact .error _
  · exact .ok hn

end Agree

end Level

namespace Invocation

/-- The option that gives an argument to the job. -/
def argOption : Parameter := { typed "arg" pair? (some 'a') none with repeatable := true }

theorem startGrammar_repeats : ∀ p ∈ startGrammar.options, p.Repeats := by
  unfold Parameter.Repeats
  decide

theorem step_argument {l : Level} (hclosed : l.closed = false) (text : String) :
    l.step startGrammar ("--arg=" ++ text) = l.settleTake argOption (some text) := by
  have hletters : ("--arg=" ++ text).toList =
      '-' :: '-' :: (['a', 'r', 'g'] ++ '=' :: text.toList) := by simp
  have hname : String.ofList ((['a', 'r', 'g'] ++ '=' :: text.toList).takeWhile (· ≠ '=')) =
      "arg" := by rfl
  have hvalue : (['a', 'r', 'g'] ++ '=' :: text.toList).dropWhile (· ≠ '=') =
      '=' :: text.toList := by rfl
  have hknown : startGrammar.long? "arg" = some argOption := by rfl
  have hlong : l.step startGrammar ("--arg=" ++ text) =
      l.long startGrammar (['a', 'r', 'g'] ++ '=' :: text.toList) := by
    rw [Level.step, if_neg (by simp [hclosed]), hletters]
    rfl
  rw [hlong, Level.long, hname, hvalue, hknown]
  change l.settleTake argOption (some (String.ofList text.toList)) = _
  rw [String.ofList_toList]

/-- A key with a text behind `=` is given, however often there was one before. -/
theorem step_pair {l m : Level} {text : String} {x : String × Document} (hclosed : l.closed = false)
    (hsettle : l.settle = .ok m) (h : pair? text = some x) :
    l.step startGrammar ("--arg=" ++ text) =
      .ok { m with given := ("arg", text) :: m.given } := by
  rw [step_argument hclosed, Level.settleTake, hsettle]
  change m.take argOption (some text) = _
  simp [Level.take, argOption, typed, h]

end Invocation

namespace Grammar

open Invocation (startGrammar)

variable {environment : String → Option String} {g : Grammar} {l l' m : Level}
  {pairs : List (String × Document)} {line : List Word} {p : Parsed}

/-- Words lead from a level to a level of the same grammar, or of that of a command among them. -/
inductive Leads : Grammar → Level → List String → Grammar → Level → Prop where
  | done (g : Grammar) (l : Level) : Leads g l [] g l
  | command {g sub g' : Grammar} {l l' : Level} {name : String} {words : List String}
      (found : (if l.closed || l.waiting then none else g.command? name) = some sub)
      (rest : Leads sub { operands := sub.operands } words g' l') :
      Leads g l (name :: words) g' l'
  | step {g g' : Grammar} {l m l' : Level} {word : String} {words : List String}
      (none : (if l.closed || l.waiting then none else g.command? word) = none)
      (noHelp : (word = "help" && !g.commands.isEmpty && !l.closed && !l.waiting) = false)
      (taken : l.step g word = .ok m) (rest : Leads g m words g' l') :
      Leads g l (word :: words) g' l'

/-- After some words an option of `job start` can be typed: the words lead there, what they left
open is in order, no option waits for its value, and not only operands follow. -/
inductive OptionsFollow (g : Grammar) (l : Level) (words : List String) : Prop where
  | intro {l' m : Level} (leads : Leads g l words startGrammar l') (unclosed : l'.closed = false)
      (complete : l'.waiting = false) (settles : l'.settle = .ok m)

theorem parseFrom_step {word : String}
    (hnone : (if l.closed || l.waiting then none else g.command? word) = none)
    (hhelp : (word = "help" && !g.commands.isEmpty && !l.closed && !l.waiting) = false)
    (rest : List String) : parseFrom environment g l (word :: rest) =
      l.step g word >>= fun m => parseFrom environment g m rest := by
  rw [parseFrom, hnone]
  simp only [hhelp, Bool.false_eq_true, if_false]

/-- What is wrong behind some words is wrong with the whole. -/
theorem Leads.parseFrom_error {g' : Grammar} {words rest : List String} {e : UsageError}
    (h : Leads g l words g' l') (he : parseFrom environment g' l' rest = .error e) :
    parseFrom environment g l (words ++ rest) = .error e := by
  induction h with
  | done g l => exact he
  | command found _ ih =>
    rw [List.cons_append, parseFrom, found]
    simp only [ih he]
    rfl
  | step none noHelp taken _ ih =>
    rw [List.cons_append, parseFrom_step none noHelp, taken]
    exact ih he

/-- No word of `job start` names a command. -/
theorem no_command (l : Level) (word : String) :
    (if l.closed || l.waiting then none else startGrammar.command? word) = none := ite_self _

theorem no_help (l : Level) (word : String) :
    (word = "help" && !startGrammar.commands.isEmpty && !l.closed && !l.waiting) = false := by
  simp [show startGrammar.commands = [] from rfl]

theorem parseFrom_start (l : Level) (word : String) (rest : List String) :
    parseFrom environment startGrammar l (word :: rest) =
      l.step startGrammar word >>= fun m => parseFrom environment startGrammar m rest :=
  parseFrom_step (no_command l word) (no_help l word) rest

namespace OptionsFollow

theorem of_command {sub : Grammar} {word : String} {words : List String}
    (found : (if l.closed || l.waiting then none else g.command? word) = some sub)
    (h : OptionsFollow g l (word :: words)) :
    OptionsFollow sub { operands := sub.operands } words := by
  obtain ⟨leads, unclosed, complete, settles⟩ := h
  cases leads with
  | command found' rest =>
    cases found.symm.trans found'
    exact ⟨rest, unclosed, complete, settles⟩
  | step none => cases found.symm.trans none

theorem of_step {word : String} {words : List String}
    (hnone : (if l.closed || l.waiting then none else g.command? word) = none)
    (taken : l.step g word = .ok m) (h : OptionsFollow g l (word :: words)) :
    OptionsFollow g m words := by
  obtain ⟨leads, unclosed, complete, settles⟩ := h
  cases leads with
  | command found => cases hnone.symm.trans found
  | step none noHelp taken' rest =>
    cases taken.symm.trans taken'
    exact ⟨rest, unclosed, complete, settles⟩

/-- To settle early what was left open does not change where options can be typed. -/
theorem settle {words : List String} (hsettle : l.settle = .ok m) (hwaiting : l.waiting = false)
    (h : OptionsFollow startGrammar l words) : OptionsFollow startGrammar m words := by
  induction words generalizing l m with
  | nil =>
    obtain ⟨leads, unclosed, -, -⟩ := h
    cases leads
    exact ⟨.done _ m, (Level.settle_ok hsettle).2.2.trans unclosed, Level.waiting_settle hsettle,
      (Level.settle_settle hsettle).trans hsettle⟩
  | cons word words ih =>
    have ⟨leads, unclosed, complete, settles⟩ := h
    cases leads with
    | command found => cases (no_command l word).symm.trans found
    | step none noHelp taken rest =>
      obtain ⟨m', taken', rfl | ⟨hwaiting', hsettle'⟩⟩ := Level.step_settle hsettle hwaiting taken
      · exact ⟨.step (no_command m word) (no_help m word) taken' rest, unclosed, complete, settles⟩
      · obtain ⟨leads, unclosed, complete, settles⟩ :=
          ih hsettle' hwaiting' ⟨rest, unclosed, complete, settles⟩
        exact ⟨.step (no_command m word) (no_help m word) taken' leads, unclosed, complete, settles⟩

end OptionsFollow

/-- Each argument of a line stands where an option of `job start` can be typed after the other words
before it. -/
def Placed (g : Grammar) (l : Level) (line : List Word) : Prop :=
  ∀ before key typed after, line = before ++ .argument key typed :: after →
    OptionsFollow g l (others before)

namespace Placed

theorem head {key : String} {typed : Typed} (h : Placed g l (.argument key typed :: line)) :
    OptionsFollow g l [] := h [] key typed line rfl

theorem of_argument {key : String} {typed : Typed} (h : Placed g l (.argument key typed :: line)) :
    Placed g l line := by
  rintro before key' typed' after rfl
  exact h (.argument key typed :: before) key' typed' after rfl

theorem of_other {g' : Grammar} {word : String} (h : Placed g l (.other word :: line))
    (hfollow : ∀ words, OptionsFollow g l (word :: words) → OptionsFollow g' l' words) :
    Placed g' l' line := by
  rintro before key typed after rfl
  exact hfollow _ (h (.other word :: before) key typed after rfl)

end Placed

/-- The keys of a line have no `=`, and what is typed behind them is read as it is meant. -/
def Readable (line : List Word) : Prop :=
  ∀ key typed, Word.argument key typed ∈ line → '=' ∉ key.toList ∧ typed.Fits

theorem Readable.tail {word : Word} (h : Readable (word :: line)) : Readable line :=
  fun key typed hmem => h key typed (List.mem_cons_of_mem word hmem)

/-- In `job start` the arguments of a line are given besides what the other words give. -/
theorem parseFrom_beside (h : Level.Beside pairs l l') (hplaced : Placed startGrammar l line)
    (hreadable : Readable line)
    (hp : parseFrom environment startGrammar l (others line) = .ok p) :
    ∃ p', parseFrom environment startGrammar l' (line.map Word.text) = .ok p' ∧
      p'.path = p.path ∧ Carries (pairs ++ pairsOf line) p.given p'.given := by
  induction line generalizing l l' pairs with
  | nil =>
    obtain ⟨m, hfinish, hm⟩ := ok_of_bind hp
    cases hm
    obtain ⟨m', hfinish', hm⟩ := (hfinish ▸ Level.finish_agree environment h).of_ok
    refine ⟨⟨[], m'.given⟩, ?_, rfl, ?_⟩
    · change l'.finish environment startGrammar false >>= _ = _
      rw [hfinish']
      rfl
    · rw [pairsOf, List.filterMap_nil, List.append_nil]
      exact hm.given
  | cons word line ih =>
    cases word with
    | other word =>
      change parseFrom environment startGrammar l (word :: others line) = .ok p at hp
      rw [parseFrom_start] at hp
      obtain ⟨m, hstep, hrest⟩ := ok_of_bind hp
      have hagree := (Level.lifts_agree pairs).step h Invocation.startGrammar_repeats word
      obtain ⟨m', hstep', hm⟩ := (hstep ▸ hagree).of_ok
      have hplaced' : Placed startGrammar m line :=
        hplaced.of_other fun _ => .of_step (no_command l word) hstep
      obtain ⟨p', hp', hpath, hcarries⟩ := ih hm hplaced' hreadable.tail hrest
      refine ⟨p', ?_, hpath, hcarries⟩
      change parseFrom environment startGrammar l' (word :: line.map Word.text) = .ok p'
      rw [parseFrom_start, hstep']
      exact hp'
    | argument key typed =>
      obtain ⟨leads, unclosed, complete, settles⟩ := hplaced.head
      cases leads
      rename_i m
      obtain ⟨m', hsettle', hm⟩ := (settles ▸ (Level.lifts_agree pairs).settle h).of_ok
      obtain ⟨hkey, hfits⟩ := hreadable key typed List.mem_cons_self
      have hpair := pair?_typed hkey hfits
      -- The other reading has nothing to take here; it settles what it left open already now.
      have hrest := parseFrom_settle settles complete hp
      have hplaced' : Placed startGrammar m line :=
        fun before key typed after hline =>
          (hplaced.of_argument before key typed after hline).settle settles complete
      have hmore : Level.Beside (pairs ++ [(key, typed.document)]) m
          { m' with given := ("arg", key ++ "=" ++ typed.raw) :: m'.given } :=
        ⟨hm.given.argument hpair, hm.pending, hm.operands, hm.closed, hm.repeatsPending,
          hm.repeatsOperands⟩
      obtain ⟨p', hp', hpath, hcarries⟩ := ih hmore hplaced' hreadable.tail hrest
      refine ⟨p', ?_, hpath, ?_⟩
      · change parseFrom environment startGrammar l'
          (("--arg=" ++ (key ++ "=" ++ typed.raw)) :: line.map Word.text) = .ok p'
        rw [parseFrom_start, Invocation.step_pair (h.closed.trans unclosed) hsettle' hpair]
        exact hp'
      · rw [List.append_assoc] at hcarries
        exact hcarries

/-- A level with which `job start` begins. -/
theorem beside_start : Level.Beside [] { operands := startGrammar.operands }
    { operands := startGrammar.operands } :=
  ⟨.refl [], rfl, rfl, rfl, by simp, by unfold Parameter.Repeats; decide⟩

/-- Wherever a line begins, its arguments are given besides what the other words give. -/
theorem parseFrom_line (hl : g = startGrammar → Level.Beside [] l l) (hplaced : Placed g l line)
    (hreadable : Readable line) (hp : parseFrom environment g l (others line) = .ok p) :
    ∃ p', parseFrom environment g l (line.map Word.text) = .ok p' ∧
      p'.path = p.path ∧ Carries (pairsOf line) p.given p'.given := by
  induction line generalizing g l p with
  | nil => exact ⟨p, hp, rfl, .refl _⟩
  | cons word line ih =>
    cases word with
    | other word =>
      change parseFrom environment g l (word :: others line) = .ok p at hp
      change ∃ p', parseFrom environment g l (word :: line.map Word.text) = .ok p' ∧ _
      rw [parseFrom] at hp ⊢
      split at hp
      · rename_i sub hsub
        obtain ⟨inner, hinner, hp⟩ := ok_of_bind hp
        obtain ⟨m, hfinish, hm⟩ := ok_of_bind hp
        cases hm
        have hfresh : sub = startGrammar →
            Level.Beside [] { operands := sub.operands } { operands := sub.operands } := by
          rintro rfl
          exact beside_start
        obtain ⟨inner', hinner', hpath, hcarries⟩ :=
          ih hfresh (hplaced.of_other fun _ => .of_command hsub) hreadable.tail hinner
        refine ⟨⟨word :: inner'.path, m.given ++ inner'.given⟩, ?_, by rw [hpath],
          hcarries.append m.given⟩
        rw [hinner', hfinish]
        rfl
      · rename_i hsub
        split at hp
        · cases hp
        · rename_i hhelp
          rw [if_neg hhelp]
          obtain ⟨m, hstep, hrest⟩ := ok_of_bind hp
          have hm : g = startGrammar → Level.Beside [] m m := by
            rintro rfl
            have hagree := (Level.lifts_agree []).step (hl rfl) Invocation.startGrammar_repeats word
            obtain ⟨m', hm', hm⟩ := (hstep ▸ hagree).of_ok
            cases hm'
            exact hm
          rw [hstep]
          exact ih hm (hplaced.of_other fun _ => .of_step hsub hstep) hreadable.tail hrest
    | argument key typed =>
      have hstart := hplaced.head
      obtain ⟨leads, -, -, -⟩ := hstart
      cases leads
      exact parseFrom_beside (hl rfl) hplaced hreadable hp

end Grammar

end RobotDesk.CommandLine
