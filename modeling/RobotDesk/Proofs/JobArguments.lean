import RobotDesk.Proofs.ArgumentWords
import RobotDesk.Proofs.MarkedRequest
import RobotDesk.Proofs.OutputFormat

/-!
What the arguments on a command line come to.

A line with arguments asks for the same job as the line without them, with a map in which each key
has the value that was typed last, and this is the job that is started.  An argument without `=` is
refused, in whatever way it is typed and whatever comes after it, and then nothing is done.
-/
namespace RobotDesk.CommandLine

open Json

namespace Carries

variable {pairs : List (String × Document)} {p p' : Parsed}

theorem value? (h : Carries pairs p.given p'.given) {name : String} (hname : name ≠ "arg") :
    p'.value? name = p.value? name := by
  rw [Parsed.value?, h.find? hname]
  rfl

theorem has (h : Carries pairs p.given p'.given) {name : String} (hname : name ≠ "arg") :
    p'.has name = p.has name := h.any hname

theorem settings (h : Carries pairs p.given p'.given) : p'.settings = p.settings := by
  simp [Parsed.settings, Parsed.read, h.value?]

end Carries

namespace Invocation

variable {environment : String → Option String} {line : List Word} {i : Invocation}
  {r : JobRequest} {wait : Option Nat}

theorem startRequest_of_request? {p : Parsed} (h : request? p = some (.startJob r wait)) :
    p.path = ["job", "start"] ∧ startRequest p = .startJob r wait := by
  unfold request? at h
  split at h
  · exact ⟨‹_›, Option.some.inj h⟩
  all_goals cases h

/-- With arguments besides, the same job is asked for, with these arguments. -/
theorem request?_of_carries {pairs : List (String × Document)} {p p' : Parsed}
    (hpath : p'.path = p.path) (h : Carries pairs p.given p'.given)
    (hr : request? p = some (.startJob r wait)) (hnone : r.inputArguments = .empty) :
    request? p' =
      some (.startJob { r with inputArguments := .ofPairs pairs } wait) := by
  obtain ⟨hstart, hrequest⟩ := startRequest_of_request? hr
  cases hrequest
  have hempty : argumentsOf p.given = [] := by
    rw [← List.reverse_eq_nil_iff]
    exact Members.eq_nil_of_ofPairs ((jobArguments_eq p).symm.trans hnone)
  have harguments : jobArguments p' = .ofPairs pairs := by
    rw [jobArguments_eq, h.arguments hempty, List.reverse_reverse]
  rw [request?, hpath, hstart]
  simp [startRequest, harguments, Parsed.read, h.value?, h.has]

theorem parse_line (hplaced : Grammar.Placed grammar { operands := grammar.operands } line)
    (hreadable : Grammar.Readable line) (hi : parse environment (others line) = .ok i)
    (hr : i.request = .startJob r wait) (hnone : r.inputArguments = .empty) :
    let arguments := Members.ofPairs (pairsOf line)
    parse environment (line.map Word.text) =
      .ok { i with request := .startJob { r with inputArguments := arguments } wait } := by
  have hother : grammar = startGrammar → Level.Beside [] { operands := grammar.operands }
      { operands := grammar.operands } := by
    intro heq
    have hcommands : startGrammar.commands.isEmpty = false := heq ▸ rfl
    cases hcommands
  obtain ⟨p, hp, hrequest, hsettings, hjson⟩ := parse_eq_ok_iff.mp hi
  obtain ⟨p', hp', hpath, hcarries⟩ := Grammar.parseFrom_line hother hplaced hreadable hp
  rw [hr] at hrequest
  refine parse_eq_ok_iff.mpr ⟨p', hp', request?_of_carries hpath hcarries hrequest hnone, ?_, ?_⟩
  · rw [hcarries.settings, ← hsettings]
  · rw [hcarries.has (by decide), ← hjson]

end Invocation

section Calls

open Time (nanosPerSecond)

variable {σ : Type} (b : Backend σ) (w : World σ)

theorem finish_snd {α : Type} (work : Work σ α) (context : List String) (before : List Print)
    (after : α → Showing) (w : World σ) : (finish work context before after w).2 = (work w).2 := by
  unfold finish
  split <;> rename_i hwork <;> rw [hwork]

theorem waitFor_lookups (json : Bool) (wait : Nat) (job : JobRecord) :
    ∃ visits, (waitFor b json wait job w).2.calls = w.calls ++ visits ∧
      Polling.Lookups visits := by
  rw [waitFor, finish_snd]
  rcases Nat.lt_or_ge w.last (w.now + wait * nanosPerSecond) with huntold | htold
  · rw [awaitEnd_of_lt huntold]
    exact ⟨[], (List.append_nil _).symm, [], rfl⟩
  · rw [awaitEnd_of_le htold]
    exact (Polling.concludes_of_untilTerminal rfl).calls_eq

/-- A job is started once, with the request that was made, unless its process key is blank. -/
theorem startTask_started (json : Bool) (r : JobRequest) (wait : Option Nat) :
    ∃ visits, (startTask b json r wait w).2.calls = w.calls ++ visits ∧
      (started visits = [r] ∨ visits = [] ∧ Text.isBlankText r.processKey = true) := by
  cases hproblem : Desk.problem? (.startJob r) with
  | some reason =>
    have hrefused := congrFun (Desk.operate_of_problem hproblem b) w
    refine ⟨[], ?_, .inr ⟨rfl, (Desk.problem?_startJob hproblem).1⟩⟩
    rw [startTask, show Desk.startJob b r w = _ from hrefused, List.append_nil]
    rfl
  | none =>
    have hasked := congrFun (Desk.operate_of_no_problem hproblem b) w
    have hcalls := Session.calls_ask b (.startJob r) w
    rw [← hasked] at hcalls
    unfold startTask
    split
    · rename_i f v hstart
      rw [show Desk.operate b (.startJob r) w = _ from hstart] at hcalls
      exact ⟨_, hcalls, .inl rfl⟩
    · rename_i job v hstart
      rw [show Desk.operate b (.startJob r) w = _ from hstart] at hcalls
      split
      · exact ⟨_, hcalls, .inl rfl⟩
      · rename_i wait
        obtain ⟨visits, hwait, hlookups⟩ := waitFor_lookups b v json wait job
        rw [hcalls, List.append_assoc] at hwait
        refine ⟨_, hwait, .inl ?_⟩
        rw [started_append, hlookups.started_eq_nil]
        rfl

/-- A command that starts a job starts no other, and starts it if its settings are in order. -/
theorem Invocation.perform_started (files : String → Except FileFault String) {i : Invocation}
    {r : JobRequest} {wait : Option Nat} (hr : i.request = .startJob r wait) :
    ∃ visits, (i.perform files b w).2.calls = w.calls ++ visits ∧
      (i.settings.check = .ok () → Text.isBlankText r.processKey = false → started visits = [r]) ∧
      ∀ request ∈ started visits, request = r := by
  have htask : Task.of? files i.request = .ok (.startJob r wait) := by rw [hr]; rfl
  cases hcheck : i.settings.check with
  | ok =>
    have hsettings : checkSettings i.settings = .ok () := by rw [checkSettings, hcheck]
    rw [perform, prepare_eq_ok_iff.mpr ⟨htask, hsettings⟩]
    obtain ⟨visits, hcalls, hstarted | ⟨rfl, hblank⟩⟩ := startTask_started b w i.json r wait
    · exact ⟨visits, hcalls, fun _ _ => hstarted, by simp [hstarted]⟩
    · exact ⟨[], hcalls, by simp [hblank], by simp [started]⟩
  | error f =>
    have hprepare : prepare files i = .error ["Invalid gateway configuration", f.message] := by
      rw [prepare, htask, checkSettings, hcheck]
      rfl
    rw [perform, hprepare]
    exact ⟨[], (List.append_nil _).symm, by simp, by simp [started]⟩

end Calls

/-- What is done about a command line: nothing, unless it is understood. -/
def carryOut {σ : Type} (environment : String → Option String)
    (files : String → Except FileFault String) (args : List String) (b : Backend σ) (w : World σ) :
    Except UsageError Showing × World σ :=
  match Invocation.parse environment args with
  | .error e => (.error e, w)
  | .ok i => (.ok (i.perform files b w).1, (i.perform files b w).2)

theorem carryOut_started {σ : Type} {environment : String → Option String} {args : List String}
    {i : Invocation} {r : JobRequest} {wait : Option Nat} (b : Backend σ) (w : World σ)
    (files : String → Except FileFault String) (hparse : Invocation.parse environment args = .ok i)
    (hr : i.request = .startJob r wait) :
    ∃ visits, (carryOut environment files args b w).2.calls = w.calls ++ visits ∧
      (i.settings.check = .ok () → Text.isBlankText r.processKey = false → started visits = [r]) ∧
      ∀ request ∈ started visits, request = r := by
  rw [carryOut, hparse]
  exact Invocation.perform_started b w files hr

namespace Level

variable {l m : Level} {g : Grammar}

theorem settles_of_operand {word : String} (h : l.operand g word = .ok m) :
    ∃ n, l.settle = .ok n := by
  unfold operand at h
  split at h
  · obtain ⟨k, hopen, -⟩ := ok_of_bind h
    obtain ⟨n, hn, -⟩ := ok_of_bind hopen
    exact ⟨n, hn⟩
  · split at h <;> cases h

theorem settles_of_long {cs : List Char} (h : l.long g cs = .ok m) : ∃ n, l.settle = .ok n := by
  simp only [long] at h
  split at h
  · split at h
    · cases h
    all_goals
      obtain ⟨n, hn, -⟩ := ok_of_bind h
      exact ⟨n, hn⟩
  · split at h
    · split at h
      · cases h
      · exact absurd h not_settleHelp
    · cases h

theorem settles_of_shorts {c : Char} {cs : List Char} (h : l.shorts g (c :: cs) = .ok m) :
    ∃ n, l.settle = .ok n := by
  simp only [shorts] at h
  split at h
  · split at h
    · obtain ⟨k, htake, -⟩ := ok_of_bind h
      obtain ⟨n, hn, -⟩ := ok_of_bind htake
      exact ⟨n, hn⟩
    · split at h
      all_goals
        obtain ⟨n, hn, -⟩ := ok_of_bind h
        exact ⟨n, hn⟩
  · split at h
    · exact absurd h not_settleHelp
    · cases h

/-- Where what was left open cannot be settled, a word can only say that operands follow, or be the
value that is waited for. -/
theorem step_unsettled {word : String} (h : ∀ n, l.settle ≠ .ok n)
    (hstep : l.step g word = .ok m) :
    l.closed = false ∧ (m = { l with closed := true } ∨
      ∃ p, l.pending = some (p, none) ∧ m = { l with pending := some (p, some word) }) := by
  have hfail : ¬ ∃ n, l.settle = .ok n := fun ⟨n, hn⟩ => h n hn
  unfold step at hstep
  split at hstep
  · exact absurd (settles_of_operand hstep) hfail
  rename_i hclosed
  refine ⟨by simpa using hclosed, ?_⟩
  split at hstep
  · cases hstep
    exact .inl rfl
  · exact absurd (settles_of_long hstep) hfail
  · exact absurd (settles_of_shorts hstep) hfail
  · split at hstep
    · rename_i p hp
      cases hstep
      exact .inr ⟨p, hp, rfl⟩
    · exact absurd (settles_of_operand hstep) hfail

/-- What was left open cannot be settled, and no word can still give it another value. -/
structure Stuck (l : Level) : Prop where
  unsettled : ∀ m, l.settle ≠ .ok m
  complete : l.closed = false → l.waiting = false

theorem stuck_close (h : ∀ n, l.settle ≠ .ok n) : { l with closed := true }.Stuck :=
  ⟨fun _ hn => h _ (settle_close hn l.closed), by simp⟩

theorem Stuck.step {word : String} (h : l.Stuck) (hstep : l.step g word = .ok m) : m.Stuck := by
  obtain ⟨hclosed, rfl | ⟨p, hp, -⟩⟩ := step_unsettled h.unsettled hstep
  · exact stuck_close h.unsettled
  · have hcomplete := h.complete hclosed
    simp [waiting, hp] at hcomplete

theorem Stuck.not_finish (h : l.Stuck) {environment : String → Option String} {entered : Bool} :
    l.finish environment g entered ≠ .ok m := by
  intro hfinish
  obtain ⟨n, hn, -⟩ := ok_of_bind hfinish
  exact h.unsettled n hn

/-- A reading that is stuck comes to nothing. -/
theorem Stuck.not_parseFrom (h : l.Stuck) {environment : String → Option String}
    {words : List String} {p : Parsed} : g.parseFrom environment l words ≠ .ok p := by
  induction words generalizing l p with
  | nil =>
    intro hp
    obtain ⟨m, hfinish, -⟩ := ok_of_bind hp
    exact h.not_finish hfinish
  | cons word words ih =>
    intro hp
    rw [Grammar.parseFrom] at hp
    split at hp
    · obtain ⟨inner, -, hp⟩ := ok_of_bind hp
      obtain ⟨m, hfinish, -⟩ := ok_of_bind hp
      exact h.not_finish hfinish
    · split at hp
      · cases hp
      · obtain ⟨m, hstep, hp⟩ := ok_of_bind hp
        exact ih (h.step hstep) hp

end Level

/-- After some words of a command line, an option of `job start` can be typed. -/
def JobOptionsFollow (words : List String) : Prop :=
  Invocation.grammar.OptionsFollow { operands := Invocation.grammar.operands } words

/-- The ways to type a text for an argument. -/
inductive Spells (text : String) : List String → Prop where
  | long : Spells text ["--arg=" ++ text]
  | short (nonempty : text ≠ "") : Spells text ["-a" ++ text]
  | shortEquals : Spells text ["-a=" ++ text]
  | longApart : Spells text ["--arg", text]
  | shortApart : Spells text ["-a", text]

namespace Spells

open Invocation

variable {l m : Level} {text : String}

theorem step_attached {word : String} (h : Spells text [word]) (hclosed : l.closed = false)
    (htext : '=' ∉ text.toList) :
    l.step startGrammar word = l.settleTake argOption (some text) := by
  have hdash (cs : List Char) (hcs : word.toList = '-' :: 'a' :: cs) :
      l.step startGrammar word = l.shorts startGrammar ('a' :: cs) := by
    rw [Level.step, if_neg (by simp [hclosed]), hcs]
    rfl
  have hknown : startGrammar.short? 'a' = some argOption := rfl
  cases h with
  | long => exact step_argument hclosed text
  | short nonempty =>
    cases hcs : text.toList with
    | nil => exact absurd (String.toList_inj.mp hcs) nonempty
    | cons c cs =>
      have hc : c ≠ '=' := by
        rintro rfl
        exact htext (hcs ▸ List.mem_cons_self)
      rw [hdash (c :: cs) (by simp [hcs]), Level.shorts, hknown]
      simp only [show argOption.isSwitch = false from rfl, Bool.false_eq_true, if_false]
      split
      · rename_i heq
        cases heq
      · rename_i heq
        exact absurd (List.cons.inj heq).1 hc
      · rw [← hcs, String.ofList_toList]
  | shortEquals =>
    rw [hdash ('=' :: text.toList) (by simp)]
    change l.settleTake argOption (some (String.ofList text.toList)) = _
    rw [String.ofList_toList]

theorem take_no_pair (l : Level) (htext : '=' ∉ text.toList) :
    l.take argOption (some text) = .error .badValue := by
  simp [Level.take, argOption, typed, pair?_of_no_equals htext]

theorem step_apart {word : String} (h : Spells text [word, text]) (hclosed : l.closed = false) :
    l.step startGrammar word = l.settleOpen argOption none := by
  cases h <;> rw [Level.step, if_neg (by simp [hclosed])] <;> rfl

/-- A text that stands apart is not looked at yet, but cannot be settled if it has no `=`. -/
theorem stuck_apart (hstep : l.step startGrammar text = .ok m)
    (hpending : l.pending = some (argOption, none)) (htext : '=' ∉ text.toList) : m.Stuck := by
  have hfail (n : Level) : l.settle ≠ .ok n := by
    intro hn
    rw [Level.settle, hpending] at hn
    cases hn
  obtain ⟨-, rfl | ⟨p, hp, rfl⟩⟩ := Level.step_unsettled hfail hstep
  · exact Level.stuck_close hfail
  · cases hpending.symm.trans hp
    refine ⟨fun n hn => ?_, fun _ => rfl⟩
    change Level.take { l with pending := none } argOption (some text) = .ok n at hn
    rw [take_no_pair _ htext] at hn
    cases hn

/-- A text without `=` is refused at its place, and if it is attached, for itself. -/
theorem parseFrom_error {words : List String} (h : Spells text words) (hclosed : l.closed = false)
    (hsettle : l.settle = .ok m) (htext : '=' ∉ text.toList) (environment : String → Option String)
    (after : List String) :
    ∃ e, startGrammar.parseFrom environment l (words ++ after) = .error e ∧
      (words.length = 1 → e = .badValue) := by
  have hattached {word : String} (h : Spells text [word]) :
      startGrammar.parseFrom environment l (word :: after) = .error .badValue := by
    rw [Grammar.parseFrom_start, h.step_attached hclosed htext, Level.settleTake, hsettle]
    change m.take argOption (some text) >>= _ = _
    rw [take_no_pair m htext]
    rfl
  have hapart {word : String} (h : Spells text [word, text]) :
      ∃ e, startGrammar.parseFrom environment l (word :: text :: after) = .error e := by
    have hopen : l.step startGrammar word = .ok { m with pending := some (argOption, none) } := by
      rw [h.step_apart hclosed, Level.settleOpen, hsettle]
      rfl
    cases hparse : startGrammar.parseFrom environment l (word :: text :: after) with
    | error e => exact ⟨e, rfl⟩
    | ok p =>
      rw [Grammar.parseFrom_start, hopen] at hparse
      change startGrammar.parseFrom environment _ (text :: after) = .ok p at hparse
      rw [Grammar.parseFrom_start] at hparse
      obtain ⟨k, hstep, hrest⟩ := ok_of_bind hparse
      exact absurd hrest (stuck_apart hstep rfl htext).not_parseFrom
  cases h with
  | long => exact ⟨_, hattached .long, fun _ => rfl⟩
  | short nonempty => exact ⟨_, hattached (.short nonempty), fun _ => rfl⟩
  | shortEquals => exact ⟨_, hattached .shortEquals, fun _ => rfl⟩
  | longApart =>
    obtain ⟨e, he⟩ := hapart .longApart
    exact ⟨e, he, by simp⟩
  | shortApart =>
    obtain ⟨e, he⟩ := hapart .shortApart
    exact ⟨e, he, by simp⟩

end Spells

/-- An argument without `=` is refused at its place, whatever comes after it. -/
theorem parse_no_pair (environment : String → Option String) {before words : List String}
    {text : String} (h : JobOptionsFollow before) (hwords : Spells text words)
    (htext : '=' ∉ text.toList) (after : List String) :
    ∃ e, Invocation.parse environment (before ++ (words ++ after)) = .error e ∧
      (words.length = 1 → e = .badValue) := by
  obtain ⟨leads, unclosed, -, settles⟩ := h
  obtain ⟨e, hhere, he⟩ := hwords.parseFrom_error unclosed settles htext environment after
  have hwhole : Invocation.grammar.parse environment (before ++ (words ++ after)) = .error e :=
    leads.parseFrom_error hhere
  refine ⟨e, ?_, he⟩
  rw [Invocation.parse, hwhole]
  rfl

/-- Arguments of a job on the command line.  They are put among the words of a line that starts a
job without any, at places where options can be typed: keys without `=`, with values that are read
back or with texts that spell no value.  The line is then understood as before, but for the
arguments of the job, in which each key has the value that was typed last; and this job is started,
once, if the settings are in order and the process key is not blank, and no other.  An argument
without `=`, in whatever way it is typed, is refused, whatever comes after it, and the world is left
as it was. -/
theorem arguments_reach_job {σ : Type} (environment : String → Option String)
    (files : String → Except FileFault String) (b : Backend σ) (w : World σ) :
    (∀ (line : List Word) (i : Invocation) (r : JobRequest) (wait : Option Nat),
      Invocation.parse environment (others line) = .ok i → i.request = .startJob r wait →
      r.inputArguments = .empty →
      (∀ before key typed after, line = before ++ .argument key typed :: after →
        JobOptionsFollow (others before)) →
      (∀ key typed, .argument key typed ∈ line → '=' ∉ key.toList ∧ typed.Fits) →
      ∃ arguments : Members,
        (∀ key (d : Document), (key, d.value) ∈ arguments.entries ↔
          Members.IsLast (pairsOf line) key d) ∧
        Invocation.parse environment (line.map Word.text) =
          .ok { i with request := .startJob { r with inputArguments := arguments } wait } ∧
        ∃ visits, (carryOut environment files (line.map Word.text) b w).2.calls =
            w.calls ++ visits ∧
          (i.settings.check = .ok () → Text.isBlankText r.processKey = false →
            started visits = [{ r with inputArguments := arguments }]) ∧
          ∀ request ∈ started visits, request = { r with inputArguments := arguments }) ∧
    ∀ before text words after, JobOptionsFollow before → '=' ∉ text.toList → Spells text words →
      ∃ e, carryOut environment files (before ++ (words ++ after)) b w = (.error e, w) ∧
        (words.length = 1 → e = .badValue) := by
  refine ⟨fun line i r wait hi hr hnone hplaced hreadable => ?_,
    fun before text words after hbefore htext hwords => ?_⟩
  · have hparse := Invocation.parse_line hplaced hreadable hi hr hnone
    exact ⟨_, Members.mem_ofPairs_iff _, hparse, carryOut_started b w files hparse rfl⟩
  · obtain ⟨e, hparse, he⟩ := parse_no_pair environment hbefore hwords htext after
    exact ⟨e, by rw [carryOut, hparse], he⟩

/-- Arguments before and behind the process key, with a key that is typed twice and a text that has
a second `=`; and an argument that has none. -/
theorem arguments_reach_job_of_invoice :
    let first : Document := .array [.number (.real ⟨true, 0⟩)]
    let last : Document := .array [.null, .string "\n"]
    let line : List Word :=
      [.other "--mock=false", .other "job", .other "start", .argument "n" (.value first),
        .other "Invoice", .argument "c" (.text "a=b"), .argument "n" (.value last)]
    let b := Script.orchestrator true 0
    let w : World Script := { state := {}, opened := ⟨20000, 0, 0⟩ }
    line.map Word.text = ["--mock=false", "job", "start", "--arg=n=[-0.0]", "Invoice",
        "--arg=c=a=b", "--arg=n=[null,\"\\n\"]"] ∧
      (∃ arguments : Members, arguments.get? "n" = some last.value ∧
        arguments.get? "c" = some (.string "a=b") ∧
        started (carryOut (fun _ => none) (fun _ => .ok "") (line.map Word.text) b w).2.calls =
          [⟨"Invoice", none, arguments⟩]) ∧
      carryOut (fun _ => none) (fun _ => .ok "")
        ["job", "start", "--arg=n=1", "Invoice", "--arg=c", "--robot"] b w =
          (.error .badValue, w) := by
  intro first last line b w
  have htext : ∀ v, Json.parse "a=b" ≠ .ok v := by
    intro v hv
    have hnone : (Json.parse "a=b").toOption.isNone = true := by decide +kernel
    rw [hv] at hnone
    cases hnone
  have hfirst : first.value.Portable := by
    intro n hn
    change .number n ∈ [Json.array [.number (.real ⟨true, 0⟩)], .number (.real ⟨true, 0⟩)] at hn
    have hzero : n = .real ⟨true, 0⟩ := by simpa using hn
    rw [hzero]
    exact (by decide +kernel : ReadsBack ⟨true, 0⟩)
  have hlast : last.value.Portable := by
    intro n hn
    change .number n ∈ [Json.array [.null, .string "\n"], .null, .string "\n"] at hn
    simp at hn
  have hreadable : ∀ key typed, .argument key typed ∈ line → '=' ∉ key.toList ∧ typed.Fits := by
    intro key typed hmem
    simp only [line, List.mem_cons, List.not_mem_nil, or_false, reduceCtorEq, false_or,
      Word.argument.injEq] at hmem
    rcases hmem with ⟨rfl, rfl⟩ | ⟨rfl, rfl⟩ | ⟨rfl, rfl⟩
    · exact ⟨by decide, hfirst, by decide⟩
    · exact ⟨by decide, htext⟩
    · exact ⟨by decide, hlast, by decide⟩
  have hplaced : ∀ before key typed after, line = before ++ .argument key typed :: after →
      JobOptionsFollow (others before) := by
    have hstart : JobOptionsFollow ["--mock=false", "job", "start"] :=
      ⟨.step rfl rfl rfl (.command rfl (.command rfl (.done _ _))), rfl, rfl, rfl⟩
    have hkey : JobOptionsFollow ["--mock=false", "job", "start", "Invoice"] :=
      ⟨.step rfl rfl rfl (.command rfl (.command rfl (.step rfl rfl rfl (.done _ _)))),
        rfl, rfl, rfl⟩
    intro before key typed after hline
    rcases before with _ | ⟨_, _ | ⟨_, _ | ⟨_, _ | ⟨_, _ | ⟨_, _ | ⟨_, _ | ⟨_, rest⟩⟩⟩⟩⟩⟩⟩ <;>
      simp only [line, List.nil_append, List.cons_append, List.cons.injEq, reduceCtorEq, false_and,
        and_false, List.nil_eq, List.append_eq_nil_iff] at hline
    · obtain ⟨rfl, rfl, rfl, -⟩ := hline
      exact hstart
    · obtain ⟨rfl, rfl, rfl, rfl, rfl, -⟩ := hline
      exact hkey
    · obtain ⟨rfl, rfl, rfl, rfl, rfl, rfl, -⟩ := hline
      exact hkey
  obtain ⟨hunderstood, hrefused⟩ := arguments_reach_job (fun _ => none) (fun _ => .ok "") b w
  refine ⟨by decide +kernel, ?_, ?_⟩
  · obtain ⟨arguments, hmem, -, visits, hcalls, hstarted, -⟩ :=
      hunderstood line ⟨{ simulated := false }, false, .startJob ⟨"Invoice", none, .empty⟩ none⟩
        ⟨"Invoice", none, .empty⟩ none rfl rfl rfl hplaced hreadable
    simp only [Members.mem_iff_get?] at hmem
    refine ⟨arguments, ?_, ?_, ?_⟩
    · exact (hmem _ _).mpr ⟨[("n", first), ("c", .string "a=b")], [], rfl, by simp⟩
    · exact (hmem _ (.string "a=b")).mpr ⟨[("n", first)], [("n", last)], rfl, by decide⟩
    · rw [hcalls]
      exact hstarted rfl (by decide)
  · obtain ⟨e, hcarry, he⟩ := hrefused ["job", "start", "--arg=n=1", "Invoice"] "c" ["--arg=c"]
      ["--robot"] ⟨.command rfl (.command rfl (.step rfl rfl rfl (.step rfl rfl rfl (.done _ _)))),
        rfl, rfl, rfl⟩ (by decide) .long
    rw [he rfl] at hcarry
    exact hcarry

end RobotDesk.CommandLine
