import RobotDesk.Orchestrator
import RobotDesk.Proofs.Batch
import RobotDesk.Proofs.Documents
import RobotDesk.Proofs.JsonReading
import RobotDesk.Proofs.RowMeaning
import RobotDesk.Script

/-!
Arguments as text.

The arguments of a job travel as JSON inside a string of a JSON body, and the input of a test case
is staged as the JSON text of an asset.  The compact text of a document is read as that document as
long as it nests no deeper than the reader goes, if its integers have 64 bits and its reals are read
back.  So the body that starts a job tells the whole request, and the staged text the whole input.
-/
namespace RobotDesk

/-- A numeral that is read as it is written. -/
def Numeral.Exact : Numeral → Prop
  | .int n => Json.IsWord n
  | .real x => Json.ReadsBack x

namespace Json

section Nesting

mutual

/-- How many brackets of a value are open at most at once. -/
def nesting : Json → Nat
  | .array vs => nestingOfItems vs + 1
  | .object ms => nestingOfMembers ms + 1
  | _ => 0

def nestingOfItems : List Json → Nat
  | [] => 0
  | v :: vs => max (nesting v) (nestingOfItems vs)

def nestingOfMembers : List (String × Json) → Nat
  | [] => 0
  | (_, v) :: ms => max (nesting v) (nestingOfMembers ms)

end

theorem nesting_array_le {vs : List Json} {n : Nat} :
    (Json.array vs).nesting ≤ n + 1 ↔ ∀ v ∈ vs, v.nesting ≤ n := by
  rw [nesting, Nat.add_le_add_iff_right]
  induction vs with
  | nil => simp [nestingOfItems]
  | cons v vs ih => rw [nestingOfItems, Nat.max_le, ih, List.forall_mem_cons]

theorem nesting_object_le {ms : Entries} {n : Nat} :
    (Json.object ms).nesting ≤ n + 1 ↔ ∀ m ∈ ms, m.2.nesting ≤ n := by
  rw [nesting, Nat.add_le_add_iff_right]
  induction ms with
  | nil => simp [nestingOfMembers]
  | cons m ms ih => rw [nestingOfMembers, Nat.max_le, ih, List.forall_mem_cons]

end Nesting

/-- A value whose numerals are read as they are written. -/
def Portable (v : Json) : Prop := ∀ n, .number n ∈ v.parts → n.Exact

namespace Portable

theorem item {vs : List Json} (h : Portable (.array vs)) {v : Json} (hv : v ∈ vs) : Portable v :=
  fun n hn => h n (parts_of_item hv hn)

theorem member {ms : Entries} (h : Portable (.object ms)) {m : String × Json} (hm : m ∈ ms) :
    Portable m.2 :=
  fun n hn => h n (parts_of_member hm hn)

/-- A document is legible as deep as it nests. -/
theorem legible {d : Document} (h : d.value.Portable) {depth : Nat}
    (hdepth : d.value.nesting ≤ depth) : Legible depth d.value := by
  obtain ⟨v, ordered⟩ := d
  induction ordered generalizing depth with
  | null => exact .null depth
  | bool b => exact .bool depth b
  | number n =>
    have hexact := h n (self_mem_parts _)
    cases n with
    | int n => exact .number depth (valueWith_int hexact)
    | real x => exact .number depth (valueWith_real hexact)
  | string s => exact .string depth s
  | array items ih =>
    cases depth with
    | zero => simp [nesting] at hdepth
    | succ depth =>
      have hdepth := nesting_array_le.mp hdepth
      exact .array fun v hv => ih v hv (h.item hv) (hdepth v hv)
  | object sorted members ih =>
    cases depth with
    | zero => simp [nesting] at hdepth
    | succ depth =>
      have hdepth := nesting_object_le.mp hdepth
      exact .object fun m hm => ih m hm (h.member hm) (hdepth m hm)

theorem readsBack {d : Document} (h : d.value.Portable) {x : Number.Binary64}
    (hx : x ∈ d.value.reals) : ReadsBack x := by
  obtain ⟨v, ordered⟩ := d
  induction ordered with
  | number n =>
    have hexact := h n (self_mem_parts _)
    cases n with
    | int n => cases hx
    | real y => exact List.mem_singleton.mp hx ▸ hexact
  | array items ih =>
    rw [reals_array] at hx
    obtain ⟨v, hv, hx⟩ := List.mem_flatMap.mp hx
    exact ih v hv (h.item hv) hx
  | object sorted members ih =>
    rw [reals_object] at hx
    obtain ⟨m, hm, hx⟩ := List.mem_flatMap.mp hx
    exact ih m hm (h.member hm) hx
  | _ => cases hx

end Portable

theorem Legible.nesting_le {depth : Nat} {v : Json} (h : Legible depth v) : v.nesting ≤ depth := by
  induction h with
  | null depth => exact Nat.zero_le depth
  | bool depth b => exact Nat.zero_le depth
  | number depth numeral => exact Nat.zero_le depth
  | string depth s => exact Nat.zero_le depth
  | array items ih => exact nesting_array_le.mpr ih
  | object members ih => exact nesting_object_le.mpr ih

/-- The compact text of a document is read as that document exactly if it nests no deeper than the
reader goes. -/
theorem Portable.parse_render_iff {d : Document} (h : d.value.Portable) :
    parse d.value.render = .ok d ↔ d.value.nesting ≤ 127 := by
  constructor
  · intro hparse
    obtain ⟨r, hread, -⟩ := read_of_whole hparse
    exact (legible_of_value hread fun x hx => h.readsBack hx).nesting_le
  · exact fun hdepth => parse_render (h.legible hdepth)

end Json

open Json

theorem OData.arguments?_render_iff {ms : Members} (h : ms.toJson.Portable) :
    arguments? ms.toJson.render = .ok ms ↔ ms.toJson.nesting ≤ 127 := by
  rw [(understands_arguments? _).ok]
  exact Portable.parse_render_iff (d := .object ms) h

namespace Orchestrator

/-- A body that asks for a job: it has the process key, no robot or the one that is named, and the
arguments as text. -/
structure Asks (body : Document) (r : JobRequest) : Prop where
  processKey : at? [.key "startInfo", .key "ReleaseKey"] body.value = some (.string r.processKey)
  robotName : at? [.key "startInfo", .key "RobotIds"] body.value =
    some (.array (r.robotName.elim [] fun name => [.string name]))
  inputArguments : ∃ text,
    at? [.key "startInfo", .key "InputArguments"] body.value = some (.string text) ∧
      OData.arguments? text = .ok r.inputArguments

/-- A body asks for one job only. -/
theorem Asks.unique {body : Document} {r r' : JobRequest} (h : Asks body r) (h' : Asks body r') :
    r' = r := by
  obtain ⟨hkey, hrobot, text, htext, harguments⟩ := h
  obtain ⟨hkey', hrobot', text', htext', harguments'⟩ := h'
  obtain ⟨key, robot, arguments⟩ := r
  obtain ⟨key', robot', arguments'⟩ := r'
  obtain rfl : key = key' := by simpa using hkey.symm.trans hkey'
  obtain rfl : robot = robot' := by
    have heq := hrobot.symm.trans hrobot'
    cases robot <;> cases robot' <;> simp_all
  obtain rfl : text = text' := by simpa using htext.symm.trans htext'
  cases harguments.symm.trans harguments'
  rfl

theorem ordered_startBody (r : JobRequest) : (startBody r).Ordered := by
  refine .object (List.pairwise_singleton _ _) fun m hm => ?_
  rw [List.mem_singleton.mp hm]
  have hsorted : ["InputArguments", "ReleaseKey", "RobotIds", "Strategy"].Pairwise (· < ·) := by
    decide
  refine .object hsorted fun m hm => ?_
  simp only [List.mem_cons, List.not_mem_nil, or_false] at hm
  rcases hm with rfl | rfl | rfl | rfl
  · exact .string _
  · exact .string _
  · refine .array fun v hv => ?_
    obtain ⟨name, -, rfl⟩ := Option.map_eq_some_iff.mp (Option.mem_toList.mp hv)
    exact .string name
  · exact .string _

/-- The body that starts a job, as a document. -/
def startDocument (r : JobRequest) : Document := ⟨startBody r, ordered_startBody r⟩

/-- The text of the body that starts a job is read as that body, whatever the arguments are. -/
theorem parse_startBody (r : JobRequest) :
    parse (startBody r).render = .ok (startDocument r) := by
  have hportable : (startBody r).Portable := by
    obtain ⟨key, robot, arguments⟩ := r
    intro n hn
    cases robot <;> simp [startBody, parts, partsOfItems, partsOfMembers] at hn
  have hnesting : (startBody r).nesting ≤ 127 := by
    obtain ⟨key, robot, arguments⟩ := r
    cases robot <;> simp [startBody, nesting, nestingOfItems, nestingOfMembers]
  exact (Portable.parse_render_iff (d := startDocument r) hportable).mpr hnesting

theorem asks_startDocument {r : JobRequest} (h : r.inputArguments.toJson.Portable)
    (hdepth : r.inputArguments.toJson.nesting ≤ 127) : Asks (startDocument r) r where
  processKey := rfl
  robotName := by
    obtain ⟨key, robot, arguments⟩ := r
    cases robot <;> rfl
  inputArguments := ⟨_, rfl, (OData.arguments?_render_iff h).mpr hdepth⟩

end Orchestrator

/-- The asset that a call sets. -/
def Call.asset? : Call → Option AssetValue
  | .setAsset asset => some asset
  | _ => none

/-- The assets that are set, in their order. -/
def assetsSet (visits : List Visit) : List AssetValue :=
  (visits.map Visit.call).filterMap Call.asset?

theorem assetsSet_append (xs ys : List Visit) :
    assetsSet (xs ++ ys) = assetsSet xs ++ assetsSet ys := by
  rw [assetsSet, List.map_append, List.filterMap_append]
  rfl

theorem Polling.Lookups.assetsSet_eq_nil {visits : List Visit} (h : Lookups visits) :
    assetsSet visits = [] := by
  obtain ⟨ids, hids⟩ := h
  rw [assetsSet, hids, List.filterMap_map]
  simp [Call.asset?]

namespace Trial

variable {σ : Type}

/-- A case whose deadline can be told sets one asset, its input, and does so first. -/
theorem runCase_assetsSet (b : Backend σ) {s : Settings} (botId processKey : String) (c : TestCase)
    {w : World σ} (htold : w.now + s.deadline ≤ w.last) :
    ∃ visits, (runCase b s botId processKey c w).2.calls = w.calls ++ visits ∧
      assetsSet visits = [stagedInput botId c] := by
  have hfollowed := follow_followed b s botId processKey c w
  generalize hrun : follow b s botId processKey c w = result at hfollowed
  rw [runCase_eq hrun]
  cases hfollowed with
  | undated untold => omega
  | unstaged told failure =>
    rw [Desk.operate_of_no_problem (problem?_stagedInput botId c)] at failure
    have hcalls := Session.calls_ask b (.setAsset (stagedInput botId c)) w
    rw [failure] at hcalls
    exact ⟨_, hcalls, rfl⟩
  | unstarted told staged failure =>
    have hstaged := (Desk.visit_of_operate_ok staged).1
    rcases Desk.visit_of_operate_error failure with rfl | hcalls
    · exact ⟨_, hstaged, rfl⟩
    · rw [hstaged, List.append_assoc] at hcalls
      exact ⟨_, hcalls, rfl⟩
  | @watched answer job v u _ told staged started watch =>
    obtain ⟨visits, hcalls, hlookups⟩ := calls_of_watched staged started watch
    refine ⟨_, hcalls, ?_⟩
    rw [assetsSet_append, hlookups.assetsSet_eq_nil]
    rfl

end Trial

open Orchestrator Trial

/-- Arguments that nest at most 127 deep are told by their text, and deeper ones are not.  The body
that starts a job is read as one that asks for that job and for no other, so that different requests
have different bodies.  A case whose deadline can be told sets one asset, whose text tells its
input. -/
theorem arguments_told_by_text (access : Access) (hosts : Wire.Hosts) {r : JobRequest}
    (h : r.inputArguments.toJson.Portable) (hdepth : r.inputArguments.toJson.nesting ≤ 127) :
    (∀ request, access.requestFor? hosts (.startJob r) = some request →
      request.body = some (startBody r).render) ∧
    (∃ body, parse (startBody r).render = .ok body ∧ Asks body r ∧ ∀ r', Asks body r' → r' = r) ∧
    (∀ r' : JobRequest, r'.inputArguments.toJson.Portable →
      r'.inputArguments.toJson.nesting ≤ 127 →
      (startBody r').render = (startBody r).render → r' = r) ∧
    (∀ ms : Members, ms.toJson.Portable →
      (OData.arguments? ms.toJson.render = .ok ms ↔ ms.toJson.nesting ≤ 127)) ∧
    ∀ {σ : Type} (b : Backend σ) (s : Trial.Settings) (botId processKey : String) (c : TestCase)
      (w : World σ), w.now + s.deadline ≤ w.last → c.inputData.toJson.Portable →
      c.inputData.toJson.nesting ≤ 127 →
      ∃ visits asset, (runCase b s botId processKey c w).2.calls = w.calls ++ visits ∧
        assetsSet visits = [asset] ∧ asset.name = "test_input_" ++ botId ++ "_" ++ c.caseId ∧
        OData.arguments? asset.value = .ok c.inputData := by
  have hasks := asks_startDocument h hdepth
  refine ⟨fun request hrequest => ?_, ⟨_, parse_startBody r, hasks, fun r' => hasks.unique⟩,
    fun r' h' hdepth' hbody => ?_, fun ms => OData.arguments?_render_iff,
    fun b s botId processKey c w htold hinput hdepth' => ?_⟩
  · obtain ⟨url, -, hrequest⟩ := Option.bind_eq_some_iff.mp hrequest
    cases hrequest
    rfl
  · have hparse := parse_startBody r'
    rw [hbody, parse_startBody r] at hparse
    have hsame : startDocument r = startDocument r' := Except.ok.inj hparse
    exact hasks.unique (hsame ▸ asks_startDocument h' hdepth')
  · obtain ⟨visits, hcalls, hset⟩ := runCase_assetsSet b botId processKey c htold
    exact ⟨visits, _, hcalls, hset, rfl, (OData.arguments?_render_iff hinput).mpr hdepth'⟩

/-- Arguments with quotes, escapes and the negative zero, for a robot with a quote in its name, and
a case with the same input. -/
theorem arguments_told_by_text_of_invoice :
    let items : List Document :=
      [.object (.ofPairs [("n", .number (.real ⟨true, 0⟩))]), .string "\\\n"]
    let ms : Members :=
      .ofPairs [("a\"b", .array items), ("max", .number (.int 18446744073709551615))]
    let r : JobRequest := ⟨"Invoice", some "robot\"01", ms⟩
    let w : World Script := { state := {}, opened := ⟨20000, 0, 0⟩ }
    ms.toJson.Portable ∧ ms.toJson.nesting ≤ 127 ∧
      (∃ request text body,
        Access.requestFor? ⟨"http://a", "t", "k"⟩ .all (.startJob r) = some request ∧
        request.body = some text ∧ parse text = .ok body ∧ Asks body r) ∧
      ∃ visits asset, (runCase (Script.orchestrator true 0) {} "BOT-7" "Invoice"
          { caseId := "TC-1", inputData := ms } w).2.calls = w.calls ++ visits ∧
        assetsSet visits = [asset] ∧ OData.arguments? asset.value = .ok ms := by
  intro items ms r w
  have hzero : ReadsBack ⟨true, 0⟩ := by decide +kernel
  have hmax : IsWord 18446744073709551615 := by constructor <;> decide
  have hparts : ms.toJson.parts = [ms.toJson,
      .array [.object [("n", .number (.real ⟨true, 0⟩))], .string "\\\n"],
      .object [("n", .number (.real ⟨true, 0⟩))], .number (.real ⟨true, 0⟩), .string "\\\n",
      .number (.int 18446744073709551615)] := rfl
  have hportable : ms.toJson.Portable := by
    intro n hn
    have hcases : n = .real ⟨true, 0⟩ ∨ n = .int 18446744073709551615 := by
      rw [hparts] at hn
      simpa [Members.toJson] using hn
    rcases hcases with rfl | rfl
    · exact hzero
    · exact hmax
  have hdepth : ms.toJson.nesting ≤ 127 := by decide
  obtain ⟨hsent, ⟨body, hbody, hasks, -⟩, -, -, hcase⟩ :=
    arguments_told_by_text ⟨"http://a", "t", "k"⟩ .all (r := r) hportable hdepth
  have hurl : (Access.requestFor? ⟨"http://a", "t", "k"⟩ .all (.startJob r)).isSome = true := by
    decide +kernel
  obtain ⟨request, hrequest⟩ := Option.isSome_iff_exists.mp hurl
  obtain ⟨visits, asset, hcalls, hset, -, htext⟩ := hcase (Script.orchestrator true 0) {} "BOT-7"
    "Invoice" { caseId := "TC-1", inputData := ms } w (by decide) hportable hdepth
  exact ⟨hportable, hdepth, ⟨request, _, body, hrequest, hsent request hrequest, hbody, hasks⟩,
    visits, asset, hcalls, hset, htext⟩

end RobotDesk
