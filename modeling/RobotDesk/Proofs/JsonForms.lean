import RobotDesk.Envelope.Request
import RobotDesk.Envelope.Response
import RobotDesk.Proofs.RecordForm
import RobotDesk.Proofs.TimestampText

/-!
The JSON forms of jobs, assets, test cases and envelopes are normal forms.

A text may spell a value in many ways: with an array for an object, with fields in any order, left
out or null, with members that mean nothing, with repeated keys in free-form objects, and with other
offsets and fractions in timestamps.  The text that is written for the value is one of its
spellings, and writing what that text is read as gives it again.
-/
namespace RobotDesk

open Json Json.Codec Time Text

theorem Time.Timestamp.normal_codec {need : Nat} : Timestamp.codec.Normal need :=
  normal_spelled fun _ _ => Timestamp.lenient?_text_of_lenient?

theorem Time.Timestamp.neverNull_codec : Timestamp.codec.NeverNull := neverNull_spelled _ _

section Jobs

theorem JobStatus.normal_codec {need : Nat} : JobStatus.codec.Normal need :=
  normal_choice JobStatus.ofName?_name

theorem JobStatus.neverNull_codec : JobStatus.codec.NeverNull := neverNull_choice _ _

def JobRequest.form : RecordForm fields { processKey := "" } toJson 1 where
  slots :=
    [.required "processKey" .string (·.processKey) (fun v r => { r with processKey := v })
      normal_string,
     .omittable "robotName" .string (·.robotName) (fun v r => { r with robotName := v })
      normal_string neverNull_string,
     .defaulted "inputArguments" .members (·.inputArguments)
      (fun v r => { r with inputArguments := v }) normal_members fun _ => members_empty_rereads]
  toJson_eq s := by simp [toJson, Codec.string, Codec.members]

def JobRecord.form : RecordForm fields default toJson 0 where
  slots :=
    [.required "jobId" .string (·.jobId) (fun v r => { r with jobId := v }) normal_string,
     .required "processKey" .string (·.processKey) (fun v r => { r with processKey := v })
      normal_string,
     .required "status" JobStatus.codec (·.status) (fun v r => { r with status := v })
      JobStatus.normal_codec,
     .required "createdAt" Timestamp.codec (·.createdAt) (fun v r => { r with createdAt := v })
      Timestamp.normal_codec,
     .omittable "startedAt" Timestamp.codec (·.startedAt) (fun v r => { r with startedAt := v })
      Timestamp.normal_codec Timestamp.neverNull_codec,
     .omittable "endedAt" Timestamp.codec (·.endedAt) (fun v r => { r with endedAt := v })
      Timestamp.normal_codec Timestamp.neverNull_codec,
     .omittable "outputArguments" .members (·.outputArguments)
      (fun v r => { r with outputArguments := v }) normal_members neverNull_members,
     .omittable "info" .string (·.info) (fun v r => { r with info := v }) normal_string
      neverNull_string]
  toJson_eq s := by simp [toJson, Codec.string]

def JobFilter.form : RecordForm fields {} toJson 0 where
  slots :=
    [.omittable "processKey" .string (·.processKey) (fun v r => { r with processKey := v })
      normal_string neverNull_string,
     .omittable "status" JobStatus.codec (·.status) (fun v r => { r with status := v })
      JobStatus.normal_codec JobStatus.neverNull_codec]
  toJson_eq s := by simp [toJson]

end Jobs

section Assets

theorem AssetType.normal_codec {need : Nat} : AssetType.codec.Normal need :=
  normal_choice AssetType.ofName?_name

theorem AssetType.neverNull_codec : AssetType.codec.NeverNull := neverNull_choice _ _

def AssetValue.form : RecordForm fields ⟨"", .text, ""⟩ toJson 0 where
  slots :=
    [.required "name" .string (·.name) (fun v r => { r with name := v }) normal_string,
     .defaulted "type" AssetType.codec (·.type) (fun v r => { r with type := v })
      AssetType.normal_codec fun depth _ => choice_rereads AssetType.ofName?_name depth _,
     .required "value" .string (·.value) (fun v r => { r with value := v }) normal_string]

end Assets

section Tests

theorem TestOutcome.normal_codec {need : Nat} : TestOutcome.codec.Normal need :=
  normal_choice TestOutcome.ofName?_name

def TestCase.form : RecordForm fields { caseId := "" } toJson 1 where
  slots :=
    [.required "caseId" .string (·.caseId) (fun v r => { r with caseId := v }) normal_string,
     .defaulted "inputData" .members (·.inputData) (fun v r => { r with inputData := v })
      normal_members fun _ => members_empty_rereads,
     .defaulted "expectedOutput" .string (·.expectedOutput)
      (fun v r => { r with expectedOutput := v }) normal_string
      fun depth _ => string_rereads depth _]

def TestResult.form : RecordForm fields default toJson 0 where
  slots :=
    [.required "jobId" .string (·.jobId) (fun v r => { r with jobId := v }) normal_string,
     .required "botId" .string (·.botId) (fun v r => { r with botId := v }) normal_string,
     .required "caseId" .string (·.caseId) (fun v r => { r with caseId := v }) normal_string,
     .required "status" TestOutcome.codec (·.status) (fun v r => { r with status := v })
      TestOutcome.normal_codec,
     .required "actualOutput" .string (·.actualOutput) (fun v r => { r with actualOutput := v })
      normal_string,
     .required "expectedOutput" .string (·.expectedOutput)
      (fun v r => { r with expectedOutput := v }) normal_string,
     .omittable "diffDetail" .string (·.diffDetail) (fun v r => { r with diffDetail := v })
      normal_string neverNull_string,
     .required "duration" .string (·.duration) (fun v r => { r with duration := v }) normal_string,
     .required "timestamp" Timestamp.codec (·.timestamp) (fun v r => { r with timestamp := v })
      Timestamp.normal_codec]
  toJson_eq s := by simp [toJson, Codec.string]

def TestSummary.form : RecordForm fields {} toJson 0 where
  slots :=
    [.required "total" .count (·.total) (fun v r => { r with total := v }) normal_count,
     .required "pass" .count (·.pass) (fun v r => { r with pass := v }) normal_count,
     .required "fail" .count (·.fail) (fun v r => { r with fail := v }) normal_count,
     .required "error" .count (·.error) (fun v r => { r with error := v }) normal_count]

end Tests

section Envelopes

namespace Envelope

def JobOrder.form : RecordForm fields {} toJson 0 where
  slots :=
    [.nullable "processKey" .string (·.processKey) (fun v r => { r with processKey := v })
      normal_string neverNull_string,
     .nullable "robotName" .string (·.robotName) (fun v r => { r with robotName := v })
      normal_string neverNull_string,
     .nullable "inputArguments" .members (·.inputArguments)
      (fun v r => { r with inputArguments := v }) normal_members neverNull_members]

def JobsQuery.form : RecordForm fields {} toJson 0 where
  slots :=
    [.nullable "jobId" .string (·.jobId) (fun v r => { r with jobId := v }) normal_string
      neverNull_string,
     .nullable "processKey" .string (·.processKey) (fun v r => { r with processKey := v })
      normal_string neverNull_string,
     .nullable "status" .string (·.status) (fun v r => { r with status := v }) normal_string
      neverNull_string]

def AssetOrder.form : RecordForm fields {} toJson 0 where
  slots :=
    [.nullable "name" .string (·.name) (fun v r => { r with name := v }) normal_string
      neverNull_string,
     .nullable "type" AssetType.codec (·.type) (fun v r => { r with type := v })
      AssetType.normal_codec AssetType.neverNull_codec,
     .nullable "value" .string (·.value) (fun v r => { r with value := v }) normal_string
      neverNull_string]

def AssetQuery.form : RecordForm fields {} toJson 0 where
  slots :=
    [.nullable "name" .string (·.name) (fun v r => { r with name := v }) normal_string
      neverNull_string]

def TestPlan.form : RecordForm fields {} toJson 3 where
  slots :=
    [.nullable "botId" .string (·.botId) (fun v r => { r with botId := v }) normal_string
      neverNull_string,
     .nullable "processKey" .string (·.processKey) (fun v r => { r with processKey := v })
      normal_string neverNull_string,
     .nullable "cases" (.list TestCase.codec) (·.cases) (fun v r => { r with cases := v })
      TestCase.form.normal.list (neverNull_list _)]

def Refusal.form : RecordForm fields {} toJson 0 where
  slots :=
    [.required "ok" .bool (·.ok) (fun v r => { r with ok := v }) normal_bool,
     .required "error" .string (·.error) (fun v r => { r with error := v }) normal_string]

def Acknowledgement.form : RecordForm fields {} toJson 0 where
  slots :=
    [.required "ok" .bool (·.ok) (fun v r => { r with ok := v }) normal_bool,
     .required "mock" .bool (·.mock) (fun v r => { r with mock := v }) normal_bool]

def Health.form : RecordForm fields {} toJson 0 where
  slots :=
    [.required "ok" .bool (·.ok) (fun v r => { r with ok := v }) normal_bool,
     .required "mock" .bool (·.mock) (fun v r => { r with mock := v }) normal_bool,
     .required "upstream" .string (·.reach) (fun v r => { r with reach := v }) normal_string]

def OneJob.form : RecordForm fields {} toJson 1 where
  slots :=
    [.required "ok" .bool (·.ok) (fun v r => { r with ok := v }) normal_bool,
     .required "mock" .bool (·.mock) (fun v r => { r with mock := v }) normal_bool,
     .required "job" JobRecord.codec (·.job) (fun v r => { r with job := v }) JobRecord.form.normal]

def JobList.form : RecordForm fields {} toJson 2 where
  slots :=
    [.required "ok" .bool (·.ok) (fun v r => { r with ok := v }) normal_bool,
     .required "mock" .bool (·.mock) (fun v r => { r with mock := v }) normal_bool,
     .required "jobs" (.list JobRecord.codec) (·.jobs) (fun v r => { r with jobs := v })
      JobRecord.form.normal.list]

def OneAsset.form : RecordForm fields {} toJson 1 where
  slots :=
    [.required "ok" .bool (·.ok) (fun v r => { r with ok := v }) normal_bool,
     .required "mock" .bool (·.mock) (fun v r => { r with mock := v }) normal_bool,
     .required "asset" AssetValue.codec (·.asset) (fun v r => { r with asset := v })
      AssetValue.form.normal]

def TestReport.form : RecordForm fields {} toJson 2 where
  slots :=
    [.required "ok" .bool (·.ok) (fun v r => { r with ok := v }) normal_bool,
     .required "mock" .bool (·.mock) (fun v r => { r with mock := v }) normal_bool,
     .required "botId" .string (·.botId) (fun v r => { r with botId := v }) normal_string,
     .required "summary" TestSummary.codec (·.summary) (fun v r => { r with summary := v })
      (TestSummary.form.normal.mono (by decide)),
     .required "results" (.list TestResult.codec) (·.results) (fun v r => { r with results := v })
      TestResult.form.normal.list]

end Envelope

end Envelopes

/-- The types that have a JSON form: those of jobs, assets and test cases, and the envelopes. -/
inductive JsonForm where
  | jobRequest | jobRecord | jobStatus | jobFilter | assetValue | assetType | testCase
  | testOutcome | testResult | testSummary | jobOrder | jobsQuery | assetOrder | assetQuery
  | testPlan | refusal | acknowledgement | health | oneJob | jobList | oneAsset | testReport

namespace JsonForm

/-- The values of a form. -/
def Value : JsonForm → Type
  | .jobRequest => JobRequest
  | .jobRecord => JobRecord
  | .jobStatus => JobStatus
  | .jobFilter => JobFilter
  | .assetValue => AssetValue
  | .assetType => AssetType
  | .testCase => TestCase
  | .testOutcome => TestOutcome
  | .testResult => TestResult
  | .testSummary => TestSummary
  | .jobOrder => Envelope.JobOrder
  | .jobsQuery => Envelope.JobsQuery
  | .assetOrder => Envelope.AssetOrder
  | .assetQuery => Envelope.AssetQuery
  | .testPlan => Envelope.TestPlan
  | .refusal => Envelope.Refusal
  | .acknowledgement => Envelope.Acknowledgement
  | .health => Envelope.Health
  | .oneJob => Envelope.OneJob
  | .jobList => Envelope.JobList
  | .oneAsset => Envelope.OneAsset
  | .testReport => Envelope.TestReport

def codec : (f : JsonForm) → Codec f.Value
  | .jobRequest => JobRequest.codec
  | .jobRecord => JobRecord.codec
  | .jobStatus => JobStatus.codec
  | .jobFilter => JobFilter.codec
  | .assetValue => AssetValue.codec
  | .assetType => AssetType.codec
  | .testCase => TestCase.codec
  | .testOutcome => TestOutcome.codec
  | .testResult => TestResult.codec
  | .testSummary => TestSummary.codec
  | .jobOrder => Envelope.JobOrder.codec
  | .jobsQuery => Envelope.JobsQuery.codec
  | .assetOrder => Envelope.AssetOrder.codec
  | .assetQuery => Envelope.AssetQuery.codec
  | .testPlan => Envelope.TestPlan.codec
  | .refusal => Envelope.Refusal.codec
  | .acknowledgement => Envelope.Acknowledgement.codec
  | .health => Envelope.Health.codec
  | .oneJob => Envelope.OneJob.codec
  | .jobList => Envelope.JobList.codec
  | .oneAsset => Envelope.OneAsset.codec
  | .testReport => Envelope.TestReport.codec

theorem normal_codec : (f : JsonForm) → f.codec.Normal 4
  | .jobRequest => JobRequest.form.normal.mono (by decide)
  | .jobRecord => JobRecord.form.normal.mono (by decide)
  | .jobStatus => JobStatus.normal_codec
  | .jobFilter => JobFilter.form.normal.mono (by decide)
  | .assetValue => AssetValue.form.normal.mono (by decide)
  | .assetType => AssetType.normal_codec
  | .testCase => TestCase.form.normal.mono (by decide)
  | .testOutcome => TestOutcome.normal_codec
  | .testResult => TestResult.form.normal.mono (by decide)
  | .testSummary => TestSummary.form.normal.mono (by decide)
  | .jobOrder => Envelope.JobOrder.form.normal.mono (by decide)
  | .jobsQuery => Envelope.JobsQuery.form.normal.mono (by decide)
  | .assetOrder => Envelope.AssetOrder.form.normal.mono (by decide)
  | .assetQuery => Envelope.AssetQuery.form.normal.mono (by decide)
  | .testPlan => Envelope.TestPlan.form.normal
  | .refusal => Envelope.Refusal.form.normal.mono (by decide)
  | .acknowledgement => Envelope.Acknowledgement.form.normal.mono (by decide)
  | .health => Envelope.Health.form.normal.mono (by decide)
  | .oneJob => Envelope.OneJob.form.normal.mono (by decide)
  | .jobList => Envelope.JobList.form.normal.mono (by decide)
  | .oneAsset => Envelope.OneAsset.form.normal.mono (by decide)
  | .testReport => Envelope.TestReport.form.normal.mono (by decide)

/-- The compact text of a value. -/
def print (f : JsonForm) (v : f.Value) : String := (f.codec.toJson v).render

/-- Reads a text and writes what it spells. -/
def rewrite (f : JsonForm) (g : List Glyph) : Except ReadError String :=
  (f.codec.decode g).map f.print

/-- Whatever text a value of any form was read from, its compact text is read as that value, if its
reals are read back; so it is not changed when it is read and written. -/
theorem printed_text_is_normal (f : JsonForm) {g : List Glyph} {v : f.Value}
    (hread : f.codec.decode g = .ok v) (hreals : ∀ x ∈ (f.codec.toJson v).reals, ReadsBack x) :
    f.codec.decode (glyphs (f.print v)) = .ok v ∧ f.rewrite g = .ok (f.print v) ∧
      f.rewrite (glyphs (f.print v)) = .ok (f.print v) := by
  have hagain : f.codec.decode (glyphs (f.print v)) = .ok v :=
    f.normal_codec.decode_render (by decide) hread hreals
  refine ⟨hagain, ?_, ?_⟩
  · rw [rewrite, hread]
    rfl
  · rw [rewrite, hagain]
    rfl

/-- A job as an array, with a status as an object, an offset and a leap second, another spelling of
a timestamp, a repeated key, keys out of order and a negative zero. -/
theorem printed_text_is_normal_of_array :
    let text := "[\"J-1\", \"P\", \x7b\"Running\":null\x7d, \"2024-02-29T23:59:60.5+01:30\", " ++
      "null, \"2024-03-01 00:00:00Z\", \x7b\"b\":1, \"a\":[-0, -7], \"b\":\x7b\"z\":null\x7d\x7d]"
    let printed := "\x7b\"jobId\":\"J-1\",\"processKey\":\"P\",\"status\":\"Running\"," ++
      "\"createdAt\":\"2024-02-29T22:29:60.500Z\",\"endedAt\":\"2024-03-01T00:00:00Z\"," ++
      "\"outputArguments\":\x7b\"a\":[-0.0,-7],\"b\":\x7b\"z\":null\x7d\x7d\x7d"
    ∃ v : JobRecord, jobRecord.codec.decode (glyphs text) = .ok v ∧
      (∀ x ∈ v.toJson.reals, ReadsBack x) ∧ jobRecord.print v = printed ∧
      jobRecord.codec.decode (glyphs printed) = .ok v := by
  intro text printed
  have hread : (JobRecord.codec.decode (glyphs text)).toOption.map
      (fun v => (v.toJson.render, v.toJson.reals)) = some (printed, [⟨true, 0⟩]) := by
    decide +kernel
  have hzero : ReadsBack ⟨true, 0⟩ := by decide +kernel
  cases hv : JobRecord.codec.decode (glyphs text) with
  | error e =>
    rw [hv] at hread
    cases hread
  | ok v =>
    rw [hv] at hread
    obtain ⟨hprint, hreals⟩ := Prod.mk.inj (Option.some.inj hread)
    have hback : ∀ x ∈ v.toJson.reals, ReadsBack x := by
      intro x hx
      rw [hreals] at hx
      rw [List.mem_singleton.mp hx]
      exact hzero
    refine ⟨v, hv, hback, hprint, ?_⟩
    rw [← hprint]
    exact (printed_text_is_normal jobRecord hv hback).1

end JsonForm

end RobotDesk
