import RobotDesk.Asset
import RobotDesk.Failure
import RobotDesk.Job
import RobotDesk.Text.Basic
import RobotDesk.Time.Reader

/-!
Rows of the orchestrator's tables, and what they say.

A job row may lack any column.  Its arguments are JSON text inside a string, and its times may lack
an offset, in which case they are in universal time.  A job that is not finished has no output, and
one that ended by itself has at least an empty one.
-/
namespace RobotDesk.OData

open Json Time

/-- The rows of an answer. -/
structure Rows (α : Type) where
  value : List α := []

def Rows.codec {α : Type} (row : Codec α) : Codec (Rows α) :=
  .record [.defaulted "value" (.list row) fun v r => { r with value := v }] {}
    fun r => .object [("value", .array (r.value.map row.toJson))]

structure JobRow where
  id : Option Json := none
  releaseName : Option String := none
  state : Option String := none
  creationTime : Option String := none
  startTime : Option String := none
  endTime : Option String := none
  info : Option String := none
  outputArguments : Option String := none
deriving Repr, Inhabited

namespace JobRow

def fields : List (RecordField JobRow) :=
  [.optional "Id" (.option .json) fun v r => { r with id := v },
   .optional "ReleaseName" (.option .string) fun v r => { r with releaseName := v },
   .optional "State" (.option .string) fun v r => { r with state := v },
   .optional "CreationTime" (.option .string) fun v r => { r with creationTime := v },
   .optional "StartTime" (.option .string) fun v r => { r with startTime := v },
   .optional "EndTime" (.option .string) fun v r => { r with endTime := v },
   .optional "Info" (.option .string) fun v r => { r with info := v },
   .optional "OutputArguments" (.option .string) fun v r => { r with outputArguments := v }]

def toJson (r : JobRow) : Json :=
  let text := (Codec.option Codec.string).toJson
  .object [("Id", (Codec.option .json).toJson r.id), ("ReleaseName", text r.releaseName),
    ("State", text r.state), ("CreationTime", text r.creationTime),
    ("StartTime", text r.startTime), ("EndTime", text r.endTime), ("Info", text r.info),
    ("OutputArguments", text r.outputArguments)]

def codec : Codec JobRow := .record fields {} toJson

end JobRow

/-- Lower-case hexadecimal digits of a number. -/
def hexText (n : Nat) : String := String.ofList (Nat.toDigits 16 n)

/-- A character as it is shown in a message about a value. -/
def shownChar (c : Char) : String :=
  if c = '"' then "\\\""
  else if c = '\\' then "\\\\"
  else if c = '\n' then "\\n"
  else if c = '\r' then "\\r"
  else if c = '\t' then "\\t"
  else if c.toNat = 0 then "\\0"
  else if c.toNat < 32 ∨ (127 ≤ c.toNat ∧ c.toNat < 160) then
    "\\u\x7b" ++ hexText c.toNat ++ "\x7d"
  else c.toString

/-- A string as it is shown in a message about a value. -/
def shownString (s : String) : String := "\"" ++ String.join (s.toList.map shownChar) ++ "\""

mutual

/-- A value as it is shown in a message, each part with its kind. -/
def shown : Json → String
  | .null => "Null"
  | .bool b => if b then "Bool(true)" else "Bool(false)"
  | .number n => "Number(" ++ renderNumeral n ++ ")"
  | .string s => "String(" ++ shownString s ++ ")"
  | .array vs => "Array [" ++ ", ".intercalate (shownItems vs) ++ "]"
  | .object ms => "Object \x7b" ++ ", ".intercalate (shownMembers ms) ++ "\x7d"

def shownItems : List Json → List String
  | [] => []
  | v :: vs => shown v :: shownItems vs

def shownMembers : List (String × Json) → List String
  | [] => []
  | (k, v) :: ms => (shownString k ++ ": " ++ shown v) :: shownMembers ms

end

/-- A value that may be missing as it is shown in a message. -/
def shownOption : Option Json → String
  | none => "None"
  | some v => "Some(" ++ shown v ++ ")"

/-- The job id in a column: a string, or the text of a number. -/
def jobId? (id : Option Json) : Except Failure String :=
  match id with
  | some (.string s) => .ok s
  | some (.number n) => .ok (renderNumeral n)
  | other => .error (.undecodable ("invalid job Id: " ++ shownOption other))

/-- A time in a column. -/
def time? (raw : String) : Except Failure Timestamp :=
  match Timestamp.received? raw with
  | some t => .ok t
  | none => .error (.undecodable ("invalid timestamp '" ++ raw ++ "': " ++ elided))

/-- The arguments that a string spells. -/
def arguments? (raw : String) : Except Failure Members :=
  match parse raw with
  | .ok d =>
    match d.members? with
    | some ms => .ok ms
    | none => .error (.undecodable ("OutputArguments is not an object: " ++ d.value.render))
  | .error _ => .error (.undecodable ("OutputArguments is not valid JSON: " ++ elided))

/-- Reads a column that may be empty. -/
def column {α : Type} (read : String → Except Failure α) :
    Option String → Except Failure (Option α)
  | none => .ok none
  | some raw => (read raw).map some

/-- The output that a job shows in a status. -/
def outputIn (status : JobStatus) (output : Option Members) : Option Members :=
  match status with
  | .pending | .running => none
  | .successful | .faulted => some (output.getD .empty)
  | .stopped => output

namespace JobRow

def status? (jobId : String) (r : JobRow) : Except Failure JobStatus :=
  match r.state with
  | none => .error (.undecodable ("job " ++ jobId ++ " has no State"))
  | some s =>
    match JobStatus.ofName? s with
    | some st => .ok st
    | none => .error (.undecodable ("job " ++ jobId ++ ": " ++ JobStatus.unknown s))

def createdAt? (jobId : String) (r : JobRow) : Except Failure Timestamp :=
  match r.creationTime with
  | none => .error (.undecodable ("job " ++ jobId ++ " has no CreationTime"))
  | some raw => time? raw

/-- The record of a job row.  A row without a process takes the one given. -/
def record? (r : JobRow) (processKey : Option String) : Except Failure JobRecord := do
  let jobId ← jobId? r.id
  let status ← r.status? jobId
  let createdAt ← r.createdAt? jobId
  let output ← column arguments? (r.outputArguments.filter (!Text.isBlankText ·))
  let startedAt ← column time? r.startTime
  let endedAt ← column time? r.endTime
  return {
    jobId := jobId
    processKey := (r.releaseName.or processKey).getD ""
    status := status
    createdAt := createdAt
    startedAt := startedAt
    endedAt := endedAt
    outputArguments := outputIn status output
    info := r.info }

end JobRow

structure AssetRow where
  name : String
  valueType : String
  value : Json := .null
deriving Repr, Inhabited

namespace AssetRow

def fields : List (RecordField AssetRow) :=
  [.required "Name" .string fun v r => { r with name := v },
   .required "ValueType" .string fun v r => { r with valueType := v },
   .defaulted "Value" .json fun v r => { r with value := v }]

def toJson (r : AssetRow) : Json :=
  .object [("Name", .string r.name), ("ValueType", .string r.valueType), ("Value", r.value)]

def codec : Codec AssetRow := .record fields ⟨"", "", .null⟩ toJson

/-- The value in a column, as text. -/
def valueText : Json → String
  | .string s => s
  | .null => ""
  | other => other.render

/-- The asset of a row. -/
def asset? (r : AssetRow) : Except Failure AssetValue :=
  match AssetType.ofName? r.valueType with
  | some type => .ok ⟨r.name, type, valueText r.value⟩
  | none => .error (.undecodable ("asset " ++ r.name ++ ": " ++ AssetType.unknown r.valueType))

end AssetRow
end RobotDesk.OData
