import RobotDesk.Json.Codec

/-!
Assets: named values, each with a type, kept at the orchestrator.
-/
namespace RobotDesk

open Json

inductive AssetType where
  | text
  | integer
  | bool
  | credential
deriving DecidableEq, Repr, Inhabited

namespace AssetType

def name : AssetType → String
  | .text => "Text"
  | .integer => "Integer"
  | .bool => "Bool"
  | .credential => "Credential"

def all : List AssetType := [.text, .integer, .bool, .credential]

/-- The type with a name, spelled exactly. -/
def ofName? (s : String) : Option AssetType := all.find? (·.name = s)

theorem ofName?_name (t : AssetType) : ofName? t.name = some t := by cases t <;> decide

/-- A type is found under its own name only. -/
theorem ofName?_eq_some_iff (s : String) (t : AssetType) : ofName? s = some t ↔ s = t.name := by
  constructor
  · intro h
    have hname := List.find?_some h
    exact (of_decide_eq_true hname).symm
  · rintro rfl
    exact ofName?_name t

/-- What is said about a name that no type has. -/
def unknown (s : String) : String := "unknown asset type '" ++ s ++ "'"

def codec : Codec AssetType := .choice ofName? name

end AssetType

structure AssetValue where
  name : String
  type : AssetType := .text
  value : String
deriving DecidableEq, Repr, Inhabited

namespace AssetValue

def fields : List (RecordField AssetValue) :=
  [.required "name" .string fun v r => { r with name := v },
   .defaulted "type" AssetType.codec fun v r => { r with type := v },
   .required "value" .string fun v r => { r with value := v }]

def toJson (a : AssetValue) : Json :=
  .object [("name", .string a.name), ("type", AssetType.codec.toJson a.type),
    ("value", .string a.value)]

def codec : Codec AssetValue := .record fields ⟨"", .text, ""⟩ toJson

end AssetValue
end RobotDesk
