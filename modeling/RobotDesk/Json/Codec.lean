import RobotDesk.Json.Reader
import RobotDesk.Json.Printer

/-!
Codecs: how a type is read from JSON text, read from a JSON value, and written.

Reading from text goes from left to right and reports the first problem; it is given the number of
brackets that may still open.  Reading from a value only succeeds or fails.

A record is written as an object with its fields in their order.  It is read from an object, in
which unknown members are skipped and a known one may stand once, or from an array of its fields in
their order.  Both start from a blank record and set the fields that are found.  A required field
has to be found; an optional one may be left out of an object, and a defaulted one also at the end
of an array.
-/
namespace RobotDesk.Json

open Text

structure Codec (α : Type) where
  read : Nat → Scan α
  ofJson? : Json → Option α
  toJson : α → Json

/-- The value of a type that a whole text spells. -/
def Codec.decode {α : Type} (c : Codec α) (g : List Glyph) : Except ReadError α :=
  whole (c.read depthLimit) g

/-- Reads a string. -/
def readString (g : List Glyph) : Except ReadError (Front String) :=
  match skipSpace g with
  | [] => .error .ended
  | .char '"' :: r => stringTail r
  | r => .error (wrongKind r)

namespace Codec

variable {α β : Type}

def json : Codec Json where
  read depth g := do
    let (d, r) ← value depth g
    return (d.value, r)
  ofJson? := some
  toJson := id

def string : Codec String where
  read _ := readString
  ofJson?
    | .string s => some s
    | _ => none
  toJson := .string

def bool : Codec Bool where
  read _ g :=
    match skipSpace g with
    | [] => .error .ended
    | .char 't' :: r => do return (true, ← literal "rue".toList r)
    | .char 'f' :: r => do return (false, ← literal "alse".toList r)
    | r => .error (wrongKind r)
  ofJson?
    | .bool b => some b
    | _ => none
  toJson := .bool

/-- A count: an integer that is not negative. -/
def count : Codec Nat where
  read _ g := do
    let (n, r) ← match skipSpace g with
      | [] => .error .ended
      | .char '-' :: r => numeralTail true r
      | d :: r =>
        if (digit? d).isSome then numeralTail false (d :: r) else .error (wrongKind (d :: r))
    match n with
    | .int (.ofNat n) => .ok (n, r)
    | _ => .error .mismatched
  ofJson?
    | .number (.int (.ofNat n)) => some n
    | _ => none
  toJson n := .nat n

/-- A free-form object. -/
def members : Codec Members where
  read depth g :=
    match skipSpace g, depth with
    | [], _ => .error .ended
    | .char '\x7b' :: _, 0 => .error .malformed
    | .char '\x7b' :: r, depth + 1 => foldMembers (valueWith.memberStep (value depth)) .empty r
    | r, _ => .error (wrongKind r)
  ofJson?
    | .object ms => if h : Ordered (.object ms) then some ⟨ms, h⟩ else none
    | _ => none
  toJson := Members.toJson

/-- A value or null. -/
def option (c : Codec α) : Codec (Option α) where
  read depth g :=
    match skipSpace g with
    | .char 'n' :: r => do return (none, ← literal "ull".toList r)
    | r => do
      let (v, r) ← c.read depth r
      return (some v, r)
  ofJson?
    | .null => some none
    | v => (c.ofJson? v).map some
  toJson
    | none => .null
    | some v => c.toJson v

def list (c : Codec α) : Codec (List α) where
  read depth g :=
    match skipSpace g, depth with
    | [], _ => .error .ended
    | .char '[' :: _, 0 => .error .malformed
    | .char '[' :: r, depth + 1 => items (c.read depth) r
    | r, _ => .error (wrongKind r)
  ofJson?
    | .array vs => vs.mapM c.ofJson?
    | _ => none
  toJson vs := .array (vs.map c.toJson)

/-- A type spelled as a string of its own. -/
def spelled (parse : String → Option α) (print : α → String) : Codec α where
  read _ g := do
    let (s, r) ← readString g
    match parse s with
    | some v => .ok (v, r)
    | none => .error .mismatched
  ofJson?
    | .string s => parse s
    | _ => none
  toJson v := .string (print v)

/-- Reads the name of a choice behind its opening quote. -/
def choiceName (parse : String → Option α) (g : List Glyph) : Except ReadError (Front α) := do
  let (s, r) ← stringTail g
  match parse s with
  | some v => .ok (v, r)
  | none => .error .mismatched

/-- One of several names, written as a string, and also read from an object whose one member has
that name and the value null. -/
def choice (parse : String → Option α) (print : α → String) : Codec α where
  read depth g :=
    match skipSpace g, depth with
    | [], _ => .error .ended
    | .char '"' :: r, _ => choiceName parse r
    | .char '\x7b' :: _, 0 => .error .malformed
    | .char '\x7b' :: r, _ + 1 => do
      let (v, r) ← match skipSpace r with
        | [] => .error .ended
        | .char '"' :: r => choiceName parse r
        | _ => .error .malformed
      let r ← match skipSpace (← colon r) with
        | [] => .error .ended
        | .char 'n' :: r => literal "ull".toList r
        | r => .error (wrongKind r)
      match skipSpace r with
      | [] => .error .ended
      | .char '\x7d' :: r => .ok (v, r)
      | _ => .error .malformed
    | _, _ => .error .malformed
  ofJson?
    | .string s => parse s
    | .object [(s, .null)] => parse s
    | _ => none
  toJson v := .string (print v)

end Codec

/-- When a field may be left out. -/
inductive Presence where
  | required
  | optional
  | defaulted
deriving DecidableEq, Repr

/-- A field of a record: its name, when it may be left out, and how it is read and set. -/
structure RecordField (σ : Type) where
  name : String
  presence : Presence
  read : Nat → Scan (σ → σ)
  ofJson? : Json → Option (σ → σ)

namespace RecordField

variable {σ α : Type}

def make (presence : Presence) (name : String) (c : Codec α) (set : α → σ → σ) :
    RecordField σ where
  name := name
  presence := presence
  read depth g := do
    let (v, r) ← c.read depth g
    return (set v, r)
  ofJson? v := (c.ofJson? v).map set

def required (name : String) (c : Codec α) (set : α → σ → σ) : RecordField σ :=
  make .required name c set

def optional (name : String) (c : Codec α) (set : α → σ → σ) : RecordField σ :=
  make .optional name c set

def defaulted (name : String) (c : Codec α) (set : α → σ → σ) : RecordField σ :=
  make .defaulted name c set

end RecordField

namespace Fields

variable {σ : Type}

/-- Whether each required field has been seen. -/
def complete (fields : List (RecordField σ)) (seen : List String) : Bool :=
  fields.all fun f => f.presence ≠ .required || seen.contains f.name

/-- Takes up a member of an object, with the names seen before. -/
def step (fields : List (RecordField σ)) (depth : Nat) (state : List String × σ) (key : String)
    (g : List Glyph) : Except ReadError (Front (List String × σ)) :=
  match fields.find? (·.name = key) with
  | none => do
    let r ← colon g
    let (_, r) ← skipValue r.length r
    return (state, r)
  | some f =>
    if state.1.contains key then .error .mismatched
    else do
      let (set, r) ← f.read depth (← colon g)
      return ((key :: state.1, set state.2), r)

/-- Reads the fields of a record from an object behind its opening bracket. -/
def readObject (fields : List (RecordField σ)) (depth : Nat) (blank : σ) (g : List Glyph) :
    Except ReadError (Front σ) := do
  let ((seen, s), r) ← foldMembers (step fields depth) ([], blank) g
  if complete fields seen then .ok (s, r) else .error .mismatched

/-- Reads fields from an array from its next item on; `first` says that none stands before. -/
def readArray (depth : Nat) : List (RecordField σ) → Bool → σ → Scan σ
  | [], _, s, g =>
    match skipSpace g with
    | [] => .error .ended
    | .char ']' :: r => .ok (s, r)
    | _ => .error .malformed
  | f :: fs, first, s, g =>
    match skipSpace g with
    | [] => .error .ended
    | .char ']' :: r =>
      if (f :: fs).all (·.presence = .defaulted) then .ok (s, r) else .error .mismatched
    | .char ',' :: r =>
      if first then .error .malformed
      else match skipSpace r with
        | [] => .error .ended
        | .char ']' :: _ => .error .malformed
        | r => do
          let (set, r) ← f.read depth r
          readArray depth fs false (set s) r
    | r =>
      if first then do
        let (set, r) ← f.read depth r
        readArray depth fs false (set s) r
      else .error .malformed

/-- The fields that the members of an object set. -/
def ofMembers (fields : List (RecordField σ)) : Entries → List String × σ → Option (List String × σ)
  | [], state => some state
  | (key, v) :: rest, (seen, s) =>
    match fields.find? (·.name = key) with
    | none => ofMembers fields rest (seen, s)
    | some f => do ofMembers fields rest (key :: seen, (← f.ofJson? v) s)

/-- The fields that the items of an array set. -/
def ofItems : List (RecordField σ) → List Json → σ → Option σ
  | [], [], s => some s
  | [], _ :: _, _ => none
  | f :: fs, [], s => if (f :: fs).all (·.presence = .defaulted) then some s else none
  | f :: fs, v :: vs, s => do ofItems fs vs ((← f.ofJson? v) s)

end Fields

/-- The codec of a record. -/
def Codec.record {σ : Type} (fields : List (RecordField σ)) (blank : σ) (toJson : σ → Json) :
    Codec σ where
  read depth g :=
    match skipSpace g, depth with
    | [], _ => .error .ended
    | .char '[' :: _, 0 => .error .malformed
    | .char '\x7b' :: _, 0 => .error .malformed
    | .char '[' :: r, depth + 1 => Fields.readArray depth fields true blank r
    | .char '\x7b' :: r, depth + 1 => Fields.readObject fields depth blank r
    | r, _ => .error (wrongKind r)
  ofJson?
    | .object ms => do
      let (seen, s) ← Fields.ofMembers fields ms ([], blank)
      if Fields.complete fields seen then some s else none
    | .array vs => Fields.ofItems fields vs blank
    | _ => none
  toJson := toJson

/-- A member that is left out when there is no value. -/
def present? {α : Type} (name : String) (c : Codec α) : Option α → Entries
  | none => []
  | some v => [(name, c.toJson v)]

end RobotDesk.Json
