import RobotDesk.Json.Document
import RobotDesk.Text.Glyph

/-!
Reading JSON text from left to right.

A reading error says only of which kind the first problem is: the text is malformed, it ended too
early, or it is well formed so far and says something else than expected.  At most 127 brackets may
be open at once; a value that is skipped has no such bound, and what stands inside its strings and
numbers is looked at less closely.

Loops over the items of an array or the members of an object count down from the length of the
text, which is more than the number of turns they can take.
-/
namespace RobotDesk.Json

open Text

inductive ReadError where
  | malformed
  | ended
  | mismatched
deriving DecidableEq, Repr

/-- What was read from the front of a text, and the text behind it. -/
abbrev Front (α : Type) := α × List Glyph

/-- A way to read something from the front of a text. -/
abbrev Scan (α : Type) := List Glyph → Except ReadError (Front α)

/-- The number of brackets that may be open at once. -/
def depthLimit : Nat := 127

def isSpace (g : Glyph) : Bool :=
  g = .char ' ' || g = .char '\n' || g = .char '\t' || g = .char '\r'

def skipSpace (g : List Glyph) : List Glyph := g.dropWhile isSpace

/-- Expects the rest of a literal. -/
def literal : List Char → List Glyph → Except ReadError (List Glyph)
  | [], g => .ok g
  | _ :: _, [] => .error .ended
  | c :: cs, d :: g => if d = .char c then literal cs g else .error .malformed

def hexValue? (c : Char) : Option Nat :=
  if '0' ≤ c ∧ c ≤ '9' then some (c.toNat - 48)
  else if 'a' ≤ c ∧ c ≤ 'f' then some (c.toNat - 87)
  else if 'A' ≤ c ∧ c ≤ 'F' then some (c.toNat - 55)
  else none

/-- The value of four hexadecimal digits. -/
def hexFour? : List Glyph → Option Nat
  | [.char a, .char b, .char c, .char d] => do
    return (← hexValue? a) * 4096 + (← hexValue? b) * 256 + (← hexValue? c) * 16
      + (← hexValue? d)
  | _ => none

/-- Reads four hexadecimal digits.  The text counts as ended only if fewer than four bytes are
left. -/
def hexEscape (g : List Glyph) : Except ReadError (Front Nat) :=
  match hexFour? (g.take 4) with
  | some n => .ok (n, g.drop 4)
  | none =>
    if (g.take 4).foldl (fun n c => n + c.size) 0 < 4 then .error .ended else .error .malformed

/-- The character of a one-letter escape. -/
def shortEscape? : Glyph → Option Char
  | .char '"' => some '"'
  | .char '\\' => some '\\'
  | .char '/' => some '/'
  | .char 'b' => some '\x08'
  | .char 'f' => some '\x0c'
  | .char 'n' => some '\n'
  | .char 'r' => some '\r'
  | .char 't' => some '\t'
  | _ => none

/-- The character of a Unicode escape: a high surrogate has to be followed by the escape of a low
one, and no low one stands alone. -/
def unicodeEscape (g : List Glyph) : Except ReadError (Front Char) := do
  let (n, g) ← hexEscape g
  if 0xdc00 ≤ n ∧ n ≤ 0xdfff then .error .malformed
  else if n < 0xd800 ∨ 0xdbff < n then .ok (Char.ofNat n, g)
  else match g with
    | [] => .error .ended
    | .char '\\' :: [] => .error .ended
    | .char '\\' :: .char 'u' :: g =>
      let (m, g) ← hexEscape g
      if m < 0xdc00 ∨ 0xdfff < m then .error .malformed
      else .ok (Char.ofNat (0x10000 + (n - 0xd800) * 0x400 + (m - 0xdc00)), g)
    | _ => .error .malformed

/-- Reads a string behind its opening quote.  The characters read before stand in reverse order. -/
def stringFrom (before : List Char) : Nat → Scan String
  | 0, _ => .error .ended
  | _ + 1, [] => .error .ended
  | _ + 1, .broken :: _ => .error .malformed
  | fuel + 1, .char c :: g =>
    if c = '"' then .ok (String.ofList before.reverse, g)
    else if c = '\\' then
      match g with
      | [] => .error .ended
      | e :: g =>
        match shortEscape? e with
        | some d => stringFrom (d :: before) fuel g
        | none =>
          if e = .char 'u' then
            match unicodeEscape g with
            | .ok (d, g) => stringFrom (d :: before) fuel g
            | .error e => .error e
          else .error .malformed
    else if c.toNat < 32 then .error .malformed
    else stringFrom (c :: before) fuel g

/-- Reads a string behind its opening quote. -/
def stringTail (g : List Glyph) : Except ReadError (Front String) := stringFrom [] (g.length + 1) g

def digit? : Glyph → Option Nat
  | .char c => if '0' ≤ c ∧ c ≤ '9' then some (c.toNat - 48) else none
  | .broken => none

/-- The digits at the front of a text, and what follows them. -/
def spanDigits : List Glyph → List Nat × List Glyph
  | [] => ([], [])
  | d :: g =>
    match digit? d with
    | some n => let (ns, r) := spanDigits g; (n :: ns, r)
    | none => ([], d :: g)

/-- Appends digits to a significand as long as it stays below `2 ^ 64`; the digits from the first
one that does not fit are only counted. -/
def absorb (significand : Nat) : List Nat → Nat × Nat
  | [] => (significand, 0)
  | d :: ds =>
    if 10 * significand + d < Number.twoTo 64 then absorb (10 * significand + d) ds
    else (significand, ds.length + 1)

/-- Multiplies or divides by a power of ten, by one rounded operation if the power is at most
`10 ^ 308`.  Below that range the number is divided by `10 ^ 308` first, at most twice, since the
second division leaves zero. -/
def scaleReal : Nat → Number.Binary64 → Int → Option Number.Binary64
  | 0, x, _ => some x
  | tries + 1, x, e =>
    if e.natAbs ≤ 308 then
      if 0 ≤ e then
        let y := x.mul (.pow10 e.natAbs)
        if y.isFinite then some y else none
      else some (x.div (.pow10 e.natAbs))
    else if x.rank = 0 then some x
    else if 0 ≤ e then none
    else scaleReal tries (x.div (.pow10 308)) (e + 308)

/-- The real written with these digits and this power of ten; a real beyond the finite range is an
error. -/
def realOf (negative : Bool) (significand : Nat) (exponent : Int) : Except ReadError Numeral :=
  match scaleReal 4 (.ofNat significand) exponent with
  | some x => .ok (.real ⟨negative, x.rank⟩)
  | none => .error .malformed

def ofDigits (ds : List Nat) : Nat := ds.foldl (fun n d => 10 * n + d) 0

/-- A number without point and power: an integer if it fits into 64 bits. -/
def wholeOf (negative : Bool) (ds : List Nat) : Except ReadError Numeral :=
  let n := ofDigits ds
  if !negative && n < Number.twoTo 64 then .ok (.int n)
  else if negative && 0 < n && n ≤ Number.twoTo 63 then .ok (.int (-n))
  else
    let (significand, dropped) := absorb 0 ds
    realOf negative significand dropped

/-- The digits of a power of ten behind its mark, with their sign. -/
def powerTail (g : List Glyph) : Except ReadError (Front Int) :=
  let (negative, g) := match g with
    | .char '+' :: r => (false, r)
    | .char '-' :: r => (true, r)
    | r => (false, r)
  match spanDigits g with
  | ([], []) => .error .ended
  | ([], _) => .error .malformed
  | (ds, r) => .ok (if negative then -(ofDigits ds : Int) else ofDigits ds, r)

/-- A real from its digits and whatever power of ten follows. -/
def realTail (negative : Bool) (significand : Nat) (exponent : Int) (g : List Glyph) :
    Except ReadError (Front Numeral) :=
  match g with
  | .char 'e' :: r | .char 'E' :: r => do
    let (power, r) ← powerTail r
    return (← realOf negative significand (exponent + power), r)
  | _ => do return (← realOf negative significand exponent, g)

/-- Reads a number behind its sign. -/
def numeralTail (negative : Bool) (g : List Glyph) : Except ReadError (Front Numeral) :=
  match spanDigits g with
  | ([], []) => .error .ended
  | ([], _) => .error .malformed
  | (0 :: _ :: _, _) => .error .malformed
  | (ds, r) =>
    let (significand, dropped) := absorb 0 ds
    match r with
    | .char '.' :: r =>
      match spanDigits r with
      | ([], []) => .error .ended
      | ([], _) => .error .malformed
      | (fs, r) =>
        let (significand, left) := absorb significand fs
        realTail negative significand (dropped + left - fs.length) r
    | .char 'e' :: _ | .char 'E' :: _ => realTail negative significand dropped r
    | _ => do return (← wholeOf negative ds, r)

/-- The error for a value of the wrong kind: a scalar is read first and its own problem counts. -/
def wrongKind : List Glyph → ReadError
  | .char 'n' :: g => after (literal "ull".toList g)
  | .char 't' :: g => after (literal "rue".toList g)
  | .char 'f' :: g => after (literal "alse".toList g)
  | .char '-' :: g => after (numeralTail true g)
  | .char '"' :: g => after (stringTail g)
  | .char '[' :: _ => .mismatched
  | .char '\x7b' :: _ => .mismatched
  | d :: g => if (digit? d).isSome then after (numeralTail false (d :: g)) else .malformed
  | [] => .ended
where
  after {α : Type} : Except ReadError α → ReadError
    | .ok _ => .mismatched
    | .error e => e

/-- The items of an array behind the first one. -/
def moreItems {α : Type} (item : Scan α) : Nat → Scan (List α)
  | 0, _ => .error .ended
  | fuel + 1, g =>
    match skipSpace g with
    | [] => .error .ended
    | .char ']' :: r => .ok ([], r)
    | .char ',' :: r =>
      match skipSpace r with
      | [] => .error .ended
      | .char ']' :: _ => .error .malformed
      | r => do
        let (v, r) ← item r
        let (vs, r) ← moreItems item fuel r
        return (v :: vs, r)
    | _ => .error .malformed

/-- The items of an array behind its opening bracket. -/
def items {α : Type} (item : Scan α) (g : List Glyph) :
    Except ReadError (Front (List α)) :=
  match skipSpace g with
  | [] => .error .ended
  | .char ']' :: r => .ok ([], r)
  | r => do
    let (v, r) ← item r
    let (vs, r) ← moreItems item (r.length + 1) r
    return (v :: vs, r)

/-- The members of an object behind the first one, each taken up by `step`, which is given the key
and the text behind it. -/
def moreMembers {σ : Type} (step : σ → String → Scan σ) :
    Nat → σ → Scan σ
  | 0, _, _ => .error .ended
  | fuel + 1, s, g =>
    match skipSpace g with
    | [] => .error .ended
    | .char '\x7d' :: r => .ok (s, r)
    | .char ',' :: r =>
      match skipSpace r with
      | [] => .error .ended
      | .char '"' :: r => do
        let (key, r) ← stringTail r
        let (s, r) ← step s key r
        moreMembers step fuel s r
      | _ => .error .malformed
    | _ => .error .malformed

/-- The members of an object behind its opening bracket. -/
def foldMembers {σ : Type} (step : σ → String → Scan σ) (s : σ)
    (g : List Glyph) : Except ReadError (Front σ) :=
  match skipSpace g with
  | [] => .error .ended
  | .char '\x7d' :: r => .ok (s, r)
  | .char '"' :: r => do
    let (key, r) ← stringTail r
    let (s, r) ← step s key r
    moreMembers step (r.length + 1) s r
  | _ => .error .malformed

/-- Expects the colon behind a key. -/
def colon (g : List Glyph) : Except ReadError (List Glyph) :=
  match skipSpace g with
  | [] => .error .ended
  | .char ':' :: r => .ok r
  | _ => .error .malformed

/-- Reads a value, with the reader for values inside brackets; without one no bracket may open. -/
def valueWith (nested : Option (Scan Document)) (g : List Glyph) :
    Except ReadError (Front Document) :=
  match skipSpace g with
  | [] => .error .ended
  | .char 'n' :: r => do return (.null, ← literal "ull".toList r)
  | .char 't' :: r => do return (.bool true, ← literal "rue".toList r)
  | .char 'f' :: r => do return (.bool false, ← literal "alse".toList r)
  | .char '-' :: r => do
    let (n, r) ← numeralTail true r
    return (.number n, r)
  | .char '"' :: r => do
    let (s, r) ← stringTail r
    return (.string s, r)
  | .char '[' :: r =>
    match nested with
    | none => .error .malformed
    | some value => do
      let (vs, r) ← items value r
      return (.array vs, r)
  | .char '\x7b' :: r =>
    match nested with
    | none => .error .malformed
    | some value => do
      let (ms, r) ← foldMembers (memberStep value) .empty r
      return (.object ms, r)
  | d :: r =>
    if (digit? d).isSome then do
      let (n, r) ← numeralTail false (d :: r)
      return (.number n, r)
    else .error .malformed
where
  memberStep (value : Scan Document) (ms : Members) (key : String)
      (g : List Glyph) : Except ReadError (Front Members) := do
    let (v, r) ← value (← colon g)
    return (ms.insert key v, r)

/-- Reads a value in which at most `depth` brackets are open at once. -/
def value : Nat → Scan Document
  | 0 => valueWith none
  | depth + 1 => valueWith (some (value depth))

/-- Passes over a string behind its opening quote.  Neither surrogates nor broken glyphs
matter. -/
def skipString : Nat → List Glyph → Except ReadError (List Glyph)
  | 0, _ => .error .ended
  | _ + 1, [] => .error .ended
  | fuel + 1, .broken :: g => skipString fuel g
  | fuel + 1, .char c :: g =>
    if c = '"' then .ok g
    else if c = '\\' then
      match g with
      | [] => .error .ended
      | e :: g =>
        if (shortEscape? e).isSome then skipString fuel g
        else if e = .char 'u' then
          match hexEscape g with
          | .ok (_, g) => skipString fuel g
          | .error e => .error e
        else .error .malformed
    else if c.toNat < 32 then .error .malformed
    else skipString fuel g

/-- Passes over a power of ten, if there is one. -/
def skipPower (g : List Glyph) : Except ReadError (List Glyph) :=
  match g with
  | .char 'e' :: r | .char 'E' :: r =>
    match powerTail r with
    | .ok (_, r) => .ok r
    | .error _ => .error .malformed
  | _ => .ok g

/-- Passes over a number behind its sign.  Its size does not matter, and one that breaks off is
malformed. -/
def skipNumeral (g : List Glyph) : Except ReadError (List Glyph) :=
  match spanDigits g with
  | ([], _) => .error .malformed
  | (0 :: _ :: _, _) => .error .malformed
  | (_, .char '.' :: r) =>
    match spanDigits r with
    | ([], _) => .error .malformed
    | (_, r) => skipPower r
  | (_, r) => skipPower r

/-- Passes over a value, given how to pass over one inside brackets. -/
def skipWith (nested : Scan Unit) (g : List Glyph) : Except ReadError (Front Unit) :=
  match skipSpace g with
  | [] => .error .ended
  | .char 'n' :: r => do return ((), ← literal "ull".toList r)
  | .char 't' :: r => do return ((), ← literal "rue".toList r)
  | .char 'f' :: r => do return ((), ← literal "alse".toList r)
  | .char '-' :: r => do return ((), ← skipNumeral r)
  | .char '"' :: r => do return ((), ← skipString (r.length + 1) r)
  | .char '[' :: r => do
    let (_, r) ← items nested r
    return ((), r)
  | .char '\x7b' :: r => skipMembers nested (r.length + 1) (skipSpace r)
  | d :: r =>
    if (digit? d).isSome then do return ((), ← skipNumeral (d :: r)) else .error .malformed
where
  /-- Passes over the members of an object from the first key on, or to its end. -/
  skipMembers (nested : Scan Unit) : Nat → Scan Unit
    | 0, _ => .error .ended
    | _ + 1, [] => .error .ended
    | _ + 1, .char '\x7d' :: r => .ok ((), r)
    | fuel + 1, .char '"' :: r => do
      let r ← skipString (r.length + 1) r
      let (_, r) ← nested (← colon r)
      match skipSpace r with
      | [] => .error .ended
      | .char '\x7d' :: r => .ok ((), r)
      | .char ',' :: r =>
        match skipSpace r with
        | .char '\x7d' :: _ => .error .malformed
        | r => skipMembers nested fuel r
      | _ => .error .malformed
    | _ + 1, _ => .error .malformed

/-- Passes over a value that opens at most so many brackets. -/
def skipValue : Nat → Scan Unit
  | 0 => skipWith fun _ => .error .ended
  | depth + 1 => skipWith (skipValue depth)

/-- Reads a whole text: nothing but blanks may follow. -/
def whole {α : Type} (read : Scan α) (g : List Glyph) : Except ReadError α := do
  let (v, r) ← read g
  match skipSpace r with
  | [] => .ok v
  | _ => .error .malformed

/-- The document that a text spells. -/
def parse (s : String) : Except ReadError Document := whole (value depthLimit) (glyphs s)

/-- The document that a text spells, if it spells one. -/
def parse? (s : String) : Option Document := (parse s).toOption

end RobotDesk.Json
