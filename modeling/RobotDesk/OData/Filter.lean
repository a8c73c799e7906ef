import RobotDesk.Job

/-!
Filter expressions: clauses `field eq 'literal'` joined by ` and `.  A quote inside a literal is
written twice.
-/
namespace RobotDesk.OData

structure Clause where
  field : String
  literal : String
deriving DecidableEq, Repr

/-- Doubles quotes. -/
def quoteChars (cs : List Char) : List Char :=
  cs.flatMap fun c => if c = '\x27' then ['\x27', '\x27'] else [c]

@[simp] theorem quoteChars_nil : quoteChars [] = [] := rfl

/-- A quoted literal. -/
def quote (s : String) : String := "'" ++ String.ofList (quoteChars s.toList) ++ "'"

namespace Clause

def text (c : Clause) : String := c.field ++ " eq " ++ quote c.literal

end Clause

/-- The expression of some clauses. -/
def expression (clauses : List Clause) : String := " and ".intercalate (clauses.map Clause.text)

/-- The clauses that select what a job filter accepts. -/
def jobClauses (f : JobFilter) : List Clause :=
  (f.processKey.map (Clause.mk "ReleaseName")).toList
    ++ (f.status.map fun s => Clause.mk "State" s.name).toList

/-- The expression for a job filter; none for a filter that names nothing. -/
def jobExpression? (f : JobFilter) : Option String :=
  if f.isEmpty then none else some (expression (jobClauses f))

/-- The expression that selects the asset with a name. -/
def assetExpression (name : String) : String := expression [⟨"Name", name⟩]

/-- The rest of a literal up to its closing quote, and what follows it. -/
def literalTail : List Char → Option (List Char × List Char)
  | [] => none
  | ['\x27'] => some ([], [])
  | '\x27' :: c :: rest =>
    if c = '\x27' then (literalTail rest).map fun (l, r) => ('\x27' :: l, r)
    else some ([], c :: rest)
  | c :: rest => (literalTail rest).map fun (l, r) => (c :: l, r)

/-- What follows a given text at the front of another. -/
def after? (front cs : List Char) : Option (List Char) :=
  if front.isPrefixOf cs then some (cs.drop front.length) else none

/-- Reads one clause; a field is made of letters. -/
def clause? (cs : List Char) : Option (Clause × List Char) := do
  let field := cs.takeWhile Char.isAlpha
  let rest ← after? " eq '".toList (cs.dropWhile Char.isAlpha)
  let (literal, rest) ← literalTail rest
  if field.isEmpty then none else return (⟨String.ofList field, String.ofList literal⟩, rest)

/-- Reads clauses; each takes at least one character. -/
def clausesFrom? : Nat → List Char → Option (List Clause)
  | 0, _ => none
  | fuel + 1, cs => do
    let (c, rest) ← clause? cs
    match rest with
    | [] => return [c]
    | rest => return c :: (← clausesFrom? fuel (← after? " and ".toList rest))

/-- The clauses that an expression consists of, if it is one. -/
def clauses? (s : String) : Option (List Clause) := clausesFrom? s.length s.toList

end RobotDesk.OData
