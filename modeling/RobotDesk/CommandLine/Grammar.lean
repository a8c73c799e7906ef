/-!
Command lines: what may be typed, and how it is taken apart.

A grammar has options, operands and commands, and each command has a grammar of its own, which takes
over from the command's name on.  An option may have its value attached (`--name=value`, `-nvalue`,
`-n=value`) or in the next argument; a switch has none, and several switches may share one dash.
After `--` every argument is an operand.  Options that are not typed may come from environment
variables.

A value that stands in an argument of its own is looked at only when the next option or operand is
met, or at the end; an argument that is not known wins over it.  What a command's own grammar finds
wrong wins over what is still open before the command.
-/
namespace RobotDesk.CommandLine

/-- What can be wrong with a command line; to ask for help counts too. -/
inductive UsageError where
  | badValue
  | missingValue
  | unknownArgument
  | repeated
  | unneededValue
  | missingOperand
  | unknownCommand
  | missingCommand
  | nothingGiven
  | help
deriving DecidableEq, Repr

/-- The exit code; to have asked for help is no error. -/
def UsageError.exitCode : UsageError → Nat
  | .help => 0
  | _ => 2

/-- An option or an operand. -/
structure Parameter where
  name : String
  short : Option Char := none
  isSwitch : Bool := false
  repeatable : Bool := false
  /-- The environment variable that gives the value when it is not typed. -/
  envName : Option String := none
  /-- What is wrong with a value. -/
  problem? : String → Option UsageError := fun _ => none

inductive Grammar where
  | mk (options operands : List Parameter) (commands : List (String × Grammar))

namespace Grammar

def options : Grammar → List Parameter
  | mk options _ _ => options

def operands : Grammar → List Parameter
  | mk _ operands _ => operands

def commands : Grammar → List (String × Grammar)
  | mk _ _ commands => commands

def long? (g : Grammar) (name : String) : Option Parameter := g.options.find? (·.name = name)

def short? (g : Grammar) (c : Char) : Option Parameter := g.options.find? (·.short = some c)

def command? (g : Grammar) (name : String) : Option Grammar :=
  (g.commands.find? (·.1 = name)).map (·.2)

end Grammar

/-- What has been taken in for one grammar. -/
structure Level where
  /-- The options and operands with their values, the latest first. -/
  given : List (String × String) := []
  /-- An option or operand whose value has not been looked at; an option may still wait for it. -/
  pending : Option (Parameter × Option String) := none
  /-- The operands that are still to come. -/
  operands : List Parameter
  /-- Whether only operands follow. -/
  closed : Bool := false

namespace Level

def has (l : Level) (name : String) : Bool := l.given.any (·.1 = name)

/-- Whether an option waits for its value. -/
def waiting (l : Level) : Bool :=
  match l.pending with
  | some (_, none) => true
  | _ => false

/-- Records an option or operand. -/
def take (l : Level) (p : Parameter) (value : Option String) : Except UsageError Level :=
  match p.isSwitch, value with
  | false, none => .error .missingValue
  | _, _ =>
    if !p.repeatable && l.has p.name then .error .repeated
    else
      let value := value.getD ""
      match p.problem? value with
      | some e => .error e
      | none => .ok { l with given := (p.name, value) :: l.given }

/-- Looks at the value that was left open. -/
def settle (l : Level) : Except UsageError Level :=
  match l.pending with
  | none => .ok l
  | some (p, value) => { l with pending := none }.take p value

/-- Settles, and then records an option. -/
def settleTake (l : Level) (p : Parameter) (value : Option String) : Except UsageError Level := do
  (← l.settle).take p value

/-- Settles, and then leaves an option or operand open. -/
def settleOpen (l : Level) (p : Parameter) (value : Option String) : Except UsageError Level := do
  return { ← l.settle with pending := some (p, value) }

/-- Settles, and then shows the help. -/
def settleHelp (l : Level) : Except UsageError Level := do
  let _ ← l.settle
  .error .help

/-- An argument `--name` or `--name=value`, without its dashes. -/
def long (g : Grammar) (l : Level) (cs : List Char) : Except UsageError Level :=
  let name := String.ofList (cs.takeWhile (· ≠ '='))
  let value := match cs.dropWhile (· ≠ '=') with
    | _ :: v => some (String.ofList v)
    | [] => none
  match g.long? name with
  | some p =>
    match p.isSwitch, value with
    | true, some _ => .error .unneededValue
    | true, none => l.settleTake p none
    | false, some v => l.settleTake p (some v)
    | false, none => l.settleOpen p none
  | none =>
    if name = "help" then (if value.isSome then .error .unneededValue else l.settleHelp)
    else .error .unknownArgument

/-- An argument `-n`, `-nvalue` or `-n=value`, or several switches, without the dash. -/
def shorts (g : Grammar) (l : Level) : List Char → Except UsageError Level
  | [] => .ok l
  | c :: cs =>
    match g.short? c with
    | some p =>
      if p.isSwitch then do shorts g (← l.settleTake p none) cs
      else match cs with
        | [] => l.settleOpen p none
        | '=' :: v => l.settleTake p (some (String.ofList v))
        | v => l.settleTake p (some (String.ofList v))
    | none => if c = 'h' then l.settleHelp else .error .unknownArgument

/-- An argument that is no option. -/
def operand (g : Grammar) (l : Level) (arg : String) : Except UsageError Level :=
  match l.operands with
  | p :: ps => do return { ← l.settleOpen p (some arg) with operands := ps }
  | [] =>
    if g.commands.isEmpty || (l.closed && ((g.command? arg).isSome || arg = "help")) then
      .error .unknownArgument
    else .error .unknownCommand

/-- An argument that is not the name of a command. -/
def step (g : Grammar) (l : Level) (arg : String) : Except UsageError Level :=
  if l.closed then l.operand g arg
  else match arg.toList with
    | ['-', '-'] => .ok { l with closed := true }
    | '-' :: '-' :: cs => l.long g cs
    | '-' :: c :: cs => l.shorts g (c :: cs)
    | _ =>
      match l.pending with
      | some (p, none) => .ok { l with pending := some (p, some arg) }
      | _ => l.operand g arg

/-- Takes values from environment variables for the options that were not typed. -/
def fill (environment : String → Option String) (l : Level) : List Parameter →
    Except UsageError Level
  | [] => .ok l
  | p :: ps =>
    match l.has p.name, p.envName.bind environment with
    | false, some value => do fill environment (← l.take p (some value)) ps
    | _, _ => fill environment l ps

/-- What is found at the end; `entered` says whether a command was named. -/
def finish (environment : String → Option String) (g : Grammar) (l : Level) (entered : Bool) :
    Except UsageError Level := do
  let l ← (← l.settle).fill environment g.options
  if !entered && !g.commands.isEmpty then
    .error (if l.given.isEmpty then .nothingGiven else .missingCommand)
  else if !l.operands.isEmpty then .error .missingOperand
  else .ok l

end Level

/-- The commands that were named, and all options and operands with their values in the order of the
grammars and, inside each, the latest first. -/
structure Parsed where
  path : List String
  given : List (String × String)
deriving DecidableEq, Repr

namespace Parsed

/-- The value of an option or operand. -/
def value? (p : Parsed) (name : String) : Option String := (p.given.find? (·.1 = name)).map (·.2)

/-- All values of an option, in the order in which they were typed. -/
def values (p : Parsed) (name : String) : List String :=
  ((p.given.filter (·.1 = name)).map (·.2)).reverse

def has (p : Parsed) (name : String) : Bool := p.given.any (·.1 = name)

end Parsed

namespace Grammar

/-- What asking for help on a command comes to. -/
def helpOn : Grammar → List String → UsageError
  | _, [] => .help
  | g, name :: rest =>
    match g.command? name with
    | some sub => helpOn sub rest
    | none =>
      if name = "help" && !g.commands.isEmpty && rest.isEmpty then .help else .unknownCommand

/-- Takes arguments apart, from a level on. -/
def parseFrom (environment : String → Option String) (g : Grammar) (l : Level) :
    List String → Except UsageError Parsed
  | [] => do
    let l ← l.finish environment g false
    return ⟨[], l.given⟩
  | arg :: rest =>
    match if l.closed || l.waiting then none else g.command? arg with
    | some sub => do
      let inner ← parseFrom environment sub { operands := sub.operands } rest
      let l ← l.finish environment g true
      return ⟨arg :: inner.path, l.given ++ inner.given⟩
    | none =>
      if arg = "help" && !g.commands.isEmpty && !l.closed && !l.waiting then .error (g.helpOn rest)
      else do parseFrom environment g (← l.step g arg) rest

/-- Takes a command line apart. -/
def parse (g : Grammar) (environment : String → Option String) (args : List String) :
    Except UsageError Parsed :=
  parseFrom environment g { operands := g.operands } args

end Grammar
end RobotDesk.CommandLine
