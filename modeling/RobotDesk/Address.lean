/-!
Socket addresses: an IP address and a port, as typed and as printed.

An IPv4 address is four decimal numbers up to 255 without needless zeros.  An IPv6 address stands in
brackets: up to eight groups of up to four hexadecimal digits, the last two of which may be written
as an IPv4 address, where `::` stands for one or more zero groups; a scope number may follow it.
Printed, the longest run of two or more zero groups is shortened, the first of several.
-/
namespace RobotDesk

inductive Host where
  | v4 (octets : List Nat)
  | v6 (groups : List Nat) (scope : Nat)
deriving DecidableEq, Repr, Inhabited

structure Address where
  host : Host
  port : Nat
deriving DecidableEq, Repr, Inhabited

namespace Address

/-- The value of a digit in a base up to 16. -/
def digitValue? (base : Nat) (c : Char) : Option Nat :=
  let n := if c.isDigit then c.toNat - 48
    else if 'a' ≤ c ∧ c ≤ 'f' then c.toNat - 87
    else if 'A' ≤ c ∧ c ≤ 'F' then c.toNat - 55
    else 16
  if n < base then some n else none

def isDigit (base : Nat) (c : Char) : Bool := (digitValue? base c).isSome

/-- A number up to a limit, from at most `most` digits where that is given. -/
def number? (base : Nat) (most : Option Nat) (zeros : Bool) (limit : Nat) (cs : List Char) :
    Option (Nat × List Char) :=
  let digits := cs.takeWhile (isDigit base)
  let value := digits.foldl (fun n c => base * n + (digitValue? base c).getD 0) 0
  if digits.isEmpty || limit < value || most.any (· < digits.length)
      || (!zeros && digits.head? = some '0' && 1 < digits.length) then none
  else some (value, cs.drop digits.length)

def char? (c : Char) : List Char → Option (List Char)
  | d :: rest => if c = d then some rest else none
  | [] => none

/-- A separator, unless this is the first of several parts. -/
def separator? (c : Char) (first : Bool) (cs : List Char) : Option (List Char) :=
  if first then some cs else char? c cs

def octet? : List Char → Option (Nat × List Char) := number? 10 (some 3) false 255

def v4? (cs : List Char) : Option (List Nat × List Char) := do
  let (a, cs) ← octet? cs
  let (b, cs) ← octet? (← char? '.' cs)
  let (c, cs) ← octet? (← char? '.' cs)
  let (d, cs) ← octet? (← char? '.' cs)
  return ([a, b, c, d], cs)

/-- The two groups that an IPv4 address stands for. -/
def pairs : List Nat → List Nat
  | a :: b :: rest => (256 * a + b) :: pairs rest
  | rest => rest

/-- At most a number of groups; also whether they end in an IPv4 address. -/
def groups : Nat → Bool → List Char → List Nat × Bool × List Char
  | 0, _, cs => ([], false, cs)
  | most + 1, first, cs =>
    let embedded := if most = 0 then none else (separator? ':' first cs).bind v4?
    match embedded with
    | some (octets, rest) => (pairs octets, true, rest)
    | none =>
      match (separator? ':' first cs).bind (number? 16 (some 4) true 65535) with
      | some (g, rest) =>
        let (gs, dotted, rest) := groups most false rest
        (g :: gs, dotted, rest)
      | none => ([], false, cs)

def v6? (cs : List Char) : Option (List Nat × List Char) := do
  let (head, dotted, rest) := groups 8 true cs
  if head.length = 8 then return (head, rest)
  else if dotted then none
  else
    let rest ← char? ':' (← char? ':' rest)
    let (tail, _, rest) := groups (7 - head.length) true rest
    return (head ++ List.replicate (8 - head.length - tail.length) 0 ++ tail, rest)

def port? (cs : List Char) : Option (Nat × List Char) := do
  number? 10 none true 65535 (← char? ':' cs)

def scope? (cs : List Char) : Nat × List Char :=
  match (char? '%' cs).bind (number? 10 none true 4294967295) with
  | some found => found
  | none => (0, cs)

def ofV4? (cs : List Char) : Option (Address × List Char) := do
  let (octets, cs) ← v4? cs
  let (port, cs) ← port? cs
  return (⟨.v4 octets, port⟩, cs)

def ofV6? (cs : List Char) : Option (Address × List Char) := do
  let (gs, cs) ← v6? (← char? '[' cs)
  let (scope, cs) := scope? cs
  let (port, cs) ← port? (← char? ']' cs)
  return (⟨.v6 gs scope, port⟩, cs)

/-- The address that a text spells, if it spells one. -/
def ofText? (s : String) : Option Address :=
  match (ofV4? s.toList).orElse fun _ => ofV6? s.toList with
  | some (a, []) => some a
  | _ => none

def v4Text (octets : List Nat) : String := ".".intercalate (octets.map Nat.repr)

def hex (n : Nat) : String := String.ofList (Nat.toDigits 16 n)

def hexText (gs : List Nat) : String := ":".intercalate (gs.map hex)

/-- The length of the run of zeros that starts at each group. -/
def runs : List Nat → List Nat
  | [] => []
  | g :: gs => (if g = 0 then (runs gs).head?.getD 0 + 1 else 0) :: runs gs

/-- The start and the length of the first longest run of zero groups. -/
def longestRun (gs : List Nat) : Nat × Nat :=
  let lengths := runs gs
  let longest := lengths.foldl max 0
  (lengths.idxOf longest, longest)

def v6Text (gs : List Nat) : String :=
  match gs with
  | [0, 0, 0, 0, 0, 0xffff, high, low] =>
    "::ffff:" ++ v4Text [high / 256, high % 256, low / 256, low % 256]
  | _ =>
    let (start, length) := longestRun gs
    if length ≤ 1 then hexText gs
    else hexText (gs.take start) ++ "::" ++ hexText (gs.drop (start + length))

def text (a : Address) : String :=
  match a.host with
  | .v4 octets => v4Text octets ++ ":" ++ a.port.repr
  | .v6 gs scope =>
    "[" ++ v6Text gs ++ (if scope = 0 then "" else "%" ++ scope.repr) ++ "]:" ++ a.port.repr

end Address
end RobotDesk
