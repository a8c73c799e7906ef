import RobotDesk.Text.Basic

/-!
Files and the paths that lead to them.

A path is walked part by part, from the root if it starts with a slash, else from the folder one
works in.  An empty part and `.` stay in a folder, and `..` goes up, not beyond the root; each of
them needs a folder to stand in.  So a slash behind a file is an error.
-/
namespace RobotDesk.CommandLine

/-- Why a file cannot be read. -/
inductive FileFault where
  | absent
  | notFolder
  | isFolder
  | nameTooLong
  | zeroInName
  | denied
  | notText
  | other (reason : String)
deriving DecidableEq, Repr

def FileFault.message : FileFault → String
  | .absent => "No such file or directory (os error 2)"
  | .notFolder => "Not a directory (os error 20)"
  | .isFolder => "Is a directory (os error 21)"
  | .nameTooLong => "File name too long (os error 36)"
  | .zeroInName => "file name contained an unexpected NUL byte"
  | .denied => "Permission denied (os error 13)"
  | .notText => "stream did not contain valid UTF-8"
  | .other reason => reason

/-- A file, or a folder with its entries. -/
inductive Entry where
  | file (content : String)
  | folder (entries : List (String × Entry))

namespace Entry

/-- The entry at a place, which is given by the names that lead there. -/
def at? : List String → Entry → Option Entry
  | [], e => some e
  | name :: names, .folder entries => (entries.lookup name).bind (at? names)
  | _ :: _, .file _ => none

/-- What a folder holds. -/
def entries : Entry → List (String × Entry)
  | .file _ => []
  | .folder es => es

/-- Puts a file at a place; what stands in the way there is replaced. -/
def put (content : String) : List String → Entry → Entry
  | [], _ => .file content
  | name :: names, e =>
    let inner := ((e.entries.lookup name).getD (.folder []))
    .folder ((name, put content names inner) :: e.entries.filter (·.1 ≠ name))

/-- The longest name in a folder, in bytes. -/
def nameLimit : Nat := 255

/-- The place that a part of a path leads to. -/
def step (root : Entry) (place : List String) (part : String) : Except FileFault (List String) :=
  match root.at? place with
  | none => .error .absent
  | some (.file _) => .error .notFolder
  | some (.folder entries) =>
    if part = "" || part = "." then .ok place
    else if part = ".." then .ok place.dropLast
    else if nameLimit < part.utf8ByteSize then .error .nameTooLong
    else if (entries.lookup part).isSome then .ok (place ++ [part])
    else .error .absent

end Entry

/-- All files, and the place of the folder one works in. -/
structure Files where
  root : Entry
  here : List String := []

namespace Files

/-- Paths have fewer bytes than this. -/
def pathLimit : Nat := 4096

/-- Reads the file at a path. -/
def read (f : Files) (path : String) : Except FileFault String := do
  if path.toList.contains '\x00' then .error .zeroInName
  else if path.isEmpty then .error .absent
  else if pathLimit ≤ path.utf8ByteSize then .error .nameTooLong
  else
    let start := if path.toList.head? = some '/' then [] else f.here
    let parts := (Text.splitOn '/' path.toList).map String.ofList
    match f.root.at? (← parts.foldlM f.root.step start) with
    | some (.file content) => .ok content
    | some (.folder _) => .error .isFolder
    | none => .error .absent

end Files
end RobotDesk.CommandLine
