/-
Trees of files.

A tree holds files and directories by the names that lead to them from the root,
which is a directory.  Paths lead from a working directory, and a double dot goes
up by one; the root is above itself.
-/
import Owl.Cli.Path
import Owl.Text.Quoted

namespace Owl.Cli

/-- What a place of a tree holds. -/
inductive Entry
  | file (bytes : List UInt8)
  | dir
deriving DecidableEq, Repr, Inhabited

/-- Why a path cannot be followed, read or written. -/
inductive PathFault
  | notFound
  | notDirectory
  | isDirectory
  | nameTooLong
  /-- The path holds the character that ends texts for the system. -/
  | embeddedNull
deriving DecidableEq, Repr

def PathFault.message (path : Path) : PathFault → String
  | notFound => "[Errno 2] No such file or directory: " ++ Text.quoted path.text
  | notDirectory => "[Errno 20] Not a directory: " ++ Text.quoted path.text
  | isDirectory => "[Errno 21] Is a directory: " ++ Text.quoted path.text
  | nameTooLong => "[Errno 36] File name too long: " ++ Text.quoted path.text
  | embeddedNull => "embedded null byte"

/-- A tree of files. -/
structure FileTree where
  entries : List (List String × Entry) := []
  /-- The directory from which relative paths lead. -/
  working : List String := []
deriving DecidableEq, Repr, Inhabited

namespace FileTree

def entry? (t : FileTree) (place : List String) : Option Entry :=
  if place.isEmpty then some .dir else (t.entries.find? (·.1 == place)).map Prod.snd

def put (t : FileTree) (place : List String) (e : Entry) : FileTree :=
  if (t.entries.find? (·.1 == place)).isSome then
    { t with entries := t.entries.map fun (p, old) => if p == place then (p, e) else (p, old) }
  else { t with entries := t.entries ++ [(place, e)] }

def nameLimit : Nat := 255

/-- Follows one name from a place, which has to be a directory. -/
def step (t : FileTree) (place : List String) (name : String) : Except PathFault (List String) :=
  match t.entry? place with
  | none => .error .notFound
  | some (.file _) => .error .notDirectory
  | some .dir =>
    if name == ".." then .ok place.dropLast
    else if nameLimit < name.utf8ByteSize then .error .nameTooLong
    else .ok (place ++ [name])

/-- The place that a path leads to; whether something is there is left open. -/
def locate (t : FileTree) (p : Path) : Except PathFault (List String) :=
  if p.parts.any (fun part => part.toList.any (·.toNat == 0)) then .error .embeddedNull
  else p.parts.foldlM t.step (if p.root == "" then t.working else [])

def find (t : FileTree) (p : Path) : Except PathFault Entry := do
  match t.entry? (← t.locate p) with
  | some e => return e
  | none => throw .notFound

def has (t : FileTree) (p : Path) : Except PathFault Bool :=
  match t.find p with
  | .ok _ => .ok true
  | .error .nameTooLong => .error .nameTooLong
  | .error _ => .ok false

def read (t : FileTree) (p : Path) : Except PathFault (List UInt8) := do
  match ← t.find p with
  | .file bytes => return bytes
  | .dir => throw .isDirectory

/-- Writes a file.  The directory that holds it has to be there. -/
def write (t : FileTree) (p : Path) (bytes : List UInt8) : Except PathFault FileTree := do
  let place ← t.locate p
  match t.entry? place with
  | some .dir => throw .isDirectory
  | _ => return t.put place (.file bytes)

/-- The names that lead from a place to what is below it. -/
def below (t : FileTree) (place : List String) : List (List String) :=
  t.entries.filterMap fun (p, _) =>
    if place.isPrefixOf p && place.length < p.length then some (p.drop place.length) else none

/-- The rising order of places: name by name. -/
def placeLe : List String → List String → Bool
  | [], _ => true
  | _ :: _, [] => false
  | a :: as, b :: bs => if a == b then placeLe as bs else decide (a < b)

/-- The paths below a path whose last name ends in a suffix, in rising order. -/
def withEnding (suffix : String) (t : FileTree) (p : Path) (place : List String) : List Path :=
  ((t.below place).filter fun names =>
    names.getLast?.any fun name => suffix.toList.isSuffixOf name.toList).mergeSort placeLe
    |>.map fun names => { p with parts := p.parts ++ names }

/-- The files of a tree that another one has not, or has with other bytes. -/
def changedFiles (t before : FileTree) : List (List String × List UInt8) :=
  (t.entries.filterMap fun (p, e) =>
    match e with
    | .file bytes => if before.entry? p == some (.file bytes) then none else some (p, bytes)
    | .dir => none).mergeSort fun a b => placeLe a.1 b.1

end FileTree

end Owl.Cli
