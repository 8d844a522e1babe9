/-
Paths of files.

A path is a root, which is empty for a relative path, and the names below it.
Empty names and single dots say nothing and are dropped; double dots are kept.
-/

namespace Owl.Cli

/-- A path. -/
structure Path where
  root : String
  parts : List String
deriving DecidableEq, Repr, Inhabited

namespace Path

/-- The root that a text starts with: two slashes differ from one, and more are like one. -/
def rootOf (cs : List Char) : String :=
  match (cs.takeWhile (· == '/')).length with
  | 0 => ""
  | 2 => "//"
  | _ => "/"

def ofText (s : String) : Path where
  root := rootOf s.toList
  parts := ((s.toList.splitOn '/').map String.ofList).filter fun part => part != "" && part != "."

/-- A path as a text; the empty relative path is a dot. -/
def text (p : Path) : String :=
  if p.root == "" && p.parts.isEmpty then "." else p.root ++ "/".intercalate p.parts

/-- The last name, if there is one. -/
def name? (p : Path) : Option String := p.parts.getLast?

/-- The characters of a name before its suffix: the last dot that is neither its first nor its last
character starts the suffix. -/
def stem (cs : List Char) : List Char :=
  let tail := (cs.reverse.takeWhile (· != '.')).length
  let start := cs.length - tail - 1
  if tail != 0 && tail < cs.length && start != 0 then cs.take start else cs

/-- A path with another suffix; a path without a name has none. -/
def withSuffix? (suffix : String) (p : Path) : Option Path :=
  p.name?.map fun name =>
    { p with parts := p.parts.dropLast ++ [String.ofList (stem name.toList) ++ suffix] }

end Path

end Owl.Cli
