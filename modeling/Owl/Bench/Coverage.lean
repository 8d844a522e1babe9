/-
The table of covered lines.

Files are listed from the least covered to the most, and those with one share by
name.  Names are relative to the root of the repository.
-/
import Owl.Cli.Path
import Owl.Json

namespace Owl.Bench

/-- What is known about the lines of a file. -/
structure FileCoverage where
  name : String
  statements : Int
  missed : Int
  percent : Binary64
  missing : List Int

/-- The lines of a repository. -/
structure Coverage where
  files : List FileCoverage
  statements : Int
  covered : Int
  /-- The share of covered lines in percent, as it was given. -/
  share : Json
  /-- How many benchmarks failed under measurement. -/
  failures : Nat

namespace Coverage

/-! ### Names -/

def root : List String := ["repo"]

/-- Follows the names of a path from a directory: a double dot goes up. -/
def follow (start parts : List String) : List String :=
  parts.foldl (fun place part => if part == ".." then place.dropLast else place ++ [part]) start

def way : List String → List String → List String
  | a :: start, b :: place =>
    if a == b then way start place else List.replicate (start.length + 1) ".." ++ b :: place
  | start, place => List.replicate start.length ".." ++ place

def relative (path : String) : String :=
  let p := Cli.Path.ofText path
  let place := follow (if p.root == "" then root else []) p.parts
  match way root place with
  | [] => "."
  | parts => "/".intercalate parts

/-! ### Reading -/

def fileOfJson (path : String) (j : Json) : FileCoverage :=
  let summary := (j.field? "summary").getD (.object [])
  { name := relative path
    statements := summary.intAt "num_statements"
    missed := summary.intAt "missing_lines"
    percent := summary.numberAt "percent_covered"
    missing := (j.itemsAt "missing_lines").filterMap fun
      | .int i => some i
      | _ => none }

def ofJson (j : Json) : Coverage :=
  let totals := (j.field? "totals").getD (.object [])
  { files := (j.fieldsAt "files").map fun (path, file) => fileOfJson path file
    statements := totals.intAt "num_statements"
    covered := totals.intAt "covered_lines"
    share := (totals.field? "percent_covered").getD (.float (.zero false))
    failures := (((j.field? "meta").getD (.object [])).fieldsAt "_pti_bench_errors").length }

def percent (c : Coverage) : Binary64 := c.share.number

/-! ### The table -/

def nameLimit : Nat := 60

def missingLimit : Nat := 12

def before (a b : FileCoverage) : Bool :=
  a.percent.lt b.percent || (!b.percent.lt a.percent && a.name ≤ b.name)

def width (files : List FileCoverage) : Nat :=
  min nameLimit (files.foldl (fun w file => max w file.name.length) 4)

def columns (width : Nat) (name : String) (statements missed : Int) (percent : Binary64) : String :=
  padRight width (String.ofList (name.toList.take width)) ++ "  " ++
    padLeft 5 (toString statements) ++ "  " ++ padLeft 4 (toString missed) ++ "  " ++
    padLeft 4 (percent.fixed 0) ++ "%"

/-- Missing lines, of which the first are shown. -/
def missingText (lines : List Int) : String :=
  ",".intercalate ((lines.take missingLimit).map toString) ++
    (if missingLimit < lines.length then "…" else "")

/-- The row of all files together; its name is never cut. -/
def totalRow (width : Nat) (c : Coverage) : String :=
  columns (max width 5) "TOTAL" c.statements (c.statements - c.covered) c.percent

def table (c : Coverage) : List String :=
  let width := width c.files
  let rule := String.ofList (List.replicate (width + 42) '-')
  let rows := (c.files.mergeSort before).map fun file =>
    columns width file.name file.statements file.missed file.percent ++ "  " ++
      missingText file.missing
  [padRight width "Name" ++ "  Stmts  Miss  Cover  Missing", rule] ++ rows ++
    [rule, totalRow width c]

end Coverage

end Owl.Bench
