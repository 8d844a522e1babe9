/-
Reports on checked files.

A report lists the errors and warnings of one file.  `humanLines` shows reports to
a reader, `toJson` to a program.
-/
import Owl.Cli.Fault
import Owl.Diagnostic.Snippet
import Owl.Json

namespace Owl.Cli

/-- A line of a report. -/
structure Remark where
  severity : Severity
  code : String
  message : String
  file : String
  pos : Position
  hints : List String := []
  notes : List String := []
deriving DecidableEq, Repr

/-- What was found in a file. -/
structure FileReport where
  file : String
  errors : List Remark := []
  warnings : List Remark := []
deriving DecidableEq, Repr

/-! ### Making reports -/

def Remark.ofFinding (file : String) (f : Finding) : Remark where
  severity := .error
  code := f.code
  message := f.message
  file := file
  pos := f.pos
  hints := f.hints
  notes := f.notes

def Remark.ofWarning (file : String) (w : Warning) : Remark where
  severity := .warning
  code := w.code
  message := w.message
  file := file
  pos := (w.span?.getD .dummy).start
  hints := w.hints
  notes := w.notes

def Remark.ofSourceError (file : String) : SourceError → Remark
  | .lexing e =>
    { severity := .error, code := "E0100", message := e.fault.message, file, pos := e.pos }
  | .parsing e =>
    { severity := .error, code := "E0200", message := e.fault.message, file, pos := e.token.pos }

/-- Where a warning is sorted in: one without a place comes first. -/
def sortPlace (w : Warning) : Position :=
  match w.span? with
  | some span => span.start
  | none => ⟨0, 0⟩

/-- Warnings in the order of their places; those of one place keep their order. -/
def sortWarnings (ws : List Warning) : List Warning :=
  ws.mergeSort fun a b => !(sortPlace b).before (sortPlace a)

def FileReport.ofProgram (file : String) (noWarnings : Bool) (p : Program) : FileReport :=
  let checked := Checker.new.check p
  { file
    errors := checked.findings.map (Remark.ofFinding file)
    warnings := if noWarnings then []
      else (sortWarnings checked.warnings).map (Remark.ofWarning file) }

def FileReport.ofSource (file : String) (noWarnings : Bool) (source : String) :
    Except Fault FileReport :=
  match readSource source with
  | .fault f => .error f
  | .mistake e => .ok { file, errors := [Remark.ofSourceError file e] }
  | .program p => .ok (ofProgram file noWarnings p)

def FileReport.ofFile (t : FileTree) (noWarnings : Bool) (p : Path) : Except Fault FileReport := do
  ofSource p.text noWarnings (← readText t p)

/-- Reports, with the errors and warnings counted as the files are checked. -/
structure Tally where
  reports : List FileReport := []
  errors : Nat := 0
  warnings : Nat := 0

def Tally.addFile (t : FileTree) (noWarnings : Bool) (tally : Tally) (p : Path) :
    Except Fault Tally := do
  let report ← FileReport.ofFile t noWarnings p
  return { reports := tally.reports ++ [report]
           errors := tally.errors + report.errors.length
           warnings := tally.warnings + report.warnings.length }

/-! ### Exit codes -/

def totalErrors (reports : List FileReport) : Nat := (reports.flatMap (·.errors)).length

def totalWarnings (reports : List FileReport) : Nat := (reports.flatMap (·.warnings)).length

/-- The exit code for numbers of errors and warnings: 1 for errors, 2 for denied warnings. -/
def exitCode (denyWarnings : Bool) (errors warnings : Nat) : Nat :=
  if 0 < errors then 1
  else if 0 < warnings && denyWarnings then 2
  else 0

/-! ### Showing reports -/

def Remark.toJson (r : Remark) : Json :=
  .object [("severity", .text r.severity.text), ("code", .text r.code), ("message", .text r.message),
    ("file", .text r.file), ("line", .int r.pos.line), ("column", .int r.pos.column),
    ("hints", .list (r.hints.map .text)), ("notes", .list (r.notes.map .text))]

def FileReport.toJson (r : FileReport) : Json :=
  .object [("file", .text r.file), ("success", .bool r.errors.isEmpty),
    ("errors", .list (r.errors.map Remark.toJson)),
    ("warnings", .list (r.warnings.map Remark.toJson))]

def reportsJson (reports : List FileReport) : Json :=
  .object [("version", .text version), ("files", .list (reports.map FileReport.toJson)),
    ("summary", .object [("total_files", .int reports.length),
      ("files_with_errors", .int (reports.countP (!·.errors.isEmpty))),
      ("total_errors", .int (totalErrors reports)),
      ("total_warnings", .int (totalWarnings reports))])]

def bright (number s : String) : String := Colour.sequence number ++ s ++ Colour.sequence "0"

def inRed (s : String) : String := bright "91" s

def inGreen (s : String) : String := bright "92" s

def inYellow (s : String) : String := bright "93" s

def Remark.lines (r : Remark) : List String :=
  ("  " ++ r.severity.text ++ "[" ++ r.code ++ "]: " ++ r.message) ::
    (r.notes.map ("    note: " ++ ·) ++ r.hints.map ("    hint: " ++ ·))

def FileReport.lines (denyWarnings : Bool) (r : FileReport) : List String :=
  (if r.errors.isEmpty then []
    else inRed ("Errors in " ++ r.file ++ ":") :: r.errors.flatMap Remark.lines) ++
  (if r.warnings.isEmpty then []
    else
      (if denyWarnings then inRed ("Errors (from warnings) in " ++ r.file ++ ":")
        else inYellow ("Warnings in " ++ r.file ++ ":")) :: r.warnings.flatMap Remark.lines)

def verdictLine (denyWarnings : Bool) (reports : List FileReport) : String :=
  match totalErrors reports, totalWarnings reports with
  | 0, 0 => inGreen "✓ No issues found"
  | 0, warnings =>
    if denyWarnings then inRed ("✗ " ++ toString warnings ++ " warning(s) treated as errors")
    else inGreen ("✓ No errors found (" ++ toString warnings ++ " warning(s))")
  | errors, _ => inRed ("✗ " ++ toString errors ++ " error(s) found")

def humanLines (denyWarnings : Bool) (reports : List FileReport) : List String :=
  reports.flatMap (FileReport.lines denyWarnings) ++
    (if 1 < reports.length then ["", "Checked " ++ toString reports.length ++ " files"] else []) ++
    [verdictLine denyWarnings reports]

end Owl.Cli
