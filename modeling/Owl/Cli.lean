/-
The command line.

`Cli.run` takes a file tree and the arguments, and gives what is printed, the
files that are there afterwards, the programs handed to the interpreter and the
exit code.  A fault leaves no exit code.

Design notes: what a command takes from outside besides files is in `Host`: the
exit code of the interpreter, and the times that a profile shows.
-/
import Owl.Cli.Args
import Owl.Cli.Report
import Owl.Tree.Outline

namespace Owl.Cli

/-- What a command takes from outside. -/
structure Host where
  /-- The exit code of a program that is run. -/
  childExit : Int
  /-- How long compiling takes, as shown. -/
  times : StageTimes String

/-- What a command has done so far. -/
structure Session where
  files : FileTree
  stdout : List String := []
  stderr : List String := []
  /-- The programs that were run. -/
  executed : List String := []
deriving DecidableEq, Repr, Inhabited

/-- Why a command ends early. -/
inductive Halt
  /-- Something that is needed is missing. -/
  | missing (message : String)
  | mistake (e : SourceError)
  | fault (f : Fault)
deriving DecidableEq, Repr

abbrev CliM := ExceptT Halt (StateM Session)

namespace CliM

def out (lines : List String) : CliM Unit :=
  modify fun s => { s with stdout := s.stdout ++ lines }

def err (lines : List String) : CliM Unit :=
  modify fun s => { s with stderr := s.stderr ++ lines }

def leave {α : Type} (f : Fault) : CliM α := throw (.fault f)

/-- Goes on with a value, or ends with a fault. -/
def orLeave {α : Type} : Except Fault α → CliM α
  | .ok a => return a
  | .error f => leave f

/-- A missing file is no fault but something that is told. -/
def orMissing {α : Type} (p : Path) : Except PathFault α → CliM α
  | .ok a => return a
  | .error .notFound => throw (.missing (PathFault.message p .notFound))
  | .error fault => leave (.path fault p)

def isThere (p : Path) : CliM Bool := do
  orLeave (((← get).files.has p).mapError fun fault => .path fault p)

def needFile (file : String) : CliM Path := do
  let p := Path.ofText file
  if ← isThere p then return p else throw (.missing ("File not found: " ++ file))

def source (p : Path) : CliM String := do
  orLeave (readText (← get).files p)

end CliM

open CliM

def SourceError.lines : SourceError → List String
  | .lexing e =>
    [inRed "Lexer Error" ++ " at " ++ e.pos.text, "  " ++ e.fault.message]
  | .parsing e =>
    [inRed "Parse Error" ++ " at " ++ e.token.pos.text, "  " ++ e.fault.message,
      "  Got: " ++ Text.quoted e.token.text]

def rejectionLines (file : String) (findings : List Finding) : List String :=
  inRed ("Type errors in " ++ file ++ ":") :: findings.map fun f => "  " ++ f.text

/-- The emitted code of a source text, with the times if they are asked for. -/
def emitSource (host : Host) (profile : Bool) (p : Program) : CliM String := do
  match p.emit with
  | .error fault => leave (.emission fault)
  | .ok code =>
    if profile then out (host.times.lines id)
    return code

/-- The program of a source text; a mistake or a finding is told, and then there is none. -/
def acceptedProgram? (file mistakeLine rejectionLine : String) (text : String) :
    CliM (Option Program) := do
  match readSource text with
  | .fault f => leave f
  | .mistake e =>
    err (e.lines ++ [inRed mistakeLine])
    return none
  | .program p =>
    match (Checker.new.check p).findings with
    | [] => return some p
    | findings =>
      err (rejectionLines file findings ++ [inRed rejectionLine])
      return none

/-- The path that code is written to.  An empty name counts as none. -/
def outputPath (input : Path) (output? : Option String) : CliM Path :=
  match output?.filter (· != "") with
  | some output => return Path.ofText output
  | none =>
    match input.withSuffix? ".py" with
    | some p => return p
    | none => leave (.emptyName input)

def compileCommand (host : Host) (file : String) (output? : Option String) (profile : Bool) :
    CliM Int := do
  let input ← needFile file
  let output ← outputPath input output?
  let failed := "✗ Compilation failed - no output generated"
  match ← acceptedProgram? file failed failed (← source input) with
  | none => return 1
  | some p =>
    err ["Compiling " ++ input.text ++ " → " ++ output.text]
    let code ← emitSource host profile p
    let files ← orMissing output ((← get).files.write output (Text.encode code))
    modify fun s => { s with files }
    err [inGreen "✓ Compiled successfully"]
    return 0

def runCommand (host : Host) (file : String) (profile : Bool) : CliM Int := do
  let input ← needFile file
  match ← acceptedProgram? file "✗ Cannot run - compilation failed"
      "✗ Cannot run - type errors found" (← source input) with
  | none => return 1
  | some p =>
    let code ← emitSource host profile p
    modify fun s => { s with executed := s.executed ++ [code] }
    return host.childExit

def nothingToCheck (json : Bool) (message : String) : CliM Int := do
  if json then out [(Json.object [("error", .text message)]).compact]
  else err [inRed ("Error: " ++ message)]
  return 1

/-- The files that a path stands for: itself, or those below a directory. -/
def filesToCheck (t : FileTree) (p : Path) : List Path :=
  match t.locate p with
  | .error _ => []
  | .ok place =>
    match t.entry? place with
    | some (.file _) => [p]
    | some .dir => t.withEnding ".ow" p place
    | none => []

/-- Checks a file, or all files below a directory. -/
def checkCommand (path : String) (denyWarnings noWarnings json : Bool) : CliM Int := do
  let p := Path.ofText path
  if ← isThere p then
    match filesToCheck (← get).files p with
    | [] => nothingToCheck json ("No .ow files found in: " ++ path)
    | files =>
      let tree := (← get).files
      let tally ← orLeave (files.foldlM (Tally.addFile tree noWarnings) {})
      if json then
        out [(reportsJson tally.reports).pretty]
        return exitCode denyWarnings tally.errors tally.warnings
      else
        err (humanLines denyWarnings tally.reports)
        return exitCode denyWarnings (totalErrors tally.reports) (totalWarnings tally.reports)
  else nothingToCheck json ("Path not found: " ++ path)

def titleRule : String := String.ofList (List.replicate 50 '-')

def tokensCommand (file : String) : CliM Int := do
  let text ← source (← needFile file)
  match tokenize text with
  | .error ⟨.danglingEscape, _⟩ => leave (.lexing .danglingEscape)
  | .error e => throw (.mistake (.lexing e))
  | .ok tokens =>
    out (("Tokens for " ++ file ++ ":") :: titleRule :: tokens.map fun t => "  " ++ t.describe)
    return 0

def treeCommand (file : String) : CliM Int := do
  let text ← source (← needFile file)
  match readSource text with
  | .fault f => leave f
  | .mistake e => throw (.mistake e)
  | .program p =>
    out (("AST for " ++ file ++ ":") :: titleRule :: p.outline 0)
    return 0

/-- Does what a command asks for, and gives the exit code. -/
def Command.perform (host : Host) : Command → CliM Int
  | .compile file output? profile => compileCommand host file output? profile
  | .run file profile => runCommand host file profile
  | .check path denyWarnings noWarnings json => checkCommand path denyWarnings noWarnings json
  | .tokens file => tokensCommand file
  | .tree file => treeCommand file

/-! ### Running -/

def usage : String :=
  "usage: owllang [-h] [--version] \x7bcompile,run,check,tokens,ast\x7d ..."

/-- How a command ends: with an exit code, or by a fault that leaves it. -/
inductive Ending
  | exit (code : Int)
  | fault (f : Fault)
deriving DecidableEq, Repr

/-- How a command ends, and what it has done. -/
structure Outcome where
  ending : Ending
  session : Session
deriving DecidableEq, Repr

def Halt.outcome (s : Session) : Halt → Outcome
  | .missing message => ⟨.exit 1, { s with stderr := s.stderr ++ ["Error: " ++ message] }⟩
  | .mistake e => ⟨.exit 1, { s with stderr := s.stderr ++ e.lines }⟩
  | .fault f => ⟨.fault f, { s with stderr := s.stderr ++ ["Internal error: " ++ f.message] }⟩

def Command.execute (host : Host) (files : FileTree) (c : Command) : Outcome :=
  match c.perform host { files } with
  | (.ok code, s) => ⟨.exit code, s⟩
  | (.error halt, s) => halt.outcome s

def run (host : Host) (files : FileTree) (args : List String) : Outcome :=
  match Invocation.ofArgs args with
  | .command c => c.execute host files
  | .help => ⟨.exit 0, { files, stdout := [usage] }⟩
  | .version => ⟨.exit 0, { files, stdout := ["OwlLang " ++ version] }⟩
  | .misuse => ⟨.exit 2, { files, stderr := [usage] }⟩

end Owl.Cli
