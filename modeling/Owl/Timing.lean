/-
How long the stages of the compiler take, over a directory of sources.

Each source is compiled `runs` times and the times of a stage are averaged.  A
source that cannot be compiled gets a line with the cause and does not count.
Sums go from left to right, so that every rounding is determined.
-/
import Owl.Compile
import Owl.Number.Decimal
import Owl.Text.Utf8
import Owl.Timing.Clock

namespace Owl

/-! ### Sums and means -/

namespace Binary64

/-- The sum of some numbers, from left to right. -/
def sum (xs : List Binary64) : Binary64 := xs.foldl add (zero false)

/-- The mean of some numbers; `none` if there are none. -/
def mean? (xs : List Binary64) : Option Binary64 := (sum xs).div? (ofInt xs.length)

end Binary64

def StageTimes.ofStages (lexing parsing checking emission : Binary64) : StageTimes Binary64 :=
  ⟨lexing, parsing, checking, emission, .sum [lexing, parsing, checking, emission]⟩

/-- The mean of each time; `none` if there are no times. -/
def StageTimes.mean? (times : List (StageTimes Binary64)) : Option (StageTimes Binary64) := do
  let lexing ← Binary64.mean? (times.map (·.lexing))
  let parsing ← Binary64.mean? (times.map (·.parsing))
  let checking ← Binary64.mean? (times.map (·.checking))
  let emission ← Binary64.mean? (times.map (·.emission))
  let total ← Binary64.mean? (times.map (·.total))
  return ⟨lexing, parsing, checking, emission, total⟩

namespace Timing

/-! ### Measuring -/

def runs : Nat := 10

/-- Compiles a source once.  The findings of the checker do not matter here. -/
def timeOnce (source : String) : Timed CompileFailure (StageTimes Binary64) := do
  let (tokens, lexing) ← Timed.measure ((tokenize source).mapError .lexing)
  let (program, parsing) ← Timed.measure ((parse Span.unknownFile tokens).mapError .parsing)
  let (_, checking) ← Timed.measure (.ok (Checker.new.check program))
  let (_, emission) ← Timed.measure (emitText program)
  return .ofStages lexing parsing checking emission

/-- The times of one source. -/
structure Row where
  name : String
  lines : Nat
  times : StageTimes Binary64

/-- Compiles a source `n` times. -/
def timeAll (source : String) : Nat → Timed CompileFailure (List (StageTimes Binary64))
  | 0 => return []
  | n + 1 => do
    let first ← timeOnce source
    return first :: (← timeAll source n)

def timeSource (name source : String) : Timed CompileFailure Row := do
  let times ← timeAll source runs
  let zero := Binary64.zero false
  return {
    name
    lines := source.toList.count '\n' + 1
    times := (StageTimes.mean? times).getD (.ofStages zero zero zero zero) }

/-! ### The report -/

/-- Why the report cannot be finished. -/
inductive Fault
  /-- No source could be compiled. -/
  | noSource
  /-- The stages took no time. -/
  | noTime
  /-- The source to look at is not there. -/
  | missing (name : String)
deriving DecidableEq, Repr

def Fault.message : Fault → String
  | noSource => "division by zero"
  | noTime => "float division by zero"
  | missing _ => "No such file or directory"

/-- A report: its lines, and what kept it from being finished. -/
structure Report where
  lines : List String
  fault? : Option Fault := none

/-- A number with fixed places, as wide as asked. -/
def column (width places : Nat) (x : Binary64) : String := padLeft width (x.fixed places)

def millis (width places : Nat) (x : Binary64) : String :=
  column width places (x.mul (.ofInt 1000)) ++ "ms"

def rule : String := String.ofList (List.replicate 80 '=')

def titled (title : String) : List String := [rule, title, rule]

def sourceLine (name : String) : Except CompileFailure Row → String
  | .ok row => "✓ " ++ padRight 30 name ++ " (" ++ padLeft 3 (toString row.lines) ++ " lines) " ++
      millis 6 3 row.times.total
  | .error e => "✗ " ++ padRight 30 name ++ " ERROR: " ++ e.message

/-- The share of a time in a total, in percent. -/
def share? (time total : Binary64) : Option Binary64 :=
  (time.div? total).map fun part => part.mul (.ofInt 100)

/-- The lines that break the mean times down; `none` if the total is zero. -/
def breakdown? (times : StageTimes Binary64) : Option (List String) := do
  let stages := [("Lexer:       ", times.lexing), ("Parser:      ", times.parsing),
    ("TypeChecker: ", times.checking), ("Transpiler:  ", times.emission)]
  let lines ← stages.mapM fun (label, time) => do
    let share ← share? time times.total
    return label ++ millis 6 3 time ++ " (" ++ column 5 1 share ++ "%)"
  return lines ++ ["TOTAL:       " ++ millis 6 3 times.total]

def slowLine (row : Row) : String :=
  padRight 30 row.name ++ " " ++ millis 6 3 row.times.total ++ "  (L:" ++
    millis 0 2 row.times.lexing ++ " P:" ++ millis 0 2 row.times.parsing ++ " C:" ++
    millis 0 2 row.times.checking ++ " T:" ++ millis 0 2 row.times.emission ++ ")"

/-- The rows that took longest, at most five; equal ones keep their order. -/
def slowest (rows : List Row) : List Row :=
  (rows.mergeSort fun a b => !a.times.total.lt b.times.total).take 5

/-- The part of the report that follows the lines of the sources. -/
def summary (rows : List Row) : Report :=
  let opening := "" :: titled "Average Breakdown (across all files)"
  match StageTimes.mean? (rows.map (·.times)) with
  | none => ⟨opening, some .noSource⟩
  | some times =>
    match breakdown? times with
    | none => ⟨opening, some .noTime⟩
    | some lines =>
      ⟨opening ++ lines ++ "" :: titled "Slowest Files" ++ (slowest rows).map slowLine, none⟩

def isSource (name : String) : Bool := name.endsWith ".ow"

def timeSources : List (String × String) → StateM Clock (List (String × Except CompileFailure Row))
  | [] => return []
  | (name, text) :: rest => do
    let source := String.ofList (Text.lineFeeds text.toList)
    let result ← (timeSource name source).run
    return (name, result) :: (← timeSources rest)

/-- The report on the sources among some files, in the order of their names. -/
def report (clock : Clock) (files : List (String × String)) : Report :=
  let sources := (files.filter fun file => isSource file.1).mergeSort fun a b => a.1 ≤ b.1
  let results := (timeSources sources clock).1
  let end_ := summary (results.filterMap fun result => result.2.toOption)
  { end_ with
    lines := titled "OwlLang Compiler Performance Profile" ++ [""] ++
      results.map (fun (name, result) => sourceLine name result) ++ end_.lines }

/-! ### One source in detail -/

def detailSource : String := "10_match_result.ow"

/-- The heading of the details of a source, which has to be among the files. -/
def detail (files : List (String × String)) (name : String) : Report where
  lines := ["Profiling compilation of " ++ name, rule]
  fault? := if files.any (·.1 == name) then none else some (.missing name)

end Timing

end Owl
