/-
A round of work on the benchmarks.

A round measures the coverage of the benchmarks, how much of their time is spent in
the repository and whether they check themselves.  It prints a report, and records
itself as one line after those of the earlier rounds.
-/
import Owl.Bench.Coverage
import Owl.Bench.RepoTime
import Owl.Bench.Verdict
import Owl.Json.Reading
import Owl.Text.Word
import Owl.Timing.Clock

namespace Owl.Bench

/-- What came of another program. -/
inductive Child
  | ran (exit : Int) (out err : String)
  /-- The program could not be started. -/
  | notStarted (reason : String)
deriving DecidableEq, Repr, Inhabited

/-- What a round starts from. -/
structure Round where
  /-- The files of the repository. -/
  files : List (String × String)
  clock : Clock
  /-- The time of the day in seconds. -/
  now : Json
  coverage : Child
  repoTime : Child
  selfCheck : Child
  /-- The state of the repository under version control. -/
  status : Child

namespace Round

/-- What a round leaves. -/
structure Outcome where
  exit : Int := 0
  lines : List String
  err : String
  /-- The line that is added to the record of rounds. -/
  record? : Option Json := none

/-! ### Files -/

def file? (r : Round) (name : String) : Option String := r.files.lookup name

def filledLines (s : String) : List String :=
  (s.splitOn "\n").filter fun line => !line.toList.all Text.isBlank

def definesBenchmark (line : String) : Bool :=
  let start := "def bench_"
  line.startsWith start &&
    let rest := line.toList.drop start.length
    let name := rest.takeWhile Text.isWordChar
    let after := (rest.drop name.length).dropWhile Text.isBlank
    !name.isEmpty && after.head? == some '('

def benchmarks (r : Round) : Nat :=
  (((r.file? "microbench.py").getD "").splitOn "\n").countP definesBenchmark

/-! ### Data of other programs -/

/-- The name of the kind of a value that has no fields. -/
def kindName : Json → String
  | .null => "NoneType"
  | .bool _ => "bool"
  | .int _ => "int"
  | .float _ => "float"
  | .text _ => "str"
  | .list _ => "list"
  | .object _ => "dict"

/-- The data in what a program printed: the last line holds it, and nothing printed is no data. -/
def dataOf (out : String) : Except String Json :=
  match (filledLines out).getLast? with
  | none => .ok (.object [])
  | some line =>
    match Json.read line with
    | .ok j@(.object _) => .ok j
    | .ok j => .error ("AttributeError: '" ++ kindName j ++ "' object has no attribute 'get'")
    | .error (.numeral _, message) => .error ("ValueError: " ++ message)
    | .error (_, message) => .error ("JSONDecodeError: " ++ message)

/-- The data of a program and what is said about it.  Nothing is run that is not there. -/
def dataFrom (label : String) (present : Bool) (c : Child) : Json × String :=
  let complaint (reason : String) : String := "[" ++ label ++ " runner: " ++ reason ++ "]\n"
  if !present then (.object [], "")
  else match c with
    | .notStarted reason => (.object [], complaint ("RuntimeError: " ++ reason))
    | .ran _ out err =>
      match dataOf out with
      | .ok j => (j, err)
      | .error reason => (.object [], err ++ complaint reason)

/-- The changed files: each line has two letters and a blank before the name. -/
def changedFiles : Child → List String
  | .ran _ out _ => (filledLines out).map fun line => String.ofList (line.toList.drop 3)
  | .notStarted _ => []

/-! ### Earlier rounds -/

def history (r : Round) : List String :=
  filledLines ((r.file? ".pti_checkpoint.jsonl").getD "")

/-- The records of the earlier rounds; `none` if one cannot be read. -/
def records? (r : Round) : Option (List Json) :=
  r.history.mapM fun line => (Json.read line).toOption

/-- How long ago the last round was, to two places. -/
def sinceLast (now : Json) (records : List Json) : Json :=
  match now.difference ((records.getLast?.bind fun j => j.field? "ts").getD .null) with
  | .float x => .float (x.rounded 2)
  | j => j

def patience : Nat := 3

/-- The least of some counts, if the last `patience` of them are no less than one before. -/
def converged? (counts : List Int) : Option Int :=
  let early := counts.take (counts.length - patience)
  let late := counts.drop (counts.length - patience)
  match early.min?, late.min? with
  | some best, some recent => if best ≤ recent then some best else none
  | _, _ => none

/-- The counts of low shares, with the latest at the end. -/
def lowCounts (records : List Json) (low : Nat) : List Int :=
  records.filterMap (fun j => match j.field? "n_below_repo_time" with
    | some (.int n) => some n
    | _ => none) ++ [(low : Int)]

/-! ### The report -/

def summary (number benchmarks : Nat) (c : Coverage) (t : RepoTime) (v : Verdicts)
    (seconds : Binary64) : String :=
  let shares := match t.low? with
    | some low => ", " ++ toString low ++ "/" ++ toString t.counted ++ " below repo_time " ++
        toString RepoTime.least ++ "%"
    | none => ""
  let checks :=
    if v.rows.isEmpty then ""
    else ", " ++ toString v.bad ++ "/" ++ toString v.rows.length ++ " not self-checking"
  "[round " ++ toString number ++ ": " ++ toString benchmarks ++ " benches, " ++
    c.percent.fixed 1 ++ "% covered" ++ shares ++ checks ++ ", measured in " ++
    seconds.fixed 1 ++ "s]"

/-- What is said when there is no improvement any more. -/
def stopLines (records : List Json) (t : RepoTime) : List String :=
  match t.low?.bind fun low => converged? (lowCounts records low) with
  | some best =>
    ["", ">>> STOP: repo_time converged (no improvement in " ++ toString patience ++
      " rounds; best " ++ toString best ++ " below). Finalize microbench.py now. <<<"]
  | none => []

def record (number benchmarks : Nat) (now since : Json) (seconds : Binary64) (c : Coverage)
    (t : RepoTime) (v : Verdicts) : Json :=
  .object [("round", .int number), ("ts", now), ("wall_since_prev_s", since),
    ("cov_measure_s", .float (seconds.rounded 3)), ("coverage_pct", c.share),
    ("covered_lines", .int c.covered), ("num_statements", .int c.statements),
    ("n_bench_fns", .int benchmarks), ("n_bench_errors", .int c.failures),
    ("n_below_repo_time", (t.low?.map fun (n : Nat) => Json.int n).getD .null),
    ("n_not_self_checking", .int v.bad),
    ("repo_time_pct", .object t.given),
    ("semcheck", .object (v.rows.map fun (row, verdict) => (row.name, .text verdict.name)))]

/-- The part of a round that follows the measurement of coverage. -/
def afterCoverage (r : Round) (seconds : Binary64) (err : String) : Outcome :=
  let c := Coverage.ofJson
    (((r.file? "_pti_coverage.json").bind fun s => (Json.read s).toOption).getD (.object []))
  let (times, timesErr) := dataFrom "repotime" (r.file? "_pti_repotime.py").isSome r.repoTime
  let (checks, checksErr) := dataFrom "semcheck" (r.file? "_pti_semcheck.py").isSome r.selfCheck
  let t := RepoTime.ofJson times
  let v := Verdicts.judge (changedFiles r.status)
    ((checks.fieldsAt "semcheck").filterMap fun (name, row) => CheckRow.ofJson? name row)
  let number := r.history.length + 1
  let lines := c.table ++ t.lines ++ v.lines ++
    ["", summary number r.benchmarks c t v seconds] ++ stopLines (r.records?.getD []) t
  { lines
    err := err ++ timesErr ++ checksErr
    record? := r.records?.map fun records =>
      record number r.benchmarks r.now (sinceLast r.now records) seconds c t v }

/-- Works through a round.  Without coverage there is nothing to report. -/
def run (r : Round) : Outcome :=
  let stop := r.clock.advance
  match r.coverage with
  | .notStarted reason => { exit := 1, lines := [], err := reason ++ "\n" }
  | .ran exit out err =>
    if exit == 0 then r.afterCoverage (stop.seconds.sub r.clock.seconds) err
    else
      { exit, lines := ["coverage measurement failed (exit " ++ toString exit ++ ")", out], err }

end Round

end Owl.Bench
