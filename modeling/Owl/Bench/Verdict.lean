/-
Verdicts on the self-checks of benchmarks.

The first rule that applies gives the verdict, and changed files of the repository
overrule all others.
-/
import Owl.Json

namespace Owl.Bench

/-- A verdict on a benchmark. -/
inductive Verdict
  | error
  | returnsNone
  | unstable
  | returnsInput
  | lowRepoTime
  | tooFast
  | paramInvariant
  | repoModified
  /-- Good, but tried with fewer than two settings. -/
  | unparam
  | ok
deriving DecidableEq, Repr

namespace Verdict

def name : Verdict → String
  | error => "error"
  | returnsNone => "returns-none"
  | unstable => "unstable"
  | returnsInput => "returns-input"
  | lowRepoTime => "low-repo-time"
  | tooFast => "too-fast"
  | paramInvariant => "param-invariant"
  | repoModified => "repo-modified"
  | unparam => "ok-unparam"
  | ok => "ok"

def isGood : Verdict → Bool
  | ok => true
  | unparam => true
  | _ => false

end Verdict

/-- What a self-check found out about a benchmark. -/
structure CheckRow where
  name : String
  /-- The kind of what is returned. -/
  returned? : Option String
  stable : List String
  bySettings : List String
  inputs : List String
  /-- Times in milliseconds. -/
  times : List Binary64
  /-- Shares of the time in the repository. -/
  shares : List Binary64

namespace CheckRow

/-- What the data says about a benchmark; only an object says something. -/
def ofJson? (name : String) : Json → Option CheckRow
  | j@(.object _) =>
    some {
      name
      returned? := (j.field? "ret_type").bind Json.text?
      stable := (j.itemsAt "fp_stable").filterMap Json.text?
      bySettings := (j.fieldsAt "fp_by_param").filterMap fun field => field.2.text?
      inputs := (j.itemsAt "param_fps").filterMap Json.text?
      times := (j.fieldsAt "repo_tt_ms").filterMap fun field => field.2.number?
      shares := (j.fieldsAt "repo_frac").filterMap fun field => field.2.number? }
  | _ => none

/-- The middle of some numbers, or the mean of the two in the middle; zero if there are none. -/
def median (xs : List Binary64) : Binary64 :=
  let zero := Binary64.zero false
  let sorted := xs.mergeSort fun a b => !b.lt a
  let half := xs.length / 2
  if xs.length % 2 == 1 then sorted.getD half zero
  else (((sorted.getD (half - 1) zero).add (sorted.getD half zero)).div? (.ofInt 2)).getD zero

/-- The least of some numbers; zero if there are none. -/
def least : List Binary64 → Binary64
  | [] => .zero false
  | x :: xs => xs.foldl (fun a b => if b.lt a then b else a) x

def failed (r : CheckRow) : Bool :=
  match r.returned? with
  | some kind => kind.startsWith "<"
  | none => true

def allSame : List String → Bool
  | [] => false
  | s :: rest => rest.all (· == s)

/-- The verdict on a benchmark of an unchanged repository. -/
def judge (r : CheckRow) : Verdict :=
  if r.failed then .error
  else if r.returned? == some "NoneType" then .returnsNone
  else if !allSame r.stable then .unstable
  else if r.stable.any r.inputs.contains then .returnsInput
  else if !r.shares.isEmpty && (least r.shares).lt (.ofQuotient false 1 2) then .lowRepoTime
  else if !r.times.isEmpty && (median r.times).lt (.ofInt 1) then .tooFast
  else if r.bySettings.length < 2 then .unparam
  else if allSame r.bySettings then .paramInvariant
  else .ok

def text (r : CheckRow) (v : Verdict) : String :=
  let mark := if v.isGood then " " else "*"
  "  " ++ mark ++ " " ++ padRight 32 r.name ++ " " ++ padRight 16 v.name ++ " (" ++
    r.returned?.getD "?" ++ ", repo " ++ ((least r.shares).mul (.ofInt 100)).fixed 0 ++ "%) " ++
    (median r.times).fixed 1 ++ "ms"

end CheckRow

/-- The verdicts on some benchmarks. -/
structure Verdicts where
  rows : List (CheckRow × Verdict)
  /-- The changed files of the repository. -/
  changed : List String := []

namespace Verdicts

def changedLimit : Nat := 10

def judge (changed : List String) (rows : List CheckRow) : Verdicts where
  rows := rows.map fun r => (r, if changed.isEmpty then r.judge else .repoModified)
  changed

def bad (v : Verdicts) : Nat := (v.rows.filter fun row => !row.2.isGood).length

def advice : List String :=
  ["  returns-none: run() has no return — collect and return the call results",
    "  unstable: seed RNG in setup; avoid time/uuid/id in the return",
    "  returns-input: return repo output, not the parameter value",
    "  low-repo-time: <50% of run() time is in repo code — move glue to setup",
    "  param-invariant: return something derived from run()'s work, not setup",
    "  repo-modified: revert edits to repo files (git checkout -- <path>)"]

/-- The list of changed files; nothing if there are none. -/
def changedSection (v : Verdicts) : List String :=
  if v.changed.isEmpty then []
  else
    ["", "** repo modified (" ++ toString v.changed.length ++
        " file(s)) — revert these; only microbench.py is yours to edit:"] ++
      (v.changed.take changedLimit).map ("   " ++ ·)

/-- The list of verdicts, with those to mend first; nothing without benchmarks. -/
def lines (v : Verdicts) : List String :=
  if v.rows.isEmpty then []
  else
    let (good, bad) := v.rows.partition fun row => row.2.isGood
    v.changedSection ++ ["", "self-check (* = fix needed):"] ++ advice ++
      (bad ++ good).map fun (r, verdict) => r.text verdict

end Verdicts

end Owl.Bench
