/-
Whether benchmarks check themselves.

A benchmark is called twice with no settings and once with each of its settings,
and the fingerprints of what it returns tell whether it is stable and whether it
depends on its settings.
-/
import Owl.Bench.Fingerprint

namespace Owl.Bench

abbrev Settings := List (String × Value)

/-- A benchmark. -/
structure Benchmark where
  /-- The settings to try. -/
  settings : List Settings := []
  /-- What call number `n` returns with some settings, or the kind of its failure.  The first call
  has number 1. -/
  call : Nat → Settings → Except String Value

namespace SelfCheck

/-- What is found out about a benchmark. -/
structure Row where
  /-- The kind of what is returned, or the kind of the failure between angle brackets. -/
  returned : String
  /-- The fingerprints of the calls with no settings. -/
  stable : List String := []
  /-- The fingerprint with each settings, by their label. -/
  bySettings : List (String × String) := []
  /-- The fingerprints of the settings' own values. -/
  inputs : List String := []
  /-- The labels that were timed. -/
  timed : List String := []
  failed : Bool := false
deriving DecidableEq, Repr

def label (s : Settings) : String :=
  if s.isEmpty then "-"
  else
    let sorted := s.mergeSort fun a b => a.1 ≤ b.1
    ",".intercalate (sorted.map fun (name, x) => name ++ "=" ++ x.shown)

def defaultLabel : String := "<default>"

/-- Puts a fingerprint under a label: a label that is there keeps its place. -/
def put : List (String × String) → String × String → List (String × String)
  | [], entry => [entry]
  | (key, x) :: rest, entry =>
    if key == entry.1 then entry :: rest else (key, x) :: put rest entry

/-- The fingerprints with each settings, from call number `n` on. -/
def callAll (b : Benchmark) : Nat → List Settings → Except String (List (String × String))
  | _, [] => .ok []
  | n, s :: rest => do
    let x ← b.call n s
    return (label s, x.fingerprint) :: (← callAll b (n + 1) rest)

def calls (b : Benchmark) : Except String Row := do
  let first ← b.call 1 []
  let second ← b.call 2 []
  let prints := (← callAll b 3 b.settings).foldl put []
  return {
    returned := first.kind
    stable := [first.fingerprint, second.fingerprint]
    bySettings := prints
    inputs := b.settings.flatMap fun s => s.map fun (_, x) => x.fingerprint
    timed := defaultLabel :: prints.map (·.1) }

def row (b : Benchmark) : Row :=
  match calls b with
  | .ok r => r
  | .error kind => { returned := "<" ++ kind ++ ">", failed := true }

def isBenchmark (name : String) : Bool := name.startsWith "bench_"

/-- The rows of the benchmarks among some names, of which some have no benchmark.  Of one name the
last entry counts. -/
def rows : List (String × Option Benchmark) → List (String × Row)
  | [] => []
  | (name, b?) :: rest =>
    match b? with
    | some b =>
      if isBenchmark name && rest.all (·.1 != name) then (name, row b) :: rows rest else rows rest
    | none => rows rest

/-- What is said if there are no benchmarks to load. -/
def notLoaded : String :=
  "ModuleNotFoundError: import of microbench halted; None in sys.modules"

end SelfCheck

end Owl.Bench
