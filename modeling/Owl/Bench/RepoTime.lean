/-
How much of a benchmark's time is spent in the repository.

A share below `least` percent is marked, with what takes the time instead.  A
negative share stands for a benchmark that failed, which is listed and does not
count.
-/
import Owl.Json

namespace Owl.Bench

/-- The shares of the benchmarks, in percent. -/
structure RepoTime where
  /-- The shares as they were given. -/
  given : List (String × Json)
  /-- What else takes the time of a benchmark, each with its share. -/
  hot : List (String × List (Binary64 × String)) := []

namespace RepoTime

def least : Nat := 45

def ofJson (j : Json) : RepoTime where
  given := j.fieldsAt "repo_time_pct"
  hot := (j.fieldsAt "hot_ext").map fun (name, xs) =>
    (name, xs.items.filterMap fun
      | .list [share, .text what] => share.number?.map fun share => (share, what)
      | _ => none)

def shares (t : RepoTime) : List (String × Binary64) :=
  t.given.map fun (name, share) => (name, share.number)

def isFailure (share : Binary64) : Bool := share.lt (.zero false)

def isLow (share : Binary64) : Bool := !isFailure share && share.lt (.ofInt least)

def counted (t : RepoTime) : Nat := (t.shares.filter fun entry => !isFailure entry.2).length

/-- How many shares are too low; `none` without shares. -/
def low? (t : RepoTime) : Option Nat :=
  if t.given.isEmpty then none else some (t.shares.filter fun entry => isLow entry.2).length

/-- What takes the time, behind a marked share. -/
def hotText (hot : List (Binary64 × String)) : String :=
  if hot.isEmpty then ""
  else
    " (hot: " ++ " ".intercalate (hot.map fun (share, what) => what ++ " " ++ share.fixed 0 ++ "%") ++
      ")"

def row (t : RepoTime) (name : String) (share : Binary64) : String :=
  let mark := if isLow share then "*" else " "
  let shown := if isFailure share then Binary64.zero false else share
  let note :=
    if isFailure share then "  <error>"
    else if isLow share then hotText ((t.hot.lookup name).getD [])
    else ""
  "  " ++ mark ++ " " ++ padRight 32 name ++ " " ++ padLeft 5 (shown.fixed 1) ++ "%" ++ note

/-- The list of shares from the lowest on; nothing without shares. -/
def lines (t : RepoTime) : List String :=
  if t.given.isEmpty then []
  else
    let sorted := t.shares.mergeSort fun a b => !b.2.lt a.2
    ["", "repo_time (target 50%; * = below " ++ toString least ++ "%):"] ++
      sorted.map fun (name, share) => t.row name share

end RepoTime

end Owl.Bench
