/-
The program.

The files that the arguments lead to are taken in, the command is performed on
them, and what it leaves is printed and written.  A program to be run is printed,
for an interpreter to read.
-/
import Owl.Cli

namespace Owl.Main

open Owl.Cli

/-! ### Files -/

/-- The place that an argument leads to from a directory. -/
def placeOf (working : List String) (arg : String) : List String :=
  let p := Path.ofText arg
  p.parts.foldl (fun place part => if part == ".." then place.dropLast else place ++ [part])
    (if p.root == "" then working else [])

def systemName (place : List String) : String := "/" ++ "/".intercalate place

/-- Takes in what is at a place, and what is below it. -/
partial def load (t : FileTree) (place : List String) : IO FileTree := do
  let path := (← IO.currentDir) / systemName place
  if ← path.isDir then
    let mut t := t.put place .dir
    for entry in ← path.readDir do
      t ← load t (place ++ [entry.fileName])
    return t
  else if ← path.pathExists then
    return t.put place (.file (← IO.FS.readBinFile path).toList)
  else return t

def loadParents (t : FileTree) (place : List String) : IO FileTree := do
  let mut t := t
  for n in List.range place.length do
    let parent := place.take n
    if ← ((← IO.currentDir) / systemName parent).isDir then
      t := t.put parent .dir
  return t

def filesOf (args : List String) : IO FileTree := do
  let working := (Path.ofText (← IO.currentDir).toString).parts
  let mut t ← loadParents { working } (working ++ [""])
  for arg in args do
    let place := placeOf working arg
    t ← load (← loadParents t place) place
  return t

/-! ### Times -/

def millis (start stop : Nat) : String :=
  (Binary64.ofQuotient false (stop - start) 1000000).fixed 3

/-- How long the stages take on a source text; a stage that fails is the last. -/
def stageTimes (source : String) : IO (StageTimes String) := do
  let t0 ← IO.monoNanosNow
  let tokens ← IO.lazyPure fun _ => (tokenize source).toOption.getD []
  let t1 ← IO.monoNanosNow
  let program? ← IO.lazyPure fun _ => (parse Span.unknownFile tokens).toOption
  let t2 ← IO.monoNanosNow
  let _ ← IO.lazyPure fun _ => (program?.map fun p => (Checker.new.check p).findings.length)
  let t3 ← IO.monoNanosNow
  let _ ← IO.lazyPure fun _ => (program?.map fun p => p.emit)
  let t4 ← IO.monoNanosNow
  return ⟨millis t0 t1, millis t1 t2, millis t2 t3, millis t3 t4, millis t0 t4⟩

/-- The first source text among some arguments. -/
def sourceOf (t : FileTree) (args : List String) : String :=
  (args.findSome? fun arg => (readText t (Path.ofText arg)).toOption).getD ""

end Owl.Main

open Owl Owl.Cli Owl.Main in
def main (args : List String) : IO UInt32 := do
  let before ← filesOf args
  let host : Host := ⟨0, ← stageTimes (sourceOf before args)⟩
  let outcome := Cli.run host before args
  for line in outcome.session.stdout do IO.println line
  for program in outcome.session.executed do IO.print program
  for line in outcome.session.stderr do IO.eprintln line
  for (place, bytes) in outcome.session.files.changedFiles before do
    IO.FS.writeBinFile (systemName place) ⟨bytes.toArray⟩
  match outcome.ending with
  | .exit code => return code.toNat.toUInt32
  | .fault _ => return 1
