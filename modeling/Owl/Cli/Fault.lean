/-
What can end a command before it is done.

A `SourceError` is the user's affair and is shown with its place; a `Fault` is
none that a command is made for, and leaves it.
-/
import Owl.Cli.FileTree
import Owl.Compile
import Owl.Text.Utf8

namespace Owl.Cli

/-- A fault that leaves a command. -/
inductive Fault
  | path (fault : PathFault) (path : Path)
  | decoding (fault : Text.DecodeFault)
  /-- A path without a name cannot get a suffix. -/
  | emptyName (path : Path)
  | lexing (fault : LexFault)
  | parsing (stop : ParseStop)
  | emission (fault : EmitFault)
deriving DecidableEq, Repr

def Fault.message : Fault → String
  | path fault at_ => fault.message at_
  | decoding fault => fault.message
  | emptyName at_ => "PosixPath(" ++ Text.quoted at_.text ++ ") has an empty name"
  | lexing fault => fault.message
  | parsing stop => stop.message
  | emission fault => fault.message

/-- A mistake in a source text. -/
inductive SourceError
  | lexing (e : LexError)
  | parsing (e : ParseError)
deriving DecidableEq, Repr

/-- A program's reading, where mistakes and faults are apart. -/
inductive ReadOutcome
  | program (p : Program)
  | mistake (e : SourceError)
  | fault (f : Fault)

def readSource (source : String) : ReadOutcome :=
  match tokenize source with
  | .error ⟨.danglingEscape, _⟩ => .fault (.lexing .danglingEscape)
  | .error e => .mistake (.lexing e)
  | .ok tokens =>
    match parse Span.unknownFile tokens with
    | .error (.fault e) => .mistake (.parsing e)
    | .error (.stop cause) => .fault (.parsing cause)
    | .ok p => .program p

def readText (t : FileTree) (p : Path) : Except Fault String :=
  match t.read p with
  | .error fault => .error (.path fault p)
  | .ok bytes =>
    match Text.decode bytes with
    | .error fault => .error (.decoding fault)
    | .ok source => .ok source

end Owl.Cli
