/-
The state of a check, and what a check can record in it.

A problem is recorded once for each code and place; a concern with a place once
for each code, place and message.  Faults of matches have no code of their own
and are recorded every time.
-/
import Owl.Diagnostic.Problem
import Owl.Scope

namespace Owl

/-- What can be wrong with a match as a whole. -/
inductive MatchFault
  | subject (found : Ty)
  /-- The arm of a number, counted from 1, does not have the type of the first one. -/
  | arm (first : Ty) (number : Nat) (found : Ty)
deriving DecidableEq, Repr

def MatchFault.message : MatchFault → String
  | subject found => "match requires Option or Result type, got " ++ found.text
  | arm first number found =>
    "Match arm types must be compatible. Arm 1 has type " ++ first.text ++ ", arm " ++
      toString number ++ " has type " ++ found.text

/-- A reason to reject a program. -/
inductive Finding
  | diagnostic (d : Diagnostic)
  | matchFault (fault : MatchFault) (pos : Position)
deriving DecidableEq, Repr

namespace Finding

def code : Finding → String
  | diagnostic d => d.code
  | matchFault .. => "E0000"

def message : Finding → String
  | diagnostic d => d.message
  | matchFault fault _ => fault.message

def pos : Finding → Position
  | diagnostic d => d.span.start
  | matchFault _ pos => pos

def notes : Finding → List String
  | diagnostic d => d.notes
  | matchFault .. => []

def hints : Finding → List String
  | diagnostic d => d.hints
  | matchFault .. => []

/-- The diagnostic of a finding, if it is one. -/
def diagnostic? : Finding → Option Diagnostic
  | diagnostic d => some d
  | matchFault .. => none

def text (f : Finding) : String :=
  "[" ++ f.pos.text ++ "] " ++ f.message

end Finding

/-- The state of a check. -/
structure Checker where
  env : Env
  findings : List Finding := []
  warnings : List Warning := []
  /-- What the function that is checked returns; none outside of functions. -/
  returns? : Option Ty := none
  /-- How many loops stand around the place that is checked. -/
  loopDepth : Nat := 0
deriving DecidableEq, Repr, Inhabited

abbrev CheckM := StateM Checker

/-- What makes two warnings the same, if they have a place. -/
def Warning.key? (w : Warning) : Option (String × Position × String) :=
  w.span?.map fun span => (w.code, span.start, w.message)

namespace Checker

/-- Whether a problem of a code was recorded at a place. -/
def hasReported (c : Checker) (code : String) (pos : Position) : Bool :=
  (c.findings.filterMap Finding.diagnostic?).any fun d => d.code == code && d.span.start == pos

/-- Records a diagnostic, unless there is one with its code and place. -/
def addDiagnostic (c : Checker) (d : Diagnostic) : Checker :=
  if c.hasReported d.code d.span.start then c
  else { c with findings := c.findings ++ [.diagnostic d] }

/-- Records a warning, unless it has a place and there is one like it. -/
def addWarning (c : Checker) (w : Warning) : Checker :=
  if w.span?.isSome && c.warnings.any (fun other => other.key? == w.key?) then c
  else { c with warnings := c.warnings ++ [w] }

def diagnostics (c : Checker) : List Diagnostic :=
  c.findings.filterMap Finding.diagnostic?

end Checker

namespace CheckM

def report (p : Problem) (span : Span) : CheckM Unit :=
  modify (·.addDiagnostic (p.toDiagnostic span))

def reportMatch (fault : MatchFault) (span : Span) : CheckM Unit :=
  modify fun c => { c with findings := c.findings ++ [.matchFault fault span.start] }

def warn (c : Concern) (span? : Option Span) : CheckM Unit :=
  modify (·.addWarning (c.toWarning span?))

/-- Records a concern every time. -/
def warnAlways (concern : Concern) (span? : Option Span) : CheckM Unit :=
  modify fun c => { c with warnings := c.warnings ++ [concern.toWarning span?] }

def modifyEnv (f : Env → Env) : CheckM Unit :=
  modify fun c => { c with env := f c.env }

def defineVar (name : String) (v : Variable) : CheckM Unit :=
  modifyEnv (·.defineVar name v)

def inScope {α : Type} (action : CheckM α) : CheckM α := do
  modifyEnv Env.push
  let a ← action
  modifyEnv Env.pop
  return a

def inLoop {α : Type} (action : CheckM α) : CheckM α := do
  modify fun c => { c with loopDepth := c.loopDepth + 1 }
  let a ← action
  modify fun c => { c with loopDepth := c.loopDepth - 1 }
  return a

end CheckM

end Owl
