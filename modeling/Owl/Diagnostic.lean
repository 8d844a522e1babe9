/-
Diagnostics: what is said about a program, with codes, places and advice.

A `Diagnostic` is about something that is wrong, a `Warning` about something that
may be.
-/
import Owl.Span

namespace Owl

/-- How bad something is. -/
inductive Severity
  | error
  | warning
  | info
  | hint
deriving DecidableEq, Repr, Inhabited

namespace Severity

def text : Severity → String
  | error => "error"
  | warning => "warning"
  | info => "info"
  | hint => "hint"

def ofText? (s : String) : Option Severity :=
  [error, warning, info, hint].find? (·.text == s)

end Severity

/-- Something said about a place in a program. -/
structure Diagnostic where
  code : String
  message : String
  span : Span := .dummy
  severity : Severity := .error
  notes : List String := []
  hints : List String := []
  labels : List (Span × String) := []
deriving DecidableEq, Repr, Inhabited

namespace Diagnostic

def text (d : Diagnostic) : String :=
  d.severity.text ++ "[" ++ d.code ++ "]: " ++ d.message ++ " at " ++ d.span.text

def withNote (d : Diagnostic) (note : String) : Diagnostic :=
  { d with notes := d.notes ++ [note] }

def withHint (d : Diagnostic) (hint : String) : Diagnostic :=
  { d with hints := d.hints ++ [hint] }

end Diagnostic

/-- A remark that does not stand in a program's way. -/
structure Warning where
  code : String
  message : String
  span? : Option Span
  notes : List String := []
  hints : List String := []
deriving DecidableEq, Repr, Inhabited

namespace Warning

def text (w : Warning) : String :=
  "warning[" ++ w.code ++ "]: " ++ w.message ++ " at " ++ ((w.span?.map Span.text).getD "None")

def withNote (w : Warning) (note : String) : Warning :=
  { w with notes := w.notes ++ [note] }

def withHint (w : Warning) (hint : String) : Warning :=
  { w with hints := w.hints ++ [hint] }

end Warning

end Owl
