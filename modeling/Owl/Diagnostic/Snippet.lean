/-
Diagnostics with the lines of source they are about.

Under the header and the place stands the line of the source with its number,
and under that a row of carets below the columns of the span.  `Style` says
whether words are coloured; nothing else depends on it.
-/
import Owl.Diagnostic
import Owl.Text.Blank

namespace Owl

/-- The colours of a terminal. -/
inductive Colour
  | bold
  | blue
  | cyan
  | boldRed
  | boldYellow
  | boldBlue
  | boldCyan
deriving DecidableEq, Repr

namespace Colour

def escape : Char := Char.ofNat 27

def number : Colour → String
  | bold => "1"
  | blue => "34"
  | cyan => "36"
  | boldRed => "1;31"
  | boldYellow => "1;33"
  | boldBlue => "1;34"
  | boldCyan => "1;36"

def sequence (number : String) : String :=
  String.singleton escape ++ "[" ++ number ++ "m"

end Colour

/-- Whether output is coloured. -/
structure Style where
  coloured : Bool
deriving DecidableEq, Repr

/-- A text in a colour, if there are colours. -/
def Style.paint (style : Style) (colour : Colour) (s : String) : String :=
  if style.coloured then Colour.sequence colour.number ++ s ++ Colour.sequence "0" else s

def Severity.colour : Severity → Colour
  | error => .boldRed
  | warning => .boldYellow
  | info => .boldBlue
  | hint => .boldCyan

/-- `n` blanks. -/
def blanks (n : Nat) : String := String.ofList (List.replicate n ' ')

/-- The lines of a text: what stands before, between and after the line feeds. -/
def sourceLines (source : String) : List String :=
  (source.toList.splitOn '\n').map String.ofList

namespace Diagnostic

/-- The carets under a line of the source: from the first column of the span to its last, or to the
end of the line if the span goes on; at least one. -/
def carets (span : Span) (line : String) : String :=
  let first := max 0 (span.start.column - 1)
  let last := min (line.length : Int) (if span.isMultiline then line.length else span.stop.column)
  blanks first.toNat ++ String.ofList (List.replicate (max 1 (last - first)).toNat '^')

/-- The line of the source that a diagnostic is about, with its number and carets. -/
def snippet (style : Style) (lines : List String) (d : Diagnostic) : List String :=
  let number := d.span.start.line
  if 0 < number && number ≤ lines.length then
    let line := lines.getD (number.toNat - 1) ""
    let digits := toString number
    let gutter := blanks (digits.length + 1)
    let bar := style.paint .blue "|"
    [gutter ++ " " ++ bar,
      style.paint .blue digits ++ " " ++ bar ++ " " ++ String.ofList (Text.trimEnd line.toList),
      gutter ++ " " ++ bar ++ " " ++ style.paint d.severity.colour (carets d.span line),
      gutter ++ " " ++ bar]
  else []

def rows (style : Style) (lines : List String) (d : Diagnostic) : List String :=
  (style.paint d.severity.colour (d.severity.text ++ "[" ++ d.code ++ "]") ++ ": " ++
      style.paint .bold d.message) ::
    ("  " ++ style.paint .blue "-->" ++ " " ++ d.span.text) ::
    (d.snippet style lines ++
      d.notes.map (fun note => "   " ++ style.paint .blue "=" ++ " " ++ note) ++
      d.hints.map (fun hint => "   " ++ style.paint .cyan "= hint:" ++ " " ++ hint))

def count (severity : Severity) (ds : List Diagnostic) : Nat :=
  ds.countP (·.severity == severity)

/-- The numbers of errors and of warnings, as far as there are any. -/
def tally (style : Style) (ds : List Diagnostic) : List String :=
  let part (severity : Severity) (word : String) : List String :=
    match count severity ds with
    | 0 => []
    | n => [style.paint severity.colour (toString n ++ " " ++ word)]
  part .error "error(s)" ++ part .warning "warning(s)"

/-- Diagnostics one after another, with a tally at the end. -/
def report (style : Style) (source : String) (ds : List Diagnostic) : String :=
  if ds.isEmpty then ""
  else
    let lines := sourceLines source
    let parts := ds.map fun d => "\n".intercalate (d.rows style lines)
    let summary := match tally style ds with
      | [] => ""
      | words => "\n" ++ " ".intercalate words ++ " emitted"
    "\n\n".intercalate parts ++ "\n" ++ summary

end Diagnostic

end Owl
