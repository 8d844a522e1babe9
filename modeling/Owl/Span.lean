/-
Positions in a source text and the spans between them.

A span runs from its first to its last position, both included.  `Span.merge` is
the span that covers two others and keeps the file of the left one.
-/

namespace Owl

/-- A line and a column, both counted from 1. -/
structure Position where
  line : Int
  column : Int
deriving DecidableEq, Repr, Inhabited

namespace Position

/-- The first position of a text. -/
def start : Position := ⟨1, 1⟩

def after (p : Position) (c : Char) : Position :=
  if c == '\n' then ⟨p.line + 1, 1⟩ else ⟨p.line, p.column + 1⟩

def afterAll (p : Position) (cs : List Char) : Position :=
  cs.foldl after p

/-- Reading order: by line, then by column. -/
def before (p q : Position) : Bool :=
  if p.line != q.line then p.line < q.line else p.column < q.column

/-- A position as `line:column`. -/
def text (p : Position) : String :=
  toString p.line ++ ":" ++ toString p.column

@[simp] theorem afterAll_nil (p : Position) : p.afterAll [] = p := rfl

@[simp] theorem afterAll_cons (p : Position) (c : Char) (cs : List Char) :
    p.afterAll (c :: cs) = (p.after c).afterAll cs := rfl

end Position

/-- A stretch of a source file. -/
structure Span where
  start : Position
  stop : Position
  file : String
deriving DecidableEq, Repr, Inhabited

namespace Span

def unknownFile : String := "<unknown>"

def dummy : Span := ⟨⟨1, 1⟩, ⟨1, 1⟩, "<no location>"⟩

/-- The span of `length` characters of one line. -/
def single (start : Position) (length : Int) (file : String) : Span :=
  ⟨start, ⟨start.line, start.column + length - 1⟩, file⟩

/-- The least span that covers both, in the left one's file. -/
def merge (a b : Span) : Span where
  start := if a.start.before b.start then a.start else b.start
  stop := if a.stop.before b.stop then b.stop else a.stop
  file := a.file

def isMultiline (s : Span) : Bool :=
  s.start.line != s.stop.line

/-- The number of columns of a span on one line, and 0 for any other. -/
def length (s : Span) : Int :=
  if s.isMultiline then 0 else s.stop.column - s.start.column + 1

/-- A span as `file:line:column`, with its end where that is on another line. -/
def text (s : Span) : String :=
  let first := s.file ++ ":" ++ s.start.text
  if s.isMultiline then first ++ "-" ++ s.stop.text else first

end Span

end Owl
