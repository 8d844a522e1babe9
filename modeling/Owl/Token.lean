/-
Tokens: the words of a source text with their positions.

A token's text is what it stands for: the characters of the source, save that a
string token holds the string it denotes.
-/
import Owl.Span
import Owl.Text.Quoted

namespace Owl

/-- The kinds of token. -/
inductive TokenKind
  | int | float | string | bool
  | ident
  | kwFn | kwLet | kwMut | kwWhile | kwBreak | kwContinue | kwFor | kwIn | kwLoop | kwFrom
  | kwPython | kwImport | kwAs | kwIf | kwElse | kwReturn | kwTrue | kwFalse | kwMatch
  | plus | minus | star | slash | percent
  | eq | ne | lt | gt | le | ge | assign
  | lparen | rparen | lbrace | rbrace | lbracket | rbracket
  | comma | colon | arrow | fatArrow | dot | question
  | newline | eof
deriving DecidableEq, Repr, Inhabited

namespace TokenKind

def table : List (TokenKind × String) := [
  (.int, "INT"), (.float, "FLOAT"), (.string, "STRING"), (.bool, "BOOL"), (.ident, "IDENT"),
  (.kwFn, "FN"), (.kwLet, "LET"), (.kwMut, "MUT"), (.kwWhile, "WHILE"), (.kwBreak, "BREAK"),
  (.kwContinue, "CONTINUE"), (.kwFor, "FOR"), (.kwIn, "IN"), (.kwLoop, "LOOP"), (.kwFrom, "FROM"),
  (.kwPython, "PYTHON"), (.kwImport, "IMPORT"), (.kwAs, "AS"), (.kwIf, "IF"), (.kwElse, "ELSE"),
  (.kwReturn, "RETURN"), (.kwTrue, "TRUE"), (.kwFalse, "FALSE"), (.kwMatch, "MATCH"),
  (.plus, "PLUS"), (.minus, "MINUS"), (.star, "STAR"), (.slash, "SLASH"), (.percent, "PERCENT"),
  (.eq, "EQ"), (.ne, "NE"), (.lt, "LT"), (.gt, "GT"), (.le, "LE"), (.ge, "GE"), (.assign, "ASSIGN"),
  (.lparen, "LPAREN"), (.rparen, "RPAREN"), (.lbrace, "LBRACE"), (.rbrace, "RBRACE"),
  (.lbracket, "LBRACKET"), (.rbracket, "RBRACKET"), (.comma, "COMMA"), (.colon, "COLON"),
  (.arrow, "ARROW"), (.fatArrow, "FAT_ARROW"), (.dot, "DOT"), (.question, "QUESTION"),
  (.newline, "NEWLINE"), (.eof, "EOF")]

def name (k : TokenKind) : String :=
  ((table.find? fun row => row.1 == k).map Prod.snd).getD ""

def ofName? (s : String) : Option TokenKind :=
  (table.find? fun row => row.2 == s).map Prod.fst

end TokenKind

/-- A word of the source and where it starts. -/
structure Token where
  kind : TokenKind
  text : String
  pos : Position
deriving DecidableEq, Repr, Inhabited

namespace Token

/-- The span of a token: as many columns as its text has characters. -/
def span (t : Token) (file : String) : Span :=
  Span.single t.pos t.text.length file

def describe (t : Token) : String :=
  "Token(" ++ t.kind.name ++ ", " ++ Text.quoted t.text ++ ", " ++ t.pos.text ++ ")"

end Token

end Owl
