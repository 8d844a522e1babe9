/-
Programs written back as words.

A `Word` is a token without its place, a number being given by its value.  Every
tree has the words it is written with, in source order.  Parentheses and commas,
which only group and separate, are no words, so a tree has one writing.

* `Token.word_fixed`, `Token.word_operator` — a well-spelled token and its word.
-/
import Owl.Proofs.Tiling
import Owl.Tree.Parser

namespace Owl

variable {t : Token} {tokens : List Token} {text : String}

/-! ### Words of tokens -/

/-- What a token stands for: a kind with a text, or a number. -/
inductive Word
  | spelled (kind : TokenKind) (text : String)
  | int (value : Int)
  | float (value : Binary64)
deriving DecidableEq, Repr

/-- A keyword, operator or delimiter. -/
def Word.mark (kind : TokenKind) : Word := .spelled kind (kind.fixedText?.getD "")

def Word.name (text : String) : Word := .spelled .ident text

def operatorKinds : List TokenKind :=
  [.eq, .ne, .lt, .gt, .le, .ge, .plus, .minus, .star, .slash, .percent]

def operatorKind (op : String) : TokenKind :=
  (operatorKinds.find? fun kind => kind.fixedText? == some op).getD .eof

def Word.operator (op : String) : Word := .spelled (operatorKind op) op

/-- The word that a token stands for.  A numeral without a value stands for itself. -/
def Token.word (t : Token) : Word :=
  match t.kind with
  | .int =>
    match Numeral.readInt t.text with
    | .ok value => .int value
    | .error _ => .spelled .int t.text
  | .float =>
    match Numeral.readFloat t.text with
    | .ok value => .float value
    | .error _ => .spelled .float t.text
  | kind => .spelled kind t.text

def TokenKind.isGrouping : TokenKind → Bool
  | .lparen | .rparen | .comma => true
  | _ => false

def TokenKind.isSilent (kind : TokenKind) : Bool := kind == .eof || kind.isGrouping

def TokenKind.isMark (kind : TokenKind) : Bool := kind.fixedText?.isSome && !kind.isSilent

def words (ts : List Token) : List Word :=
  (ts.filter fun t => !t.kind.isSilent).map Token.word

/-! ### Words of trees -/

mutual

/-- A type, with its parameters between brackets. -/
@[simp] def TypeExpr.words : TypeExpr → List Word
  | .mk name [] _ => [.name name]
  | .mk name (p :: ps) _ =>
    [.name name, .mark .lbracket] ++ p.words ++ typesWords ps ++ [.mark .rbracket]

@[simp] def typesWords : List TypeExpr → List Word
  | [] => []
  | t :: ts => t.words ++ typesWords ts

end

def ascription (mark : TokenKind) : Option TypeExpr → List Word
  | none => []
  | some t => .mark mark :: t.words

def Param.words (p : Param) : List Word := .name p.name :: ascription .colon p.type?

def Pattern.words : Pattern → List Word
  | some binding _ => [.name "Some", .name binding]
  | none _ => [.name "None"]
  | ok binding _ => [.name "Ok", .name binding]
  | err binding _ => [.name "Err", .name binding]
  | unknown => []

mutual

/-- An expression, its parts in source order. -/
@[simp] def Expr.words : Expr → List Word
  | .int value _ => [.int value]
  | .float value _ => [.float value]
  | .string value _ => [.spelled .string value]
  | .bool true _ => [.mark .kwTrue]
  | .bool false _ => [.mark .kwFalse]
  | .name name _ => [.name name]
  | .binary left op right _ => left.words ++ [.operator op] ++ right.words
  | .unary op operand _ => [.operator op] ++ operand.words
  | .call callee args _ => callee.words ++ exprsWords args
  | .field object field _ => object.words ++ [.mark .dot, .name field]
  | .propagate operand _ => operand.words ++ [.mark .question]
  | .list elements _ => [.mark .lbracket] ++ exprsWords elements ++ [.mark .rbracket]
  | .matching subject arms _ =>
    [.mark .kwMatch] ++ subject.words ++ [.mark .lbrace] ++ armsWords arms ++ [.mark .rbrace]
  | .stmt s => s.words
  | .unknown => []

@[simp] def exprsWords : List Expr → List Word
  | [] => []
  | e :: es => e.words ++ exprsWords es

@[simp] def armsWords : List Arm → List Word
  | [] => []
  | ⟨pattern, body, _⟩ :: arms =>
    pattern.words ++ [.mark .fatArrow] ++ body.words ++ armsWords arms

/-- A statement, its blocks between braces. -/
@[simp] def Stmt.words : Stmt → List Word
  | .letVar name value type? isMutable _ =>
    [.mark .kwLet] ++ (if isMutable then [.mark .kwMut] else []) ++ [.name name] ++
      ascription .colon type? ++ [.mark .assign] ++ value.words
  | .assign name value _ => [.name name, .mark .assign] ++ value.words
  | .expr e _ => e.words
  | .ret none _ => [.mark .kwReturn]
  | .ret (some value) _ => [.mark .kwReturn] ++ value.words
  | .whileLoop condition body _ =>
    [.mark .kwWhile] ++ condition.words ++ [.mark .lbrace] ++ stmtsWords body ++ [.mark .rbrace]
  | .forLoop item collection body _ =>
    [.mark .kwFor, .name item, .mark .kwIn] ++ collection.words ++ [.mark .lbrace] ++
      stmtsWords body ++ [.mark .rbrace]
  | .loop body _ => [.mark .kwLoop, .mark .lbrace] ++ stmtsWords body ++ [.mark .rbrace]
  | .breakLoop _ => [.mark .kwBreak]
  | .continueLoop _ => [.mark .kwContinue]
  | .ifElse condition thenBody none _ =>
    [.mark .kwIf] ++ condition.words ++ [.mark .lbrace] ++ stmtsWords thenBody ++ [.mark .rbrace]
  | .ifElse condition thenBody (some elseBody) _ =>
    [.mark .kwIf] ++ condition.words ++ [.mark .lbrace] ++ stmtsWords thenBody ++
      [.mark .rbrace, .mark .kwElse, .mark .lbrace] ++ stmtsWords elseBody ++ [.mark .rbrace]
  | .fn decl => decl.words
  | .bare e => e.words
  | .unknown => []

@[simp] def stmtsWords : List Stmt → List Word
  | [] => []
  | s :: rest => s.words ++ stmtsWords rest

/-- A function with its parameters, the type of its value and its body. -/
@[simp] def FnDecl.words : FnDecl → List Word
  | ⟨name, params, body, returns?, _⟩ =>
    [.mark .kwFn, .name name] ++ params.flatMap Param.words ++ ascription .arrow returns? ++
      [.mark .lbrace] ++ stmtsWords body ++ [.mark .rbrace]

end

def aliasWords : Option String → List Word
  | none => []
  | some short => [.mark .kwAs, .name short]

def pathWords (parts : List String) : List Word :=
  parts.flatMap fun part => [.mark .dot, .name part]

def moduleParts (module : String) : List String :=
  (module.toList.splitOn '.').map String.ofList

/-- An import, its names in source order. -/
def Import.words : Import → List Word
  | .whole module alias? _ =>
    [.mark .kwFrom, .mark .kwPython, .mark .kwImport, .name module] ++ aliasWords alias?
  | .names module pairs _ =>
    [.mark .kwFrom, .mark .kwPython] ++ pathWords (moduleParts module) ++ [.mark .kwImport] ++
      pairs.flatMap fun (name, alias?) => .name name :: aliasWords alias?
  | .stmt s => s.words

/-- `Interleaved imports functions statements ws`: the words `ws` write out the three lists, item by
item and each list in its order, in some order between the lists. -/
inductive Interleaved : List Import → List FnDecl → List Stmt → List Word → Prop
  | nil : Interleaved [] [] [] []
  | importing {imports : List Import} {functions : List FnDecl} {statements : List Stmt}
      {ws : List Word} (i : Import) (more : Interleaved imports functions statements ws) :
      Interleaved (i :: imports) functions statements (i.words ++ ws)
  | function {imports : List Import} {functions : List FnDecl} {statements : List Stmt}
      {ws : List Word} (f : FnDecl) (more : Interleaved imports functions statements ws) :
      Interleaved imports (f :: functions) statements (f.words ++ ws)
  | stmt {imports : List Import} {functions : List FnDecl} {statements : List Stmt}
      {ws : List Word} (s : Stmt) (more : Interleaved imports functions statements ws) :
      Interleaved imports functions (s :: statements) (s.words ++ ws)

/-- A walk over a list that puts together what its elements give is a `flatMap`. -/
theorem eq_flatMap_of_walk {α β : Type} {walk : List α → List β} {f : α → List β}
    (nil : walk [] = []) (cons : ∀ a as, walk (a :: as) = f a ++ walk as) (as : List α) :
    walk as = as.flatMap f := by
  induction as with
  | nil => exact nil
  | cons a as ih => rw [cons, ih, List.flatMap_cons]

theorem typesWords_eq_flatMap :
    ∀ ts : List TypeExpr, typesWords ts = ts.flatMap TypeExpr.words :=
  eq_flatMap_of_walk rfl fun _ _ => rfl

theorem exprsWords_eq_flatMap : ∀ es : List Expr, exprsWords es = es.flatMap Expr.words :=
  eq_flatMap_of_walk rfl fun _ _ => rfl

theorem stmtsWords_eq_flatMap : ∀ ss : List Stmt, stmtsWords ss = ss.flatMap Stmt.words :=
  eq_flatMap_of_walk rfl fun _ _ => rfl

def Arm.words (arm : Arm) : List Word :=
  arm.pattern.words ++ [Word.mark .fatArrow] ++ arm.body.words

theorem armsWords_eq_flatMap : ∀ arms : List Arm, armsWords arms = arms.flatMap Arm.words :=
  eq_flatMap_of_walk rfl fun ⟨_, _, _⟩ _ => rfl

/-- A dotted name made of parts without points has these parts. -/
theorem moduleParts_intercalate {parts : List String} (hne : parts ≠ [])
    (h : ∀ part ∈ parts, '.' ∉ part.toList) : moduleParts (".".intercalate parts) = parts := by
  have hsplit : (['.'].intercalate (parts.map String.toList)).splitOn '.' =
      parts.map String.toList :=
    List.splitOn_intercalate '.' (by simpa using h) (by simpa using hne)
  rw [moduleParts, String.toList_intercalate]
  show ((['.'].intercalate (parts.map String.toList)).splitOn '.').map String.ofList = parts
  simp [hsplit]

/-! ### Well-spelled tokens -/

/-- An end mark, or a token whose text is that of a lexeme. -/
def Token.Spelled (t : Token) : Prop :=
  t.kind = .eof ∨ ∃ lexeme, Lexeme t.kind t.text lexeme

theorem Tiled.spelled {before text rest : List Char} (h : Tiled before text rest tokens) :
    ∀ t ∈ tokens, ∃ lexeme, Lexeme t.kind t.text lexeme := by
  induction h with
  | gap => simp
  | token _ isLexeme _ _ ih =>
    rintro t (_ | ⟨_, ht⟩)
    · exact ⟨_, isLexeme⟩
    · exact ih t ht

theorem Lexeme.kind_ne_eof {kind : TokenKind} {lexeme : List Char} (h : Lexeme kind text lexeme) :
    kind ≠ .eof := by
  cases h with
  | fixed h => rintro rfl; simp [TokenKind.fixedText?] at h
  | _ => simp

/-- The tokens of a text are lexemes and an end mark behind them. -/
theorem tokenize_spelled {source : String} (h : tokenize source = .ok tokens) :
    ∃ (body : List Token) (last : Token), tokens = body ++ [last] ∧ last.kind = .eof ∧
      ∀ t ∈ body, ∃ lexeme, Lexeme t.kind t.text lexeme := by
  have htiles := Lexed.tiles_lex source
  rw [Lexed.Tiles] at htiles
  rw [tokenize] at h
  cases herror : (lex source).error? with
  | none =>
    rw [herror] at h htiles
    obtain rfl := Except.ok.inj h
    obtain ⟨body, hbody, htiled⟩ := htiles
    exact ⟨body, _, hbody, rfl, htiled.spelled⟩
  | some e =>
    rw [herror] at h
    cases h

theorem spelled_of_tokenize {source : String} (h : tokenize source = .ok tokens) :
    ∀ t ∈ tokens, t.Spelled := by
  obtain ⟨body, last, rfl, hlast, hbody⟩ := tokenize_spelled h
  intro t ht
  rcases List.mem_append.mp ht with ht | ht
  · exact .inr (hbody t ht)
  · exact .inl (by rw [List.mem_singleton.mp ht, hlast])

theorem Token.Spelled.text_eq (h : t.Spelled) (hfixed : t.kind.fixedText? = some text) :
    t.text = text := by
  obtain ⟨kind, text', pos⟩ := t
  rcases h with rfl | ⟨lexeme, hlexeme⟩
  · simp [TokenKind.fixedText?] at hfixed
  · cases hlexeme with
    | fixed h => exact Option.some.inj (h.symm.trans hfixed)
    | _ => simp [TokenKind.fixedText?] at hfixed

theorem Token.word_fixed (h : t.Spelled) (hfixed : t.kind.fixedText?.isSome) :
    t.word = .mark t.kind := by
  obtain ⟨text, htext⟩ := Option.isSome_iff_exists.mp hfixed
  rw [Word.mark, htext, Option.getD_some, ← h.text_eq htext, Token.word]
  split <;> simp_all [TokenKind.fixedText?]

theorem Token.word_operator (h : t.Spelled) (hop : t.kind ∈ operatorKinds) :
    t.word = .operator t.text := by
  have hkind : ∀ kind ∈ operatorKinds, ∃ text, kind.fixedText? = some text ∧
      operatorKind text = kind := by decide
  obtain ⟨text, htext, hfind⟩ := hkind t.kind hop
  rw [t.word_fixed h (by rw [htext]; rfl), Word.mark, Word.operator, h.text_eq htext, hfind, htext]
  rfl

theorem Token.word_name (h : t.kind = .ident) : t.word = .name t.text := by
  rw [Token.word, h]
  rfl

theorem Lexeme.isName {kind : TokenKind} {lexeme : List Char} (h : Lexeme kind text lexeme)
    (hkind : kind = .ident) : IsName text.toList := by
  cases h with
  | name isName => rwa [String.toList_ofList]
  | fixed h => simp [hkind, TokenKind.fixedText?] at h
  | _ => simp at hkind

/-- A name holds no point. -/
theorem Token.Spelled.no_dot (h : t.Spelled) (hkind : t.kind = .ident) : '.' ∉ t.text.toList := by
  obtain ⟨lexeme, hlexeme⟩ := h.resolve_left (by rw [hkind]; decide)
  intro hdot
  have hword := (hlexeme.isName hkind).chars '.' hdot
  exact absurd hword (by decide)

theorem words_append (ts us : List Token) : words (ts ++ us) = words ts ++ words us := by
  simp [words]

theorem words_silent (h : t.kind.isSilent) : words [t] = [] := by
  simp [words, h]

theorem words_grouping (h : t.kind.isGrouping) : words [t] = [] :=
  words_silent (by rw [TokenKind.isSilent, h, Bool.or_true])

theorem words_singleton (h : t.kind.isSilent = false) : words [t] = [t.word] := by
  simp [words, h]

theorem words_mark (h : t.Spelled) (hmark : t.kind.isMark) : words [t] = [.mark t.kind] := by
  rw [TokenKind.isMark, Bool.and_eq_true, Bool.not_eq_true'] at hmark
  rw [words_singleton hmark.2, t.word_fixed h hmark.1]

theorem words_name (h : t.kind = .ident) : words [t] = [.name t.text] := by
  rw [words_singleton (by rw [h]; rfl), t.word_name h]

theorem words_string (h : t.kind = .string) : words [t] = [.spelled .string t.text] := by
  rw [words_singleton (by rw [h]; rfl), Token.word, h]

theorem words_int {value : Int} (h : t.kind = .int) (hvalue : Numeral.readInt t.text = .ok value) :
    words [t] = [.int value] := by
  rw [words_singleton (by rw [h]; rfl), Token.word, h]
  simp only [hvalue]

theorem words_float {value : Binary64} (h : t.kind = .float)
    (hvalue : Numeral.readFloat t.text = .ok value) : words [t] = [.float value] := by
  rw [words_singleton (by rw [h]; rfl), Token.word, h]
  simp only [hvalue]

end Owl
