/-
The blocks of emitted code.

The target reads its blocks off the layout: a line that ends with a colon is the
header of a block, and the lines of the block stand four blanks deeper.
-/
import Owl.Proofs.Target.Lines

namespace Owl

open EmitM

/-! ### Rows -/

/-- What the layout of a line shows: how far it is indented, and whether it opens a block. -/
structure Row where
  indent : Nat
  opens : Bool
deriving DecidableEq, Repr

variable {depth n n' : Nat} {rest : List Row} {s : String}

namespace Row

def plain (depth : Nat) : Row := ⟨4 * depth, false⟩

def header (depth : Nat) : Row := ⟨4 * depth, true⟩

/-- Whether a row can stand in front of another one, or of the end. -/
def leadsTo (r : Row) (next? : Option Row) : Bool :=
  if r.opens then next?.any (·.indent == r.indent + 4) else next?.all (·.indent ≤ r.indent)

end Row

/-- Whether each header has a line behind it that is four blanks deeper, and no other line has one
that is deeper. -/
def isNested : List Row → Bool
  | [] => true
  | r :: rest => r.leadsTo rest.head? && isNested rest

def rowOf (line : String) : Row :=
  ⟨(line.toList.takeWhile (· == ' ')).length, line.toList.getLast? == some ':'⟩

def linesOf (text : String) : List String :=
  (text.toList.splitOnP isLineBreak).map String.ofList

/-- The rows of a text that is written out, from its characters. -/
theorem map_rowOf_linesOf {text : String} {cs : List Char} (h : text.toList = cs) :
    (linesOf text).map rowOf = (cs.splitOnP isLineBreak).map fun line =>
      ⟨(line.takeWhile (· == ' ')).length, line.getLast? == some ':'⟩ := by
  rw [linesOf, h, List.map_map]
  refine List.map_congr_left fun line _ => ?_
  show rowOf (String.ofList line) = _
  rw [rowOf, String.toList_ofList]

/-! ### The layout that a program asks for -/

def suiteRows (depth : Nat) : List Row → List Row
  | [] => [.plain depth]
  | r :: rows => r :: rows

/-- The rows of a block, which is filled up where the block has to have a value. -/
def Use.blockRows (depth : Nat) : Use → List Row → List Row
  | .effect, rows => rows
  | .value, rows => suiteRows depth rows

/-- The rows of a second block, behind a header of their own. -/
def elseRows (depth : Nat) : List Row → List Row
  | [] => []
  | r :: rows => .header depth :: r :: rows

def Expr.guardRows (depth : Nat) (e : Expr) : List Row :=
  if e.isQuestion then [.plain depth, .header depth, .plain (depth + 1)] else []

mutual

def Stmt.rows (use : Use) (depth : Nat) : Stmt → List Row
  | .letVar _ value _ _ _ => value.guardRows depth ++ [.plain depth]
  | .ret (some value) _ => value.guardRows depth ++ [.plain depth]
  | .expr e _ =>
    if use == .effect && e.isQuestion then e.guardRows depth else [.plain depth]
  | .whileLoop _ body _ =>
    .header depth :: suiteRows (depth + 1) (stmtsRows .effect (depth + 1) body)
  | .forLoop _ _ body _ =>
    .header depth :: suiteRows (depth + 1) (stmtsRows .effect (depth + 1) body)
  | .loop body _ => .header depth :: suiteRows (depth + 1) (stmtsRows .effect (depth + 1) body)
  | .ifElse _ thenBody none _ =>
    .header depth :: use.blockRows (depth + 1) (stmtsRows use (depth + 1) thenBody)
  | .ifElse _ thenBody (some elseBody) _ =>
    .header depth :: (use.blockRows (depth + 1) (stmtsRows use (depth + 1) thenBody) ++
      elseRows depth (stmtsRows use (depth + 1) elseBody))
  | .assign .. | .ret none _ | .breakLoop _ | .continueLoop _ | .fn _ | .bare _ | .unknown =>
    [.plain depth]

def stmtsRows (use : Use) (depth : Nat) : List Stmt → List Row
  | [] => []
  | s :: rest => s.rows (use.before rest) depth ++ stmtsRows use depth rest

end

def FnDecl.rows (f : FnDecl) : List Row :=
  .header 0 :: (suiteRows 1 (stmtsRows .value 1 f.body) ++ [Row.plain 0])

def runtimeRows : List Row :=
  [.plain 0, .header 0, .header 1, .plain 2, .header 1, .plain 2, .plain 0, .header 0, .header 1,
    .plain 2, .header 1, .plain 2, .plain 0]

/-- The rows of imports and the blank line behind them. -/
def importsRows (imports : List Import) : List Row :=
  if imports.isEmpty then [] else imports.map (fun _ => Row.plain 0) ++ [Row.plain 0]

def mainRows (functions : List FnDecl) : List Row :=
  if functions.any (·.name == "main") then [.plain 0, .header 0, .plain 1] else []

def Program.partRows (p : Program) : List Row :=
  (if p.usesResult then runtimeRows else []) ++ importsRows p.imports ++
    p.functions.flatMap FnDecl.rows ++ stmtsRows .effect 0 p.statements ++ mainRows p.functions

/-- The rows of a program; one without parts has an empty line. -/
def Program.rows (p : Program) : List Row := suiteRows 0 p.partRows

def Use.fills (use : Use) (body : List Stmt) : Bool := use == .value || !body.isEmpty

mutual

/-- Whether the choices in a statement have something in their first block, or are filled up. -/
def Stmt.isFilled (use : Use) : Stmt → Bool
  | .whileLoop _ body _ => stmtsFilled .effect body
  | .forLoop _ _ body _ => stmtsFilled .effect body
  | .loop body _ => stmtsFilled .effect body
  | .ifElse _ thenBody none _ => use.fills thenBody && stmtsFilled use thenBody
  | .ifElse _ thenBody (some elseBody) _ =>
    use.fills thenBody && stmtsFilled use thenBody && stmtsFilled use elseBody
  | .letVar .. | .assign .. | .expr .. | .ret .. | .breakLoop _ | .continueLoop _ | .fn _
  | .bare _ | .unknown => true

/-- Whether the choices in statements have something in their first block, or are filled up. -/
def stmtsFilled (use : Use) : List Stmt → Bool
  | [] => true
  | s :: rest => s.isFilled (use.before rest) && stmtsFilled use rest

end

/-- Whether the choices in a program have something in their first block, or are filled up. -/
def Program.isFilled (p : Program) : Bool :=
  p.functions.all (fun f => stmtsFilled .value f.body) && stmtsFilled .effect p.statements

def Program.strings (p : Program) : List String :=
  (p.functions.flatMap FnDecl.words ++ stmtsWords p.statements).filterMap Word.string?

/-! ### Nesting -/

/-- The rows can stand behind a line at a depth that opens no block. -/
def Fits (depth : Nat) (rows : List Row) : Prop := rows.head?.all (·.indent ≤ 4 * depth) = true

theorem Fits.succ {rows : List Row} (h : Fits depth rows) : Fits (depth + 1) rows := by
  rw [Fits] at h ⊢
  cases hhead : rows.head? with
  | none => rfl
  | some r =>
    rw [hhead] at h
    simp only [Option.all_some, decide_eq_true_eq] at h ⊢
    omega

theorem fits_cons {r : Row} (h : r.indent = 4 * depth) (rows : List Row) :
    Fits depth (r :: rows) := by
  rw [Fits, List.head?_cons, Option.all_some, h, decide_eq_true_eq]

theorem isNested_plain (h : Fits depth rest) : isNested (.plain depth :: rest) = isNested rest := by
  have hleads : (Row.plain depth).leadsTo rest.head? = true := h
  rw [isNested, hleads, Bool.true_and]

/-- A header in front of something that is as deep as its block should be. -/
theorem isNested_header {r : Row} (h : r.indent = 4 * (depth + 1)) (rows : List Row) :
    isNested (.header depth :: r :: rows) = isNested (r :: rows) := by
  have hleads : (Row.header depth).leadsTo (some r) = true := by
    show (r.indent == 4 * depth + 4) = true
    rw [beq_iff_eq]
    omega
  rw [isNested, List.head?_cons, hleads, Bool.true_and]

/-- A header in front of something that is not deeper. -/
theorem isNested_header_of_fits (h : Fits depth rest) :
    isNested (.header depth :: rest) = false := by
  have hleads : (Row.header depth).leadsTo rest.head? = false := by
    rw [Fits] at h
    cases hhead : rest.head? with
    | none => rfl
    | some r =>
      rw [hhead, Option.all_some, decide_eq_true_eq] at h
      show (r.indent == 4 * depth + 4) = false
      rw [beq_eq_false_iff_ne]
      omega
  rw [isNested, hleads, Bool.false_and]

theorem isNested_guardRows (e : Expr) (h : Fits depth rest) :
    isNested (e.guardRows depth ++ rest) = isNested rest := by
  rw [Expr.guardRows]
  split
  · show isNested (.plain depth :: .header depth :: .plain (depth + 1) :: rest) = isNested rest
    rw [isNested_plain (fits_cons rfl _), isNested_header rfl, isNested_plain h.succ]
  · rfl

/-- A statement starts at its depth. -/
theorem Stmt.rows_eq_cons (s : Stmt) (use : Use) (depth : Nat) :
    ∃ r rows, s.rows use depth = r :: rows ∧ r.indent = 4 * depth := by
  have hguarded : ∀ e : Expr, ∃ r rows,
      e.guardRows depth ++ [Row.plain depth] = r :: rows ∧ r.indent = 4 * depth := by
    intro e
    rw [Expr.guardRows]
    split
    · exact ⟨_, _, rfl, rfl⟩
    · exact ⟨_, _, rfl, rfl⟩
  cases s with
  | letVar name value =>
    exact hguarded value
  | ret value? =>
    cases value? with
    | none => exact ⟨_, _, by rw [Stmt.rows], rfl⟩
    | some value =>
      exact hguarded value
  | expr e =>
    rw [Stmt.rows]
    split
    · next h =>
      rw [Expr.guardRows, if_pos (Bool.and_eq_true_iff.mp h).2]
      exact ⟨_, _, rfl, rfl⟩
    · exact ⟨_, _, rfl, rfl⟩
  | ifElse condition thenBody elseBody? =>
    cases elseBody? with
    | none => exact ⟨_, _, by rw [Stmt.rows], rfl⟩
    | some elseBody => exact ⟨_, _, by rw [Stmt.rows], rfl⟩
  | _ => exact ⟨_, _, by rw [Stmt.rows], rfl⟩

theorem fits_stmtsRows (use : Use) (body : List Stmt) (h : Fits depth rest) :
    Fits depth (stmtsRows use depth body ++ rest) := by
  cases body with
  | nil => exact h
  | cons s body =>
    obtain ⟨r, rows, hrows, hindent⟩ := s.rows_eq_cons (use.before body) depth
    rw [stmtsRows, hrows, List.cons_append, List.cons_append]
    exact fits_cons hindent _

section Suites

variable {use : Use} {depth : Nat} {body : List Stmt}
  (hbody : ∀ rest, Fits (depth + 1) rest →
    isNested (stmtsRows use (depth + 1) body ++ rest) = (stmtsFilled use body && isNested rest))

include hbody

/-- A header in front of a block that is filled up. -/
theorem isNested_suiteRows (h : Fits depth rest) :
    isNested (.header depth :: (suiteRows (depth + 1) (stmtsRows use (depth + 1) body) ++ rest)) =
      (stmtsFilled use body && isNested rest) := by
  cases body with
  | nil =>
    rw [stmtsRows, stmtsFilled, Bool.true_and]
    show isNested (.header depth :: .plain (depth + 1) :: rest) = isNested rest
    rw [isNested_header rfl, isNested_plain h.succ]
  | cons s body =>
    obtain ⟨r, rows, hrows, hindent⟩ := s.rows_eq_cons (use.before body) (depth + 1)
    have hblock := hbody rest h.succ
    rw [stmtsRows, hrows] at hblock ⊢
    rw [← hblock]
    exact isNested_header hindent _

/-- A header in front of a block that is only filled up for its value. -/
theorem isNested_blockRows (h : Fits depth rest) :
    isNested (.header depth :: (use.blockRows (depth + 1) (stmtsRows use (depth + 1) body) ++
      rest)) = (use.fills body && stmtsFilled use body && isNested rest) := by
  cases use with
  | value => exact isNested_suiteRows hbody h
  | effect =>
    have hsuite := isNested_suiteRows hbody h
    cases body with
    | nil =>
      exact isNested_header_of_fits h
    | cons s body =>
      obtain ⟨r, rows, hrows, hindent⟩ := s.rows_eq_cons (Use.effect.before body) (depth + 1)
      rw [stmtsRows, hrows] at hsuite ⊢
      exact hsuite

theorem isNested_elseRows (h : Fits depth rest) :
    isNested (elseRows depth (stmtsRows use (depth + 1) body) ++ rest) =
      (stmtsFilled use body && isNested rest) := by
  have hsuite := isNested_suiteRows hbody h
  cases body with
  | nil =>
    rfl
  | cons s body =>
    obtain ⟨r, rows, hrows, hindent⟩ := s.rows_eq_cons (use.before body) (depth + 1)
    rw [stmtsRows, hrows] at hsuite ⊢
    exact hsuite

end Suites

theorem fits_elseRows (rows : List Row) (h : Fits depth rest) :
    Fits depth (elseRows depth rows ++ rest) := by
  cases rows with
  | nil => exact h
  | cons r rows => exact fits_cons rfl _

mutual

theorem Stmt.isNested_rows (use : Use) (depth : Nat) : ∀ (s : Stmt) {rest : List Row},
    Fits depth rest → isNested (s.rows use depth ++ rest) = (s.isFilled use && isNested rest)
  | .letVar _ value _ _ _, rest, h | .ret (some value) _, rest, h => by
    rw [Stmt.rows, Stmt.isFilled, Bool.true_and, List.append_assoc, List.singleton_append,
      isNested_guardRows value (fits_cons rfl rest), isNested_plain h]
  | .expr e _, rest, h => by
    rw [Stmt.rows, Stmt.isFilled, Bool.true_and]
    split
    · exact isNested_guardRows e h
    · exact isNested_plain h
  | .whileLoop _ body _, rest, h | .forLoop _ _ body _, rest, h | .loop body _, rest, h => by
    exact isNested_suiteRows (fun _ => isNested_stmtsRows .effect (depth + 1) body) h
  | .ifElse _ thenBody none _, rest, h => by
    exact isNested_blockRows (fun _ => isNested_stmtsRows use (depth + 1) thenBody) h
  | .ifElse _ thenBody (some elseBody) _, rest, h => by
    rw [Stmt.rows, Stmt.isFilled, List.cons_append, List.append_assoc,
      isNested_blockRows (fun _ => isNested_stmtsRows use (depth + 1) thenBody)
        (fits_elseRows _ h),
      isNested_elseRows (fun _ => isNested_stmtsRows use (depth + 1) elseBody) h]
    simp only [Bool.and_assoc]
  | .assign .., rest, h | .ret none _, rest, h | .breakLoop _, rest, h | .continueLoop _, rest, h
  | .fn _, rest, h | .bare _, rest, h | .unknown, rest, h => by
    exact isNested_plain h

theorem isNested_stmtsRows (use : Use) (depth : Nat) : ∀ (body : List Stmt) {rest : List Row},
    Fits depth rest →
    isNested (stmtsRows use depth body ++ rest) = (stmtsFilled use body && isNested rest)
  | [], rest, _ => by rw [stmtsRows, stmtsFilled, Bool.true_and, List.nil_append]
  | s :: body, rest, h => by
    rw [stmtsRows, stmtsFilled, List.append_assoc,
      s.isNested_rows (use.before body) depth (fits_stmtsRows use body h),
      isNested_stmtsRows use depth body h, Bool.and_assoc]

end

/-! ### Nested programs -/

theorem isNested_functions (fs : List FnDecl) (h : Fits 0 rest) :
    Fits 0 (fs.flatMap FnDecl.rows ++ rest) ∧
      isNested (fs.flatMap FnDecl.rows ++ rest) =
        (fs.all (fun f => stmtsFilled .value f.body) && isNested rest) := by
  induction fs with
  | nil => exact ⟨h, rfl⟩
  | cons f fs ih =>
    obtain ⟨hfits, hnested⟩ := ih
    rw [List.flatMap_cons, List.all_cons, FnDecl.rows, List.append_assoc]
    refine ⟨fits_cons rfl _, ?_⟩
    have hblank : Fits 0 (.plain 0 :: (fs.flatMap FnDecl.rows ++ rest)) := fits_cons rfl _
    have hsuite := isNested_suiteRows (fun _ => isNested_stmtsRows .value 1 f.body) hblank
    rw [isNested_plain hfits, hnested] at hsuite
    rw [List.cons_append, List.append_assoc, List.singleton_append, Bool.and_assoc]
    exact hsuite

theorem isNested_imports (imports : List Import) (h : Fits 0 rest) :
    Fits 0 (importsRows imports ++ rest) ∧
      isNested (importsRows imports ++ rest) = isNested rest := by
  have hlines : Fits 0 (imports.map (fun _ => Row.plain 0) ++ .plain 0 :: rest) ∧
      isNested (imports.map (fun _ => Row.plain 0) ++ .plain 0 :: rest) = isNested rest := by
    induction imports with
    | nil => exact ⟨fits_cons rfl rest, isNested_plain h⟩
    | cons i imports ih =>
      rw [List.map_cons, List.cons_append, isNested_plain ih.1]
      exact ⟨fits_cons rfl _, ih.2⟩
  rw [importsRows]
  split
  · exact ⟨h, rfl⟩
  · rw [List.append_assoc, List.singleton_append]
    exact hlines

theorem isNested_runtimeRows (h : Fits 0 rest) :
    isNested (runtimeRows ++ rest) = isNested rest := by
  have hnested : isNested (runtimeRows ++ rest) = isNested (.plain 0 :: rest) := by
    simp [runtimeRows, isNested, Row.leadsTo, Row.header, Row.plain]
  rw [hnested, isNested_plain h]

theorem isNested_mainRows (functions : List FnDecl) :
    Fits 0 (mainRows functions) ∧ isNested (mainRows functions) = true := by
  rw [mainRows]
  split
  · exact ⟨fits_cons rfl _, by decide⟩
  · exact ⟨rfl, rfl⟩

/-- The layout that a program asks for is nested exactly if the program is filled. -/
theorem Program.isNested_rows (p : Program) : isNested p.rows = p.isFilled := by
  have hempty : ∀ rows, isNested (suiteRows 0 rows) = isNested rows := by
    intro rows
    cases rows <;> rfl
  obtain ⟨hfits, hmain⟩ := isNested_mainRows p.functions
  have hstatements := isNested_stmtsRows .effect 0 p.statements hfits
  obtain ⟨hfits, hfunctions⟩ :=
    isNested_functions p.functions (fits_stmtsRows .effect p.statements hfits)
  obtain ⟨hfits, himports⟩ := isNested_imports p.imports hfits
  rw [Program.rows, hempty, Program.partRows, List.append_assoc, List.append_assoc,
    List.append_assoc]
  have hruntime : isNested ((if p.usesResult then runtimeRows else []) ++ (importsRows p.imports ++
      (p.functions.flatMap FnDecl.rows ++ (stmtsRows .effect 0 p.statements ++
        mainRows p.functions)))) = isNested (importsRows p.imports ++
      (p.functions.flatMap FnDecl.rows ++ (stmtsRows .effect 0 p.statements ++
        mainRows p.functions))) := by
    split
    · exact isNested_runtimeRows hfits
    · rfl
  rw [hruntime, himports, hfunctions, hstatements, hmain, Bool.and_true, Program.isFilled]

/-! ### Lines that are emitted -/

/-- Lines that are laid out in rows. -/
structure Rowed (lines : List String) (rows : List Row) : Prop where
  rows_eq : lines.map rowOf = rows
  unbroken : ∀ line ∈ lines, Unbroken line

theorem Rowed.nil : Rowed [] [] := ⟨rfl, nofun⟩

theorem Rowed.append {lines lines' : List String} {rows rows' : List Row} (h : Rowed lines rows)
    (h' : Rowed lines' rows') : Rowed (lines ++ lines') (rows ++ rows') := by
  refine ⟨by rw [List.map_append, h.rows_eq, h'.rows_eq], ?_⟩
  rw [List.forall_mem_append]
  exact ⟨h.unbroken, h'.unbroken⟩

theorem Rowed.cons {line : String} {lines : List String} {row : Row} {rows : List Row}
    (h : Rowed [line] [row]) (h' : Rowed lines rows) : Rowed (line :: lines) (row :: rows) :=
  h.append h'

theorem Rowed.of_toList {line : String} {cs : List Char} {row : Row} (hcs : line.toList = cs)
    (hrow : ⟨(cs.takeWhile (· == ' ')).length, cs.getLast? == some ':'⟩ = row)
    (hbreak : cs.any isLineBreak = false) : Rowed [line] [row] := by
  subst hcs
  exact ⟨congrArg ([·]) hrow, List.forall_mem_singleton.mpr hbreak⟩

-- The characters of a literal are unified; to compute them takes long.
theorem rowed_runtimeLines : Rowed (CodeFile.runtimeLines ++ [""]) runtimeRows := by
  repeat refine .cons (.of_toList String.toList_ofList (by decide) (by decide)) ?_
  exact .nil

theorem unbroken_line (depth : Nat) (h : Unbroken s) : Unbroken (Code.line depth s) := by
  refine unbroken_append.mpr ⟨unbroken_iff.mpr fun c hc => ?_, h⟩
  rw [String.toList_ofList] at hc
  rw [List.eq_of_mem_replicate hc]
  decide

theorem rowOf_line (depth : Nat) (h : Starts s) :
    rowOf (Code.line depth s) = ⟨4 * depth, s.toList.getLast? == some ':'⟩ := by
  obtain ⟨c, cs, hs⟩ : ∃ c cs, s.toList = c :: cs := by
    cases hs : s.toList with
    | nil =>
      rw [Starts, hs] at h
      cases h
    | cons c cs => exact ⟨c, cs, rfl⟩
  have hc : (c == ' ') = false := by
    rw [Starts, hs, List.head?_cons, Option.any_some, bne_iff_ne] at h
    exact beq_eq_false_iff_ne.mpr h
  have hchars : (Code.line depth s).toList = List.replicate (4 * depth) ' ' ++ c :: cs := by
    rw [Code.line, String.toList_append, String.toList_ofList, hs]
  have hblanks : ∀ b ∈ List.replicate (4 * depth) ' ', (b == ' ') = true := by
    intro b hb
    rw [List.eq_of_mem_replicate hb]
    decide
  rw [rowOf, hchars, hs, List.takeWhile_append_of_pos hblanks, List.takeWhile_cons, hc,
    List.getLast?_append_of_ne_nil _ (List.cons_ne_nil c cs)]
  simp

theorem rowed_plain (depth : Nat) (h : Inline s) : Rowed [Code.line depth s] [.plain depth] := by
  have hends : (s.toList.getLast? == some ':') = false := by
    have hends := h.ends
    rw [Ends] at hends
    cases hlast : s.toList.getLast? with
    | none => rfl
    | some c =>
      rw [hlast, Option.any_some, bne_iff_ne] at hends
      simpa using hends
  refine ⟨?_, ?_⟩
  · rw [List.map_singleton, rowOf_line depth h.starts, hends]
    rfl
  · rw [List.forall_mem_singleton]
    exact unbroken_line depth h.unbroken

theorem rowed_header (depth : Nat) (hs : Starts s) (h : Unbroken s) :
    Rowed [Code.line depth (s ++ ":")] [.header depth] := by
  refine ⟨?_, ?_⟩
  · have hcolon : (s ++ ":").toList.getLast? = some ':' := by simp
    rw [List.map_singleton, rowOf_line depth (hs.append ":"), hcolon]
    rfl
  · rw [List.forall_mem_singleton]
    exact unbroken_line depth (unbroken_append.mpr ⟨h, by decide⟩)

/-! ### Code -/

namespace Code

theorem blockLines_append (depth : Nat) (xs ys : List Code) :
    blockLines depth (xs ++ ys) = blockLines depth xs ++ blockLines depth ys := by
  induction xs with
  | nil => simp [blockLines]
  | cons x xs ih => rw [List.cons_append, blockLines, blockLines, ih, List.append_assoc]

theorem blockLines_singleton (depth : Nat) (s : Code) : blockLines depth [s] = s.lines depth := by
  rw [blockLines, blockLines, List.append_nil]

theorem lines_ne_nil (depth : Nat) (s : Code) : s.lines depth ≠ [] := by
  cases s with
  | ret value? => cases value? <;> simp [lines]
  | branch condition thenBody elseBody => cases elseBody <;> simp [lines]
  | _ => simp [lines]

end Code

theorem Rowed.suite {code : List Code} {rows : List Row}
    (h : Rowed (Code.blockLines depth code) rows) :
    Rowed (Code.blockLines depth (Code.suite code)) (suiteRows depth rows) := by
  cases code with
  | nil =>
    rw [← h.rows_eq, Code.suite, Code.blockLines_singleton, Code.lines, Code.blockLines]
    exact rowed_plain depth ⟨by decide, by decide, by decide⟩
  | cons s code =>
    cases rows with
    | nil =>
      have hnil := List.map_eq_nil_iff.mp h.rows_eq
      rw [Code.blockLines, List.append_eq_nil_iff] at hnil
      exact absurd hnil.1 (s.lines_ne_nil depth)
    | cons r rows => exact h

theorem rowed_assign (depth : Nat) {name value : String} (hname : Inline name)
    (hvalue : Inline value) : Rowed ((Code.assign name value).lines depth) [.plain depth] := by
  refine rowed_plain depth ⟨?_, (hname.starts.append _).append _, hvalue.ends.append _⟩
  simp +decide [hname.unbroken, hvalue.unbroken]

theorem rowed_eval (depth : Nat) {value : String} (hvalue : Inline value) :
    Rowed ((Code.eval value).lines depth) [.plain depth] := by
  exact rowed_plain depth hvalue

theorem rowed_ret (depth : Nat) {value? : Option String} (hvalue : ∀ value ∈ value?, Inline value) :
    Rowed ((Code.ret value?).lines depth) [.plain depth] := by
  cases value? with
  | none =>
    exact rowed_plain depth ⟨by decide, by decide, by decide⟩
  | some value =>
    have hvalue := hvalue value rfl
    refine rowed_plain depth ⟨?_, Starts.append (by decide) _, hvalue.ends.append _⟩
    simp +decide [hvalue.unbroken]

theorem rowed_whileLoop {condition : String} (hcondition : Inline condition) {body : List Code}
    {rows : List Row} (hbody : Rowed (Code.blockLines (depth + 1) body) rows) :
    Rowed ((Code.whileLoop condition body).lines depth) (.header depth :: rows) := by
  refine (rowed_header depth (Starts.append (by decide) _) ?_).cons hbody
  simp +decide [hcondition.unbroken]

theorem rowed_forLoop {item collection : String} (hitem : Inline item)
    (hcollection : Inline collection) {body : List Code} {rows : List Row}
    (hbody : Rowed (Code.blockLines (depth + 1) body) rows) :
    Rowed ((Code.forLoop item collection body).lines depth) (.header depth :: rows) := by
  refine (rowed_header depth (((Starts.append (by decide) _).append _).append _) ?_).cons hbody
  simp +decide [hitem.unbroken, hcollection.unbroken]

theorem rowed_branch {condition : String} (hcondition : Inline condition)
    {thenBody elseBody : List Code} {thenRows rows : List Row}
    (hthen : Rowed (Code.blockLines (depth + 1) thenBody) thenRows)
    (helse : Rowed (Code.blockLines (depth + 1) elseBody) rows) :
    Rowed ((Code.branch condition thenBody elseBody).lines depth)
      (.header depth :: (thenRows ++ elseRows depth rows)) := by
  have hheader : Rowed [Code.line depth ("if " ++ condition ++ ":")] [.header depth] := by
    refine rowed_header depth (Starts.append (by decide) _) ?_
    simp +decide [hcondition.unbroken]
  cases elseBody with
  | nil =>
    rw [← helse.rows_eq, Code.lines, Code.blockLines, List.map_nil, elseRows, List.append_nil]
    exact hheader.cons hthen
  | cons s body =>
    have hfirst : Rowed [Code.line depth "else:"] [.header depth] :=
      rowed_header depth (by decide) (by decide : Unbroken "else")
    rw [Code.blockLines] at helse
    rw [Code.lines]
    cases rows with
    | nil =>
      have hnil := List.append_eq_nil_iff.mp (List.map_eq_nil_iff.mp helse.rows_eq)
      exact absurd hnil.1 (s.lines_ne_nil (depth + 1))
    | cons r rows => exact hheader.cons (hthen.append (hfirst.cons helse))

/-- A guard, and the test that it makes. -/
theorem Guard.rowed (depth : Nat) {g : Guard} (h : Inline g.operand) :
    Rowed (Code.blockLines depth g.code) [.plain depth, .header depth, .plain (depth + 1)] := by
  have htemp : Inline g.temp := Inline.numbered ⟨by decide, by decide, by decide⟩ g.number
  have htest : Inline ("isinstance(" ++ g.temp ++ ", Err)") := by
    refine ⟨by simp +decide [htemp.unbroken], (Starts.append (by decide) _).append _, ?_⟩
    exact Ends.append (by decide) _
  have hreturn : Rowed (Code.blockLines (depth + 1) [.ret (some g.temp)]) [.plain (depth + 1)] := by
    rw [Code.blockLines_singleton]
    exact rowed_ret (depth + 1) (by simpa using htemp)
  have hnone : Rowed (Code.blockLines (depth + 1) []) [] := by
    exact .nil
  exact (rowed_assign depth htemp h).append (rowed_branch htest hreturn hnone)

/-! ### Statements that are emitted -/

theorem Expr.Spells.inline {e : Expr} {code : String} (h : e.Spells code)
    (hwords : ∀ w ∈ e.words, w.Flat) : Inline code := by
  obtain ⟨n, n', hrun⟩ := h
  exact emitExpr_inline e hwords n n' code hrun

/-- A question that is guarded. -/
theorem emitGuarded_rows {operand : Expr} {span? : Option Span} {after : String → List Code}
    (hwords : ∀ w ∈ (Expr.propagate operand span?).words, w.Flat) (depth : Nat) {rows : List Row}
    (hafter : ∀ temp, Inline temp → Rowed (Code.blockLines depth (after temp)) rows) :
    Gives (emitGuarded operand after) fun code => Rowed (Code.blockLines depth code)
      ((Expr.propagate operand span?).guardRows depth ++ rows) := by
  intro n n' code h
  obtain ⟨g, hoperand, -, rfl⟩ := of_emitGuarded h
  rw [Expr.words, List.forall_mem_append] at hwords
  refine (Guard.rowed depth (hoperand.inline hwords.1)).append (hafter g.temp ?_)
  exact Inline.numbered ⟨by decide, by decide, by decide⟩ g.number

/-- The success of a temporary. -/
theorem inline_value {temp : String} (h : Inline temp) : Inline (temp ++ ".value") :=
  ⟨by simp +decide [h.unbroken], h.starts.append _, Ends.append (by decide) _⟩

theorem rowed_return (depth : Nat) {value : String} (h : Inline value) :
    Rowed (Code.blockLines depth [.ret (some value)]) [.plain depth] := by
  rw [Code.blockLines_singleton]
  exact rowed_ret depth (by simpa using h)

mutual

theorem emitStmt_rows (use : Use) (depth : Nat) : ∀ s : Stmt, (∀ w ∈ s.words, w.Flat) →
    Gives (emitStmt use s) fun code => Rowed (Code.blockLines depth code) (s.rows use depth)
  | .letVar name value _ _ _, hwords => by
    simp only [Stmt.words, List.forall_mem_append, List.forall_mem_singleton] at hwords
    have hname := hwords.1.1.1.2.inline
    rw [Stmt.rows]
    cases value with
    | propagate operand span? =>
      rw [emitStmt]
      exact emitGuarded_rows hwords.2 depth fun temp htemp =>
        rowed_assign depth hname (inline_value htemp)
    | _ =>
      simp only [emitStmt]
      exact (emitExpr_inline _ hwords.2).bind fun text htext =>
        .pure (rowed_assign depth hname htext)
  | .assign name value _, hwords => by
    simp only [Stmt.words, List.forall_mem_append, List.forall_mem_cons] at hwords
    rw [emitStmt]
    exact (emitExpr_inline value hwords.2).bind fun text htext =>
      .pure (rowed_assign depth hwords.1.1.inline htext)
  | .expr e _, hwords => by
    rw [Stmt.words] at hwords
    rw [Stmt.rows]
    cases use with
    | value =>
      rw [emitStmt]
      exact (emitExpr_inline e hwords).bind fun text htext => .pure (rowed_return depth htext)
    | effect =>
      cases e with
      | propagate operand span? =>
        rw [emitStmt, ← List.append_nil (Expr.guardRows depth _)]
        exact emitGuarded_rows hwords depth fun _ _ => .nil
      | _ =>
        simp only [emitStmt]
        exact (emitExpr_inline _ hwords).bind fun text htext => .pure (rowed_eval depth htext)
  | .ret none _, _ => by
    rw [Stmt.rows, emitStmt]
    refine .pure ?_
    rw [Code.blockLines_singleton]
    exact rowed_ret depth (by simp)
  | .ret (some value) _, hwords => by
    rw [Stmt.words, List.forall_mem_append] at hwords
    rw [Stmt.rows]
    cases value with
    | propagate operand span? =>
      rw [emitStmt]
      exact emitGuarded_rows hwords.2 depth fun temp htemp =>
        rowed_return depth (inline_value htemp)
    | _ =>
      simp only [emitStmt]
      exact (emitExpr_inline _ hwords.2).bind fun text htext => .pure (rowed_return depth htext)
  | .whileLoop condition body _, hwords => by
    simp only [Stmt.words, List.forall_mem_append] at hwords
    rw [emitStmt]
    refine (emitExpr_inline condition hwords.1.1.1.2).bind fun text htext => ?_
    refine (emitBlock_rows .effect (depth + 1) body hwords.1.2).nested.bind fun code hrows => ?_
    refine .pure ?_
    rw [Stmt.rows, Code.blockLines_singleton]
    exact rowed_whileLoop htext hrows.suite
  | .forLoop item collection body _, hwords => by
    simp only [Stmt.words, List.forall_mem_append, List.forall_mem_cons] at hwords
    rw [emitStmt]
    refine (emitExpr_inline collection hwords.1.1.1.2).bind fun text htext => ?_
    refine (emitBlock_rows .effect (depth + 1) body hwords.1.2).nested.bind fun code hrows => ?_
    refine .pure ?_
    rw [Stmt.rows, Code.blockLines_singleton]
    exact rowed_forLoop hwords.1.1.1.1.2.1.inline htext hrows.suite
  | .loop body _, hwords => by
    simp only [Stmt.words, List.forall_mem_append] at hwords
    rw [emitStmt]
    refine (emitBlock_rows .effect (depth + 1) body hwords.1.2).nested.bind fun code hrows => ?_
    refine .pure ?_
    rw [Stmt.rows, Code.blockLines_singleton]
    exact rowed_whileLoop ⟨by decide, by decide, by decide⟩ hrows.suite
  | .breakLoop _, _ | .continueLoop _, _ => by
    rw [emitStmt]
    exact .pure (rowed_plain depth ⟨by decide, by decide, by decide⟩)
  | .ifElse condition thenBody none _, hwords => by
    simp only [Stmt.words, List.forall_mem_append] at hwords
    simp only [emitStmt]
    refine (emitExpr_inline condition hwords.1.1.1.2).bind fun text htext => ?_
    refine (emitBlock_rows use (depth + 1) thenBody hwords.1.2).nested.bind fun code hrows => ?_
    refine .pure ?_
    have hnone : Rowed (Code.blockLines (depth + 1) []) [] := by
      exact .nil
    rw [Stmt.rows, Code.blockLines_singleton]
    cases use with
    | value => simpa [elseRows, Use.blockRows] using rowed_branch htext hrows.suite hnone
    | effect => simpa [elseRows, Use.blockRows] using rowed_branch htext hrows hnone
  | .ifElse condition thenBody (some elseBody) _, hwords => by
    simp only [Stmt.words, List.forall_mem_append] at hwords
    simp only [emitStmt]
    refine (emitExpr_inline condition hwords.1.1.1.1.1.2).bind fun text htext => ?_
    refine (emitBlock_rows use (depth + 1) thenBody hwords.1.1.1.2).nested.bind fun _ hrows => ?_
    refine (emitBlock_rows use (depth + 1) elseBody hwords.1.2).nested.bind fun _ hrows' => ?_
    refine .pure ?_
    rw [Stmt.rows, Code.blockLines_singleton]
    -- Only an `if` for its value has its first branch filled when that is empty.
    cases use with
    | value => exact rowed_branch htext hrows.suite hrows'
    | effect => exact rowed_branch htext hrows hrows'
  | .fn _, _ | .bare _, _ | .unknown, _ => by
    rw [emitStmt]
    exact .fail _

theorem emitBlock_rows (use : Use) (depth : Nat) : ∀ body : List Stmt,
    (∀ w ∈ stmtsWords body, w.Flat) →
    Gives (emitBlock use body) fun code =>
      Rowed (Code.blockLines depth code) (stmtsRows use depth body)
  | [], _ => .pure .nil
  | s :: body, hwords => by
    rw [stmtsWords, List.forall_mem_append] at hwords
    rw [emitBlock_cons]
    refine (emitStmt_rows (use.before body) depth s hwords.1).bind fun first hfirst => ?_
    refine (emitBlock_rows use depth body hwords.2).bind fun rest hrest => .pure ?_
    rw [Code.blockLines_append, stmtsRows]
    exact hfirst.append hrest

end

/-! ### Programs that are emitted -/

theorem Code.line_zero (s : String) : Code.line 0 s = s := String.empty_append

theorem rowed_blank : Rowed [""] [.plain 0] := ⟨rfl, by decide⟩

theorem emitFn_rows {f : FnDecl} {fn : CodeFn} (h : emitFn f n = (.ok fn, n'))
    (hwords : ∀ w ∈ f.words, w.Flat) : Rowed (fn.lines 0 ++ [""]) f.rows ∧ fn.name = f.name := by
  obtain ⟨name, params, body, returns?, span?⟩ := f
  obtain ⟨bodyCode, l, hbody, h⟩ := of_bind_eq_ok h
  cases h
  simp only [FnDecl.words, List.forall_mem_append, List.forall_mem_cons,
    List.forall_mem_flatMap] at hwords
  have hname := hwords.1.1.1.1.1.2.1.inline
  have hparams : Unbroken (commaList (params.map Param.name)) := by
    refine unbroken_commaList fun s hs => ?_
    obtain ⟨param, hparam, rfl⟩ := List.mem_map.mp hs
    exact (hwords.1.1.1.1.2 param hparam _ List.mem_cons_self).inline.unbroken
  have hheader : Rowed ["def " ++ name ++ "(" ++ commaList (params.map Param.name) ++ "):"]
      [.header 0] := by
    have hcolon : "):" = ")" ++ ":" := rfl
    rw [hcolon, ← String.append_assoc, ← Code.line_zero (_ ++ ":")]
    refine rowed_header 0 ?_ (by simp +decide [hname.unbroken, hparams])
    exact (((Starts.append (by decide) _).append _).append _).append _
  have hrows := emitBlock_rows .value 1 body hwords.1.2 _ _ _ (of_nested_eq_ok hbody)
  exact ⟨hheader.cons (hrows.suite.append rowed_blank), rfl⟩

theorem mapM_emitFn_rows {fs : List FnDecl} {fns : List CodeFn}
    (h : fs.mapM emitFn n = (.ok fns, n')) (hwords : ∀ f ∈ fs, ∀ w ∈ f.words, w.Flat) :
    Rowed (fns.flatMap fun fn => fn.lines 0 ++ [""]) (fs.flatMap FnDecl.rows) ∧
      fns.map CodeFn.name = fs.map FnDecl.name := by
  induction fs generalizing n fns with
  | nil =>
    cases h
    exact ⟨.nil, rfl⟩
  | cons f fs ih =>
    rw [List.mapM_cons] at h
    obtain ⟨fn, l, hfn, h⟩ := of_bind_eq_ok h
    obtain ⟨others, l', hothers, h⟩ := of_bind_eq_ok h
    cases h
    rw [List.forall_mem_cons] at hwords
    obtain ⟨hrows, hname⟩ := emitFn_rows hfn hwords.1
    obtain ⟨hrest, hnames⟩ := ih hothers hwords.2
    rw [List.flatMap_cons, List.flatMap_cons, List.map_cons, List.map_cons, hname, hnames]
    exact ⟨hrows.append hrest, rfl⟩

theorem inline_aliasedCode {name : String} {alias? : Option String} (hname : Inline name)
    (halias : ∀ w ∈ aliasWords alias?, w.Formed) : Inline (aliasedCode name alias?) := by
  cases alias? with
  | none => exact hname
  | some short =>
    rw [aliasedCode]
    split
    · exact hname
    · rw [aliasWords, List.forall_mem_cons, List.forall_mem_singleton] at halias
      have hshort := Inline.of_word halias.2.name.1 halias.2.name.2
      refine ⟨by simp +decide [hname.unbroken, hshort.unbroken], ?_, hshort.ends.append _⟩
      exact (hname.starts.append _).append _

theorem ends_commaList {a : String} (ha : Ends a) {values : List String}
    (h : ∀ s ∈ values, Ends s) : Ends (a ++ commaList values) := by
  induction values generalizing a with
  | nil =>
    show Ends (a ++ "")
    rwa [String.append_empty]
  | cons b values ih =>
    rw [List.forall_mem_cons] at h
    cases values with
    | nil =>
      exact h.1.append a
    | cons c values =>
      rw [commaList, String.intercalate_cons_cons, ← commaList, ← String.append_assoc]
      refine ih ?_ h.2
      exact Ends.append (Ends.append (by decide) b) a

/-- A module whose parts are names does not break a line. -/
theorem unbroken_module {module : String} (h : ∀ w ∈ pathWords (moduleParts module), w.Formed) :
    Unbroken module := by
  have hmodule : ".".intercalate (moduleParts module) = module := by
    rw [← String.toList_inj, String.toList_intercalate, moduleParts, List.map_map]
    have hid : String.toList ∘ String.ofList = id := funext fun _ => String.toList_ofList
    rw [hid, List.map_id]
    exact List.intercalate_splitOn '.'
  rw [← hmodule]
  refine unbroken_intercalate (by decide) fun part hpart => ?_
  have hname := h (.name part) (List.mem_flatMap.mpr ⟨part, hpart, by simp⟩)
  exact (Inline.of_word hname.name.1 hname.name.2).unbroken

/-- An import is written on one line. -/
theorem Import.rowed {i : Import} (hwords : ∀ w ∈ i.words, w.Formed) :
    Rowed [i.code] [.plain 0] := by
  cases i with
  | whole module alias? span? =>
    simp only [Import.words, List.forall_mem_append, List.forall_mem_cons] at hwords
    have hname := hwords.1.2.2.2.1
    have hcode := inline_aliasedCode (Inline.of_word hname.name.1 hname.name.2) hwords.2
    rw [Import.code, ← Code.line_zero (_ ++ _)]
    refine rowed_plain 0 ⟨?_, Starts.append (by decide) _, hcode.ends.append _⟩
    simp +decide [hcode.unbroken]
  | names module pairs span? =>
    simp only [Import.words, List.forall_mem_append, List.forall_mem_flatMap,
      List.forall_mem_cons] at hwords
    have hcodes : ∀ s ∈ pairs.map fun pair => aliasedCode pair.1 pair.2, Inline s := by
      intro s hs
      obtain ⟨pair, hpair, rfl⟩ := List.mem_map.mp hs
      have hpair := hwords.2 _ hpair
      exact inline_aliasedCode (Inline.of_word hpair.1.name.1 hpair.1.name.2) hpair.2
    have hlist := unbroken_commaList fun s hs => (hcodes s hs).unbroken
    have hmodule := unbroken_module hwords.1.1.2
    have hcode : (Import.names module pairs span?).code = "from " ++ module ++ " import " ++
        commaList (pairs.map fun pair => aliasedCode pair.1 pair.2) := rfl
    rw [hcode, ← Code.line_zero (_ ++ _)]
    refine rowed_plain 0 ⟨by simp +decide [hmodule, hlist], ?_, ?_⟩
    · exact ((Starts.append (by decide) _).append _).append _
    · exact ends_commaList (Ends.append (by decide) _) fun s hs => (hcodes s hs).ends
  | stmt s => exact rowed_blank

theorem rowed_imports {imports : List Import} (hwords : ∀ i ∈ imports, ∀ w ∈ i.words, w.Formed) :
    Rowed (if (imports.map Import.code).isEmpty then [] else imports.map Import.code ++ [""])
      (importsRows imports) := by
  have hlines : Rowed (imports.map Import.code) (imports.map fun _ => .plain 0) := by
    induction imports with
    | nil => exact .nil
    | cons i imports ih =>
      rw [List.forall_mem_cons] at hwords
      exact (Import.rowed hwords.1).cons (ih hwords.2)
  rw [importsRows, List.isEmpty_map]
  split
  · exact .nil
  · exact hlines.append rowed_blank

theorem emitProgram_rows {p : Program} {file : CodeFile} (h : emitProgram p n = (.ok file, n'))
    (himports : ∀ i ∈ p.imports, ∀ w ∈ i.words, w.Formed)
    (hfunctions : ∀ f ∈ p.functions, ∀ w ∈ f.words, w.Flat)
    (hstatements : ∀ w ∈ stmtsWords p.statements, w.Flat) : Rowed (file.lines 0) p.partRows := by
  obtain ⟨fns, l, hfns, h⟩ := of_bind_eq_ok h
  obtain ⟨statements, l', hrun, h⟩ := of_bind_eq_ok h
  cases h
  obtain ⟨hrows, hnames⟩ := mapM_emitFn_rows hfns hfunctions
  have hruntime : Rowed (if p.usesResult then CodeFile.runtimeLines ++ [""] else [])
      (if p.usesResult then runtimeRows else []) := by
    split
    · exact rowed_runtimeLines
    · exact .nil
  have hmain : Rowed (if fns.any (·.name == "main") then CodeFile.mainLines else [])
      (mainRows p.functions) := by
    have hany : fns.any (·.name == "main") = p.functions.any (·.name == "main") := by
      have hmap := congrArg (List.any · (· == "main")) hnames
      rwa [List.any_map, List.any_map] at hmap
    rw [mainRows, hany]
    split
    · exact ⟨by decide +kernel, by decide +kernel⟩
    · exact .nil
  have hblock := emitBlock_rows .effect 0 p.statements hstatements _ _ _ hrun
  exact (((hruntime.append (rowed_imports himports)).append hrows).append hblock).append hmain

/-- The lines of a text that was put together from lines. -/
theorem Rowed.map_linesOf {lines : List String} {rows : List Row} (h : Rowed lines rows) :
    (linesOf ("\n".intercalate lines)).map rowOf = suiteRows 0 rows := by
  obtain ⟨rfl, hunbroken⟩ := h
  cases lines with
  | nil => rfl
  | cons l lines =>
    have hlines : linesOf ("\n".intercalate (l :: lines)) = l :: lines := by
      induction lines generalizing l with
      | nil =>
        rw [List.forall_mem_singleton] at hunbroken
        rw [String.intercalate_singleton, linesOf,
          List.splitOnP_eq_singleton (unbroken_iff.mp hunbroken), List.map_singleton,
          String.ofList_toList]
      | cons l' lines ih =>
        rw [List.forall_mem_cons] at hunbroken
        have hrest := ih l' hunbroken.2
        have hbreak : ("\n" : String).toList = ['\n'] := rfl
        rw [String.intercalate_cons_cons, linesOf, String.toList_append, String.toList_append,
          hbreak, List.append_assoc, List.singleton_append,
          List.splitOnP_append_cons_of_forall_mem (unbroken_iff.mp hunbroken.1) '\n' (by decide),
          List.map_cons, String.ofList_toList]
        rw [linesOf] at hrest
        rw [hrest]
    rw [hlines, List.map_cons]
    rfl

/-- **Emitted code is laid out in blocks.**  Where the strings of a program that was read break no
line, the lines of its code are laid out as the blocks of the program ask: what is in a block stands
four blanks deeper than the header of the block.  Each header has a deeper line behind it, and no
other line has one, exactly if each choice that is there for its effect has something in its first
block. -/
theorem emit_nested (source file : String) (tokens : List Token) (p : Program)
    (h : tokenize source = .ok tokens) (hp : parse file tokens = .ok p)
    (hstrings : ∀ s ∈ p.strings, s.toList.any isLineBreak = false) (text : String)
    (hemit : p.emit = .ok text) :
    (linesOf text).map rowOf = p.rows ∧
      (isNested ((linesOf text).map rowOf) = true ↔ p.isFilled = true) := by
  obtain ⟨code, n, hrun, rfl⟩ := Program.of_emit_eq_ok hemit
  obtain ⟨hfunctions, hstatements⟩ := parse_formed h hp
  have hitems := items_formed h hp
  have himports : ∀ i ∈ p.imports, ∀ w ∈ i.words, w.Formed := by
    obtain ⟨-, -, rfl⟩ := Reading.result_eq_ok hp
    exact fun i hi w hw => hitems _ (Reading.mem_imports.mp hi) w hw
  -- The words of the program are formed as they were read, and its strings are unbroken.
  have hflat : ∀ w ∈ p.functions.flatMap FnDecl.words ++ stmtsWords p.statements,
      ∀ s ∈ w.string?, Unbroken s :=
    fun w hw s hs => hstrings s (List.mem_filterMap.mpr ⟨w, hw, hs⟩)
  have hrows := emitProgram_rows hrun himports
    (fun f hf w hw => ⟨hfunctions f hf w hw,
      hflat w (List.mem_append_left _ (List.mem_flatMap.mpr ⟨f, hf, hw⟩))⟩)
    fun w hw => ⟨hstatements w hw, hflat w (List.mem_append_right _ hw)⟩
  have hlines : (linesOf (code.text 0)).map rowOf = p.rows := hrows.map_linesOf
  refine ⟨hlines, ?_⟩
  rw [hlines, p.isNested_rows]

/-- Blocks in blocks, of which some are empty, and guards between them. -/
theorem emit_nested_loops :
    ∃ tokens p text,
      tokenize ("from python import math fn main() \x7b let a = f(b)? while a \x7b \x7d " ++
        "for x in a \x7b if x \x7b print(\"x\") \x7d else \x7b \x7d \x7d " ++
        "if a \x7b \x7d else \x7b return a? \x7d \x7d") = .ok tokens ∧
      parse "" tokens = .ok p ∧ (∀ s ∈ p.strings, s.toList.any isLineBreak = false) ∧
      p.emit = .ok text ∧ p.isFilled = true ∧ (linesOf text).map rowOf = p.rows ∧
      isNested ((linesOf text).map rowOf) = true := by
  have hchars : ∀ {as bs cs : List Char},
      (String.ofList as ++ String.ofList bs ++ String.ofList cs).toList = as ++ bs ++ cs := by
    intro as bs cs
    rw [String.toList_append, toList_ofList_append, String.toList_ofList]
  obtain ⟨p, hread, hstrings, hsome, hfilled⟩ : ∃ p, readProgram ""
      ("from python import math fn main() \x7b let a = f(b)? while a \x7b \x7d " ++
        "for x in a \x7b if x \x7b print(\"x\") \x7d else \x7b \x7d \x7d " ++
        "if a \x7b \x7d else \x7b return a? \x7d \x7d") = .ok p ∧
      (∀ s ∈ p.strings, s.toList.any isLineBreak = false) ∧ p.emit.toOption.isSome ∧
      p.isFilled :=
    exists_program hchars (by decide +kernel) fun _ _ h => h
  obtain ⟨tokens, htokens, hp⟩ := of_readProgram_eq_ok hread
  cases hemit : p.emit with
  | error fault =>
    rw [hemit] at hsome
    cases hsome
  | ok text =>
    obtain ⟨hrows, hnested⟩ := emit_nested _ "" tokens p htokens hp hstrings text hemit
    exact ⟨tokens, p, text, htokens, hp, hstrings, hemit, hfilled, hrows, hnested.mpr hfilled⟩

/-- A choice with nothing in its block leaves a header without one. -/
theorem emit_unfilled :
    (compile true "if true \x7b \x7d\nlet x = 1").toOption = some "if True:\nx = 1" ∧
      isNested ((linesOf "if True:\nx = 1").map rowOf) = false := by
  constructor
  · rw [compile_of_toList String.toList_ofList]
    decide +kernel
  · rw [map_rowOf_linesOf String.toList_ofList]
    decide +kernel

end Owl
