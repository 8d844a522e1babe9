/-
A used emitter gives the same code with other numbers.

* `Code.lines_renumber`, `CodeFile.text_renumber` — the layout of code, renumbered;
* `emitStmt_shifted`, `emitProgram_shifted` — statements and programs, started `k`
  later, are emitted as before, with all texts renumbered by `k`.
-/
import Owl.Compile
import Owl.Proofs.Renumbering.Expressions

namespace Owl

open EmitM Text

/-! ### Code -/

mutual

@[simp] def Code.mapText (f : String → String) : Code → Code
  | .assign name value => .assign (f name) (f value)
  | .eval value => .eval (f value)
  | .ret none => .ret none
  | .ret (some value) => .ret (some (f value))
  | .branch condition thenBody elseBody =>
    .branch (f condition) (mapTexts f thenBody) (mapTexts f elseBody)
  | .whileLoop condition body => .whileLoop (f condition) (mapTexts f body)
  | .forLoop item collection body => .forLoop (f item) (f collection) (mapTexts f body)
  | .breakLoop => .breakLoop
  | .continueLoop => .continueLoop
  | .pass => .pass

@[simp] def Code.mapTexts (f : String → String) : List Code → List Code
  | [] => []
  | s :: rest => s.mapText f :: mapTexts f rest

end

namespace Code

theorem mapTexts_append (f : String → String) (xs ys : List Code) :
    mapTexts f (xs ++ ys) = mapTexts f xs ++ mapTexts f ys := by
  induction xs with
  | nil => rfl
  | cons x xs ih => rw [List.cons_append, mapTexts, mapTexts, ih, List.cons_append]

theorem mapTexts_suite (f : String → String) (body : List Code) :
    mapTexts f (suite body) = suite (mapTexts f body) := by
  cases body with
  | nil => simp [suite]
  | cons s rest => simp [suite]

theorem holdsStem_blanks (n : Nat) : holdsStem (List.replicate n ' ') = false := by
  refine holdsStem_of_not_mem fun hmem => ?_
  exact absurd (List.eq_of_mem_replicate hmem) (by decide)

theorem renumber_line (k depth : Nat) (s : String) :
    renumber k (line depth s) = line depth (renumber k s) := by
  refine renumber_lead k ?_ s
  have hlast : (List.replicate (4 * depth) ' ').getLast?.any isWordChar = false := by
    cases 4 * depth with
    | zero => rfl
    | succ n =>
      rw [List.replicate_succ', List.getLast?_concat]
      decide
  rw [leads, isShut, String.toList_ofList, holdsStem_blanks, hlast]
  rfl

mutual

/-- Renumbering goes through the layout of a statement. -/
theorem lines_renumber (k depth : Nat) : ∀ s : Code,
    (s.mapText (renumber k)).lines depth = (s.lines depth).map (renumber k)
  | .assign name value => by
    simp only [mapText, lines, List.map_cons, List.map_nil, renumber_line]
    rw [renumber_between k _ (by decide)]
  | .eval value => by simp [mapText, lines, renumber_line]
  | .ret none | .breakLoop | .continueLoop | .pass => by
    simp only [mapText, lines, List.map_cons, List.map_nil, renumber_line]
    rw [renumber_of_holdsStem k (by decide)]
  | .ret (some value) => by
    simp only [mapText, lines, List.map_cons, List.map_nil, renumber_line]
    rw [renumber_lead k (by decide)]
  | .branch condition thenBody [] => by
    simp only [mapText, mapTexts, lines, List.map_cons, renumber_line,
      blockLines_renumber k (depth + 1) thenBody]
    rw [renumber_trail k _ (by decide), renumber_lead k (by decide)]
  | .branch condition thenBody (s :: rest) => by
    simp only [mapText, mapTexts, lines, List.map_cons, List.map_append, renumber_line,
      blockLines_renumber k (depth + 1) thenBody, lines_renumber k (depth + 1) s,
      blockLines_renumber k (depth + 1) rest]
    have helse : renumber k "else:" = "else:" := renumber_of_holdsStem k (by decide)
    rw [renumber_trail k _ (by decide), renumber_lead k (by decide), helse]
  | .whileLoop condition body => by
    simp only [mapText, lines, List.map_cons, renumber_line,
      blockLines_renumber k (depth + 1) body]
    rw [renumber_trail k _ (by decide), renumber_lead k (by decide)]
  | .forLoop item collection body => by
    simp only [mapText, lines, List.map_cons, renumber_line,
      blockLines_renumber k (depth + 1) body]
    rw [renumber_trail k _ (by decide), renumber_between k _ (by decide),
      renumber_lead k (by decide)]

theorem blockLines_renumber (k depth : Nat) : ∀ body : List Code,
    blockLines depth (mapTexts (renumber k) body) = (blockLines depth body).map (renumber k)
  | [] => rfl
  | s :: rest => by
    simp [mapTexts, blockLines, lines_renumber k depth s, blockLines_renumber k depth rest]

end

end Code

/-! ### Statements -/

abbrev renumberCode (k : Nat) : List Code → List Code := Code.mapTexts (renumber k)

theorem emitGuarded_shifted {k : Nat} (operand : Expr) (htexts : NoStems operand.texts)
    (hwords : ∀ w ∈ operand.words, w.Formed) {after : String → List Code}
    (hafter : ∀ temp, renumberCode k (after temp) = after (renumber k temp)) :
    Shifted k (renumberCode k) (emitGuarded operand after) (emitGuarded operand after) := by
  refine fresh_shifted.bind fun n => ?_
  refine (emitExpr_shifted k operand htexts hwords).bind fun code => .pure ?_
  simp only [Code.mapTexts, Code.mapText, hafter, renumber_tryName]
  rw [renumber_trail k _ (by decide), renumber_lead k (by decide), renumber_tryName]

/-- A value in a statement. -/
theorem emitValue_shifted {k : Nat} {e : Expr} (htexts : NoStems e.texts)
    (hwords : ∀ w ∈ e.words, w.Formed) {write : String → List Code}
    (hwrite : ∀ code, renumberCode k (write code) = write (renumber k code)) :
    Shifted k (renumberCode k) (do return write (← emitExpr e)) (do return write (← emitExpr e)) :=
  (emitExpr_shifted k e htexts hwords).bind fun code => .pure (hwrite code)

mutual

theorem emitStmt_shifted (k : Nat) (use : Use) : ∀ s : Stmt, NoStems s.texts →
    (∀ w ∈ s.words, w.Formed) →
    Shifted k (renumberCode k) (emitStmt use s) (emitStmt use s)
  | .letVar name value _ _ _ => fun htexts hwords => by
    rw [Stmt.texts, NoStems, List.forall_mem_cons] at htexts
    rw [Stmt.words, List.forall_mem_append] at hwords
    have hname : renumber k name = name := renumber_of_holdsStem k htexts.1
    -- A question mark around the whole value makes it a guard, which takes a number of its own.
    cases value with
    | propagate operand span? =>
      obtain ⟨-, hvalue⟩ := hwords
      rw [Expr.texts] at htexts
      rw [Expr.words, List.forall_mem_append] at hvalue
      simp only [emitStmt]
      refine emitGuarded_shifted operand htexts.2 hvalue.1 fun temp => ?_
      simp only [Code.mapTexts, Code.mapText, hname]
      rw [renumber_trail k _ (by decide)]
    | _ =>
      refine emitValue_shifted htexts.2 hwords.2 fun code => ?_
      simp only [Code.mapTexts, Code.mapText, hname]
  | .assign name value _ => fun htexts hwords => by
    rw [Stmt.texts, NoStems, List.forall_mem_cons] at htexts
    rw [Stmt.words, List.forall_mem_append] at hwords
    have hname : renumber k name = name := renumber_of_holdsStem k htexts.1
    refine emitValue_shifted htexts.2 hwords.2 fun code => ?_
    simp only [Code.mapTexts, Code.mapText, hname]
  | .expr e _ => fun htexts hwords => by
    rw [Stmt.texts] at htexts
    rw [Stmt.words] at hwords
    cases use with
    | value =>
      exact emitValue_shifted htexts hwords fun code => by simp only [Code.mapTexts, Code.mapText]
    | effect =>
      cases e with
      | propagate operand span? =>
        rw [Expr.texts] at htexts
        rw [Expr.words, List.forall_mem_append] at hwords
        simp only [emitStmt]
        exact emitGuarded_shifted operand htexts hwords.1 fun _ => rfl
      | _ =>
        exact emitValue_shifted htexts hwords fun code => by simp only [Code.mapTexts, Code.mapText]
  | .ret none _ | .breakLoop _ | .continueLoop _ => fun _ _ => by
    exact .pure (by simp only [Code.mapTexts, Code.mapText])
  | .ret (some value) _ => fun htexts hwords => by
    rw [Stmt.texts] at htexts
    rw [Stmt.words, List.forall_mem_append] at hwords
    cases value with
    | propagate operand span? =>
      obtain ⟨-, hvalue⟩ := hwords
      rw [Expr.texts] at htexts
      rw [Expr.words, List.forall_mem_append] at hvalue
      simp only [emitStmt]
      refine emitGuarded_shifted operand htexts hvalue.1 fun temp => ?_
      simp only [Code.mapTexts, Code.mapText]
      rw [renumber_trail k _ (by decide)]
    | _ =>
      exact emitValue_shifted htexts hwords.2 fun code => by simp only [Code.mapTexts, Code.mapText]
  | .whileLoop condition body _ => fun htexts hwords => by
    simp only [Stmt.texts, List.forall_mem_append] at htexts
    simp only [Stmt.words, List.forall_mem_append] at hwords
    refine (emitExpr_shifted k condition htexts.1 hwords.1.1.1.2).bind fun code => ?_
    refine (emitBlock_shifted k .effect body htexts.2 hwords.1.2).nested.bind fun block => .pure ?_
    simp only [Code.mapTexts, Code.mapText, Code.mapTexts_suite]
  | .forLoop item collection body _ => fun htexts hwords => by
    simp only [Stmt.texts, List.forall_mem_cons, List.forall_mem_append] at htexts
    simp only [Stmt.words, List.forall_mem_append] at hwords
    have hitem : renumber k item = item := renumber_of_holdsStem k htexts.1
    refine (emitExpr_shifted k collection htexts.2.1 hwords.1.1.1.2).bind fun code => ?_
    refine (emitBlock_shifted k .effect body htexts.2.2 hwords.1.2).nested.bind fun block =>
      .pure ?_
    simp only [Code.mapTexts, Code.mapText, Code.mapTexts_suite, hitem]
  | .loop body _ => fun htexts hwords => by
    simp only [Stmt.words, List.forall_mem_append] at hwords
    have htrue : renumber k "True" = "True" := renumber_of_holdsStem k (by decide)
    refine (emitBlock_shifted k .effect body htexts hwords.1.2).nested.bind fun block => .pure ?_
    simp only [Code.mapTexts, Code.mapText, Code.mapTexts_suite, htrue]
  | .ifElse condition thenBody none _ => fun htexts hwords => by
    simp only [Stmt.texts, List.forall_mem_append] at htexts
    simp only [Stmt.words, List.forall_mem_append] at hwords
    refine (emitExpr_shifted k condition htexts.1 hwords.1.1.1.2).bind fun code => ?_
    refine (emitBlock_shifted k use thenBody htexts.2 hwords.1.2).nested.bind fun block => .pure ?_
    cases use <;> simp only [Code.mapTexts, Code.mapText, Code.mapTexts_suite]
  | .ifElse condition thenBody (some elseBody) _ => fun htexts hwords => by
    simp only [Stmt.texts, List.forall_mem_append] at htexts
    simp only [Stmt.words, List.forall_mem_append] at hwords
    refine (emitExpr_shifted k condition htexts.1 hwords.1.1.1.1.1.2).bind fun code => ?_
    refine (emitBlock_shifted k use thenBody htexts.2.1 hwords.1.1.1.2).nested.bind fun block => ?_
    refine (emitBlock_shifted k use elseBody htexts.2.2 hwords.1.2).nested.bind fun other => .pure ?_
    cases use <;> simp only [Code.mapTexts, Code.mapText, Code.mapTexts_suite]
  | .fn _ | .bare _ | .unknown => fun _ _ => by
    exact .fail _

theorem emitBlock_shifted (k : Nat) (use : Use) : ∀ ss : List Stmt, NoStems (stmtsTexts ss) →
    (∀ w ∈ stmtsWords ss, w.Formed) →
    Shifted k (renumberCode k) (emitBlock use ss) (emitBlock use ss)
  | [] => fun _ _ => .pure rfl
  | [s] => fun htexts hwords => by
    simp only [stmtsTexts, List.append_nil] at htexts
    simp only [stmtsWords, List.append_nil] at hwords
    exact emitStmt_shifted k use s htexts hwords
  | s :: s' :: rest => fun htexts hwords => by
    rw [stmtsTexts, NoStems, List.forall_mem_append] at htexts
    rw [stmtsWords, List.forall_mem_append] at hwords
    refine (emitStmt_shifted k .effect s htexts.1 hwords.1).bind fun first => ?_
    refine (emitBlock_shifted k use (s' :: rest) htexts.2 hwords.2).bind fun more => .pure ?_
    exact Code.mapTexts_append _ first more

end

/-! ### Programs -/

def CodeFn.mapText (f : String → String) (fn : CodeFn) : CodeFn :=
  ⟨f fn.name, fn.params.map f, Code.mapTexts f fn.body⟩

def CodeFile.mapText (f : String → String) (file : CodeFile) : CodeFile :=
  ⟨file.hasRuntime, file.imports.map f, file.functions.map (CodeFn.mapText f),
    Code.mapTexts f file.statements⟩

theorem map_renumber_of_noStems (k : Nat) {texts : List String} (h : NoStems texts) :
    texts.map (renumber k) = texts := by
  rw [List.map_congr_left fun s hs => renumber_of_holdsStem k (h s hs), List.map_id'']
  exact fun _ => rfl

theorem emitFn_shifted (k : Nat) {fn : FnDecl} (htexts : NoStems fn.texts)
    (hwords : ∀ w ∈ fn.words, w.Formed) :
    Shifted k (CodeFn.mapText (renumber k)) (emitFn fn) (emitFn fn) := by
  obtain ⟨name, params, body, returns?, span?⟩ := fn
  simp only [FnDecl.texts, List.forall_mem_cons, List.forall_mem_append] at htexts
  simp only [FnDecl.words, List.forall_mem_append] at hwords
  refine (emitBlock_shifted k .value body htexts.2.2 hwords.1.2).nested.bind fun block => .pure ?_
  rw [CodeFn.mapText, renumber_of_holdsStem k htexts.1, map_renumber_of_noStems k htexts.2.1,
    Code.mapTexts_suite]

theorem renumber_aliased (k : Nat) {name : String} {alias? : Option String}
    (h : NoStems (name :: alias?.toList)) :
    renumber k (aliasedCode name alias?) = aliasedCode name alias? := by
  rw [NoStems, List.forall_mem_cons] at h
  have hname := renumber_of_holdsStem k h.1
  cases alias? with
  | none => exact hname
  | some short =>
    rw [aliasedCode]
    split
    · exact hname
    · rw [renumber_between k _ (by decide), hname,
        renumber_of_holdsStem k (h.2 short (List.mem_singleton.mpr rfl))]

theorem Import.renumber_code (k : Nat) {i : Import} (h : NoStems i.texts) :
    renumber k i.code = i.code := by
  cases i with
  | whole module alias? span? =>
    rw [Import.code, renumber_lead k (by decide), renumber_aliased k h]
  | names module pairs span? =>
    rw [Import.texts, NoStems, List.forall_mem_cons, List.forall_mem_flatMap] at h
    rw [Import.code, renumber_between k _ (by decide), renumber_lead k (by decide),
      renumber_of_holdsStem k h.1, (renumber_wordwise k).map_commaList, List.map_map]
    refine congrArg (fun names => "from " ++ module ++ " import " ++ commaList names) ?_
    exact List.map_congr_left fun pair hpair => renumber_aliased k (h.2 pair hpair)
  | stmt s => rfl

/-- A program that starts `k` later is emitted with its temporaries renumbered. -/
theorem emitProgram_shifted (k : Nat) {p : Program} (htexts : NoStems p.texts)
    (hfunctions : ∀ fn ∈ p.functions, ∀ w ∈ fn.words, w.Formed)
    (hstatements : ∀ w ∈ stmtsWords p.statements, w.Formed) :
    Shifted k (CodeFile.mapText (renumber k)) (emitProgram p) (emitProgram p) := by
  rw [Program.texts, NoStems, List.forall_mem_append, List.forall_mem_append,
    List.forall_mem_flatMap, List.forall_mem_flatMap] at htexts
  obtain ⟨himports, hfns, hstmts⟩ := htexts
  refine (Shifted.mapM fun fn hfn => emitFn_shifted k (hfns fn hfn) (hfunctions fn hfn)).bind
    fun functions => ?_
  refine (emitBlock_shifted k .effect p.statements hstmts hstatements).bind fun statements =>
    .pure ?_
  have hcode : (p.imports.map Import.code).map (renumber k) = p.imports.map Import.code := by
    rw [List.map_map]
    exact List.map_congr_left fun i hi => Import.renumber_code k (himports i hi)
  rw [CodeFile.mapText, hcode]

/-! ### Layout -/

theorem CodeFn.lines_renumber (k depth : Nat) (fn : CodeFn) :
    (fn.mapText (renumber k)).lines depth = (fn.lines depth).map (renumber k) := by
  rw [lines, lines, List.map_cons, ← Code.blockLines_renumber, renumber_trail k _ (by decide),
    renumber_between k _ (by decide), renumber_lead k (by decide),
    renumber_intercalate k (by decide)]
  rfl

theorem any_main_renumber (k : Nat) (functions : List CodeFn) :
    (functions.map (CodeFn.mapText (renumber k))).any (·.name == "main") =
      functions.any (·.name == "main") := by
  rw [List.any_map]
  refine List.any_congr rfl fun fn => ?_
  show (renumber k fn.name == "main") = (fn.name == "main")
  rw [Bool.eq_iff_iff, beq_iff_eq, beq_iff_eq, renumber_eq_iff k (by decide)]

theorem noStems_runtimeLines : NoStems (CodeFile.runtimeLines ++ [""]) := by
  have of_toList {s : String} {cs : List Char} (h : s.toList = cs) (hcs : holdsStem cs = false) :
      holdsStem s.toList = false := h ▸ hcs
  repeat refine List.forall_mem_cons.mpr ⟨of_toList String.toList_ofList (by decide), ?_⟩
  exact List.forall_mem_nil _

theorem CodeFile.lines_renumber (k depth : Nat) (file : CodeFile) :
    (file.mapText (renumber k)).lines depth = (file.lines depth).map (renumber k) := by
  have hempty : renumber k "" = "" := rfl
  have hruntime : (if file.hasRuntime then runtimeLines ++ [""] else []).map (renumber k) =
      if file.hasRuntime then runtimeLines ++ [""] else [] := by
    split
    · exact map_renumber_of_noStems k noStems_runtimeLines
    · rfl
  have himports : (if (file.imports.map (renumber k)).isEmpty then []
      else file.imports.map (renumber k) ++ [""]) =
        (if file.imports.isEmpty then [] else file.imports ++ [""]).map (renumber k) := by
    cases file.imports with
    | nil => rfl
    | cons i imports => simp [hempty]
  have hfunctions : (file.functions.map (CodeFn.mapText (renumber k))).flatMap
      (fun fn => fn.lines depth ++ [""]) =
        (file.functions.flatMap fun fn => fn.lines depth ++ [""]).map (renumber k) := by
    rw [List.flatMap_map, List.map_flatMap]
    simp [CodeFn.lines_renumber, hempty]
  have hmain : (if file.functions.any (·.name == "main") then mainLines else []).map (renumber k) =
      if file.functions.any (·.name == "main") then mainLines else [] := by
    split
    · exact map_renumber_of_noStems k (by decide +kernel)
    · rfl
  -- Whether there is a `main` to start is asked of the renumbered names.
  rw [lines, lines, List.map_append, List.map_append, List.map_append, List.map_append, hruntime,
    hmain, ← himports, ← hfunctions, ← Code.blockLines_renumber, ← any_main_renumber k file.functions]
  rfl

theorem CodeFile.text_renumber (k depth : Nat) (file : CodeFile) :
    (file.mapText (renumber k)).text depth = renumber k (file.text depth) := by
  rw [text, text, renumber_intercalate k (by decide), lines_renumber]

/-! ### Programs that were read -/

theorem Token.formed_word {t : Token} (h : t.Spelled) (hkind : t.kind.isSilent = false) :
    t.word.Formed := by
  have hlexeme : ∃ lexeme, Lexeme t.kind t.text lexeme := by
    rcases h with heof | hlexeme
    · rw [heof] at hkind
      cases hkind
    · exact hlexeme
  rw [Token.word]
  split
  · next hint =>
    rw [hint] at hlexeme
    split
    · trivial
    · exact hlexeme
  · next hfloat =>
    rw [hfloat] at hlexeme
    split
    · trivial
    · exact hlexeme
  · exact hlexeme

/-- The words of items that were read stand for well-spelled tokens. -/
theorem items_formed {source file : String} {tokens : List Token} {p : Program}
    (h : tokenize source = .ok tokens) (hp : parse file tokens = .ok p) :
    ∀ i ∈ (Reading.ofTokens file tokens).items, ∀ w ∈ i.words, w.Formed := by
  obtain ⟨hstop, hfault, -⟩ := Reading.result_eq_ok hp
  rw [Reading.ofTokens] at hstop hfault ⊢
  split at hstop
  · cases hstop
  · next last hlast =>
    rw [hlast] at hfault
    obtain ⟨taken, us, rest, rfl, -, -, hwords, -⟩ := Reading.itemsFrom_read _ tokens hfault
    have hspelled : ∀ t ∈ taken, t.Spelled := fun t ht =>
      spelled_of_tokenize h t (List.mem_append_left rest ht)
    intro i hi w hw
    have hmem : w ∈ words taken := by
      rw [hwords hspelled]
      exact List.mem_flatMap.mpr ⟨i, hi, hw⟩
    obtain ⟨t, ht, rfl⟩ := List.mem_map.mp hmem
    obtain ⟨htaken, hsilent⟩ := List.mem_filter.mp ht
    exact Token.formed_word (hspelled t htaken) (by simpa using hsilent)

/-- The words of a program that was read are as they were spelled. -/
theorem parse_formed {source file : String} {tokens : List Token} {p : Program}
    (h : tokenize source = .ok tokens) (hp : parse file tokens = .ok p) :
    (∀ fn ∈ p.functions, ∀ w ∈ fn.words, w.Formed) ∧ ∀ w ∈ stmtsWords p.statements, w.Formed := by
  have hitems := items_formed h hp
  obtain ⟨-, -, rfl⟩ := Reading.result_eq_ok hp
  refine ⟨fun fn hfn w hw => hitems _ (Reading.mem_functions.mp hfn) w hw, fun w hw => ?_⟩
  rw [stmtsWords_eq_flatMap, List.mem_flatMap] at hw
  obtain ⟨s, hs, hw⟩ := hw
  exact hitems _ (Reading.mem_statements.mp hs) w hw

/-- **A used emitter gives the same code with other numbers.**  Where no name, field or string of a
program that was read holds the stem of a temporary, and a new emitter gives its text, an emitter
whose counter stands at `k` gives that text with `k` added to the number of every temporary; its
depth stays, and its counter goes on by as much as that of the new one. -/
theorem emit_renumber (source file : String) (tokens : List Token) (p : Program)
    (h : tokenize source = .ok tokens) (hp : parse file tokens = .ok p)
    (htexts : ∀ s ∈ p.texts, holdsStem s.toList = false) (k : Nat) (text : String) (e : Emitter)
    (hemit : Emitter.emit {} p = (.ok text, e)) :
    Emitter.emit ⟨0, k⟩ p = (.ok (renumber k text), ⟨0, k + e.counter⟩) := by
  obtain ⟨hfunctions, hstatements⟩ := parse_formed h hp
  have hrun := emitProgram_shifted k htexts hfunctions hstatements 0
  rw [Nat.zero_add] at hrun
  -- The new emitter starts at zero, and what it does the used one does `k` later.
  rw [Emitter.emit] at hemit
  cases hnew : emitProgram p 0 with
  | mk outcome counter =>
    cases outcome with
    | error f =>
      rw [hnew] at hemit
      cases hemit
    | ok code =>
      rw [hnew] at hemit hrun
      cases hemit
      rw [Emitter.emit, hrun, Nat.add_comm k]
      show (Except.ok ((code.mapText (renumber k)).text 0), _) = _
      rw [CodeFile.text_renumber]

/-- A guard and a match, whose arm has the bound name in a string too. -/
theorem emit_renumber_guard_match :
    ∃ tokens p text e,
      tokenize "let a = f(b)? a = match a \x7b Some(x) => g(x, \"x\"), None => 0 \x7d" = .ok tokens ∧
      parse "" tokens = .ok p ∧ (∀ s ∈ p.texts, holdsStem s.toList = false) ∧
      Emitter.emit {} p = (.ok text, e) ∧ e.counter = 2 ∧
      Emitter.emit ⟨0, 7⟩ p = (.ok (renumber 7 text), ⟨0, 7 + e.counter⟩) := by
  obtain ⟨p, hp, hplain, hsome, hcounter⟩ : ∃ p, readProgram ""
      "let a = f(b)? a = match a \x7b Some(x) => g(x, \"x\"), None => 0 \x7d" = .ok p ∧
      (∀ s ∈ p.texts, holdsStem s.toList = false) ∧ (Emitter.emit {} p).1.toOption.isSome ∧
      (Emitter.emit {} p).2.counter = 2 :=
    exists_program String.toList_ofList (by decide +kernel) fun _ _ h => h
  obtain ⟨tokens, htokens, hp⟩ := of_readProgram_eq_ok hp
  cases hemit : Emitter.emit {} p with
  | mk outcome e =>
    cases outcome with
    | error fault => simp [hemit, Except.toOption] at hsome
    | ok text =>
      rw [hemit] at hcounter
      exact ⟨tokens, p, text, e, htokens, hp, hplain, hemit, hcounter,
        emit_renumber _ "" tokens p htokens hp hplain 7 text e hemit⟩

end Owl
