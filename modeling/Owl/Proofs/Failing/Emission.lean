/-
Where emission fails.

Emission can fail at a call by name, which a template may ask more arguments of
than it has, and at a node of no known kind.  Whether it does depends neither on
the counter nor on the texts that were emitted before, so the places where it can
fail, taken in the order in which it comes to them, decide about the whole tree.

* `emitProgram_meets`, `Program.emit_meets` — the emission of a program fails at the
  first place with a fault, and does not fail if there is none.
-/
import Owl.Compile

namespace Owl

/-! ### Hazards -/

/-- A place where emission can fail: a call by name with a number of arguments, or a node of no
known kind. -/
inductive Hazard
  | call (name : String) (count : Nat)
  | node (fault : EmitFault)
deriving DecidableEq, Repr

/-- The fault at a place, if there is one. -/
def Hazard.fault? : Hazard → Option EmitFault
  | call name count =>
    match Builtin.find? name with
    | some b => if count < b.params.length then some (.missingArg count) else none
    | none => none
  | node fault => some fault

def firstFault? (hs : List Hazard) : Option EmitFault := hs.findSome? Hazard.fault?

def Expr.callHazards (callee : Expr) (count : Nat) : List Hazard :=
  match callee with
  | .name called _ => [.call called count]
  | _ => []

mutual

/-- The places in an expression; a call comes behind its arguments. -/
@[simp] def Expr.hazards : Expr → List Hazard
  | .int .. | .float .. | .string .. | .bool .. | .name .. => []
  | .binary left _ right _ => left.hazards ++ right.hazards
  | .unary _ operand _ => operand.hazards
  | .call callee args _ =>
    callee.hazards ++ (exprsHazards args ++ callee.callHazards args.length)
  | .field object _ _ => object.hazards
  | .propagate operand _ => operand.hazards
  | .list elements _ => exprsHazards elements
  | .matching subject arms _ => subject.hazards ++ armsHazards arms
  | .stmt s => [.node (.unknownExpr s.kindName)]
  | .unknown => [.node (.unknownExpr "Expr")]

@[simp] def exprsHazards : List Expr → List Hazard
  | [] => []
  | e :: es => e.hazards ++ exprsHazards es

@[simp] def armsHazards : List Arm → List Hazard
  | [] => []
  | ⟨_, body, _⟩ :: arms => body.hazards ++ armsHazards arms

end

mutual

@[simp] def Stmt.hazards : Stmt → List Hazard
  | .letVar _ value _ _ _ => value.hazards
  | .assign _ value _ => value.hazards
  | .expr e _ => e.hazards
  | .ret none _ => []
  | .ret (some value) _ => value.hazards
  | .whileLoop condition body _ => condition.hazards ++ stmtsHazards body
  | .forLoop _ collection body _ => collection.hazards ++ stmtsHazards body
  | .loop body _ => stmtsHazards body
  | .breakLoop _ | .continueLoop _ => []
  | .ifElse condition thenBody none _ => condition.hazards ++ stmtsHazards thenBody
  | .ifElse condition thenBody (some elseBody) _ =>
    condition.hazards ++ (stmtsHazards thenBody ++ stmtsHazards elseBody)
  | .fn _ => [.node (.unknownStmt "FnDecl")]
  | .bare e => [.node (.unknownStmt e.kindName)]
  | .unknown => [.node (.unknownStmt "Stmt")]

@[simp] def stmtsHazards : List Stmt → List Hazard
  | [] => []
  | s :: rest => s.hazards ++ stmtsHazards rest

end

def Program.hazards (p : Program) : List Hazard :=
  (p.functions.flatMap fun f => stmtsHazards f.body) ++ stmtsHazards p.statements

/-- A place, and how many blocks of statements there are around it. -/
structure Pitfall where
  depth : Nat
  hazard : Hazard
deriving DecidableEq, Repr

namespace Pitfall

def failure? (p : Pitfall) : Option EmitFailure := p.hazard.fault?.map (⟨·, p.depth⟩)

def flat (h : Hazard) : Pitfall := ⟨0, h⟩

def deeper (p : Pitfall) : Pitfall := ⟨p.depth + 1, p.hazard⟩

end Pitfall

def firstFailure? (ps : List Pitfall) : Option EmitFailure := ps.findSome? Pitfall.failure?

theorem firstFailure?_append (ps ps' : List Pitfall) :
    firstFailure? (ps ++ ps') = (firstFailure? ps).or (firstFailure? ps') :=
  List.findSome?_append

theorem firstFailure?_deeper (ps : List Pitfall) :
    firstFailure? (ps.map .deeper) =
      (firstFailure? ps).map fun f => { f with depth := f.depth + 1 } := by
  rw [firstFailure?, firstFailure?, List.findSome?_map, List.map_findSome?]
  congr 1
  funext p
  cases h : p.hazard.fault? <;> simp [Pitfall.failure?, Pitfall.deeper, h]

theorem firstFault?_hazards (ps : List Pitfall) :
    firstFault? (ps.map Pitfall.hazard) = (firstFailure? ps).map EmitFailure.fault := by
  rw [firstFault?, firstFailure?, List.findSome?_map, List.map_findSome?]
  congr 1
  funext p
  cases h : p.hazard.fault? <;> simp [Pitfall.failure?, h]

mutual

/-- The places in a statement, with the blocks around them. -/
def Stmt.pitfalls : Stmt → List Pitfall
  | .whileLoop value body _ | .forLoop _ value body _ =>
    value.hazards.map .flat ++ (stmtsPitfalls body).map .deeper
  | .loop body _ => (stmtsPitfalls body).map .deeper
  | .ifElse condition thenBody none _ =>
    condition.hazards.map .flat ++ (stmtsPitfalls thenBody).map .deeper
  | .ifElse condition thenBody (some elseBody) _ =>
    condition.hazards.map .flat ++
      ((stmtsPitfalls thenBody).map .deeper ++ (stmtsPitfalls elseBody).map .deeper)
  | s => s.hazards.map .flat

def stmtsPitfalls : List Stmt → List Pitfall
  | [] => []
  | s :: rest => s.pitfalls ++ stmtsPitfalls rest

end

/-- The places in a program, with the blocks around them; the body of a function is one. -/
def Program.pitfalls (p : Program) : List Pitfall :=
  (p.functions.flatMap fun f => (stmtsPitfalls f.body).map .deeper) ++ stmtsPitfalls p.statements

theorem map_hazard_flat (hs : List Hazard) :
    (hs.map Pitfall.flat).map Pitfall.hazard = hs := by
  rw [List.map_map]
  exact List.map_id hs

theorem map_hazard_deeper (ps : List Pitfall) :
    (ps.map Pitfall.deeper).map Pitfall.hazard = ps.map Pitfall.hazard :=
  List.map_map ..

mutual

theorem Stmt.pitfalls_hazards : ∀ s : Stmt, s.pitfalls.map Pitfall.hazard = s.hazards
  | .whileLoop _ body _ | .forLoop _ _ body _ => by
    simp only [Stmt.pitfalls, Stmt.hazards, List.map_append, map_hazard_flat, map_hazard_deeper,
      stmtsPitfalls_hazards body]
  | .loop body _ => by
    simp only [Stmt.pitfalls, Stmt.hazards, map_hazard_deeper, stmtsPitfalls_hazards body]
  | .ifElse _ thenBody none _ => by
    simp only [Stmt.pitfalls, Stmt.hazards, List.map_append, map_hazard_flat, map_hazard_deeper,
      stmtsPitfalls_hazards thenBody]
  | .ifElse _ thenBody (some elseBody) _ => by
    simp only [Stmt.pitfalls, Stmt.hazards, List.map_append, map_hazard_flat, map_hazard_deeper,
      stmtsPitfalls_hazards thenBody, stmtsPitfalls_hazards elseBody]
  | .letVar .. | .assign .. | .expr .. | .ret .. | .breakLoop _ | .continueLoop _ | .fn _ | .bare _
  | .unknown => by
    simp only [Stmt.pitfalls, map_hazard_flat]

theorem stmtsPitfalls_hazards :
    ∀ ss : List Stmt, (stmtsPitfalls ss).map Pitfall.hazard = stmtsHazards ss
  | [] => rfl
  | s :: rest => by
    simp [stmtsPitfalls, stmtsHazards, s.pitfalls_hazards, stmtsPitfalls_hazards rest]

end

theorem Program.pitfalls_hazards (p : Program) : p.pitfalls.map Pitfall.hazard = p.hazards := by
  rw [pitfalls, hazards, List.map_append, List.map_flatMap, stmtsPitfalls_hazards]
  simp only [map_hazard_deeper, stmtsPitfalls_hazards]

/-- All places where emission can fail are calls. -/
def OnlyCalls (hs : List Hazard) : Prop := ∀ h ∈ hs, ∃ name count, h = .call name count

theorem OnlyCalls.nil : OnlyCalls [] := List.forall_mem_nil _

theorem onlyCalls_append {hs hs' : List Hazard} :
    OnlyCalls (hs ++ hs') ↔ OnlyCalls hs ∧ OnlyCalls hs' :=
  List.forall_mem_append

theorem OnlyCalls.append {hs hs' : List Hazard} (h : OnlyCalls hs) (h' : OnlyCalls hs') :
    OnlyCalls (hs ++ hs') :=
  onlyCalls_append.mpr ⟨h, h'⟩

theorem OnlyCalls.program {p : Program} (h : OnlyCalls p.hazards) :
    (∀ fn ∈ p.functions, OnlyCalls (stmtsHazards fn.body)) ∧
      OnlyCalls (stmtsHazards p.statements) := by
  obtain ⟨hfns, hstatements⟩ := onlyCalls_append.mp h
  exact ⟨List.forall_mem_flatMap.mp hfns, hstatements⟩

theorem not_onlyCalls_node (fault : EmitFault) : ¬ OnlyCalls [.node fault] := by
  simp [OnlyCalls]

def Expr.Ordinary (e : Expr) : Prop := OnlyCalls e.hazards

/-- A statement in which emission can fail at calls only. -/
def Stmt.Ordinary (s : Stmt) : Prop := OnlyCalls s.hazards

/-! ### Templates -/

def Piece.slots : List Piece → List Nat
  | [] => []
  | .text _ :: rest => slots rest
  | .arg index :: rest => index :: slots rest

/-- A template asks for each parameter once, in order. -/
theorem Builtin.slots_template :
    ∀ b ∈ Builtin.all, Piece.slots b.template = List.range b.params.length := by
  decide +kernel

/-- A template cannot be filled if it asks for an argument that is not there, and the first one
that it asks for is the error. -/
theorem Piece.fill_slots (args : List String) (template : List Piece) :
    (match Piece.fill args template with
      | .ok _ => none
      | .error index => some index) = (slots template).find? fun index => args.length ≤ index := by
  induction template with
  | nil => rfl
  | cons piece rest ih =>
    cases piece with
    | text s =>
      rw [Piece.fill_text, slots, ← ih]
      cases Piece.fill args rest <;> rfl
    | arg index =>
      rw [slots]
      -- Filling stops at the first argument that is not there, and looks no further.
      by_cases hindex : args.length ≤ index
      · have hnone : args[index]? = none := List.getElem?_eq_none hindex
        rw [Piece.fill, hnone, List.find?_cons_of_pos (by simpa using hindex)]
      · have hsome : args[index]? = some args[index] := List.getElem?_eq_getElem (by omega)
        rw [Piece.fill_arg hsome, List.find?_cons_of_neg (by simpa using hindex), ← ih]
        cases Piece.fill args rest <;> rfl

theorem find?_range_le (n k : Nat) :
    ((List.range k).find? fun index => n ≤ index) = if n < k then some n else none := by
  split
  · next h =>
    rw [List.find?_range_eq_some]
    refine ⟨by simp, by simpa using h, ?_⟩
    intro index hindex
    simpa using hindex
  · next h =>
    rw [List.find?_range_eq_none]
    intro index hindex
    simp only [Bool.not_eq_true', decide_eq_false_iff_not]
    omega

namespace EmitM

variable {α β γ : Type} {m : EmitM α} {k : α → EmitM β} {ps ps' : List Pitfall}

def outcomeFailure? : Except EmitFailure α → Option EmitFailure
  | .ok _ => none
  | .error f => some f

/-- From every counter on, the action fails at the first place with a fault, and does not fail if
there is none.  The counter does not go back. -/
def Meets (ps : List Pitfall) (m : EmitM α) : Prop :=
  ∀ n, outcomeFailure? (m n).1 = firstFailure? ps ∧ n ≤ (m n).2

theorem Meets.pure (a : α) : Meets [] (Pure.pure a : EmitM α) := fun n => ⟨rfl, Nat.le_refl n⟩

theorem Meets.fail (fault : EmitFault) : Meets [.flat (.node fault)] (fail fault : EmitM α) :=
  fun n => ⟨rfl, Nat.le_refl n⟩

theorem fresh_meets : Meets [] fresh := fun n => ⟨rfl, Nat.le_succ n⟩

/-- What comes second may make use of what the first action returns. -/
theorem Meets.bind_of_run (hm : Meets ps m)
    (hk : ∀ a n n', m n = (.ok a, n') → Meets ps' (k a)) : Meets (ps ++ ps') (m >>= k) := by
  intro n
  obtain ⟨hfirst, hle⟩ := hm n
  rw [firstFailure?_append]
  cases hrun : m n with
  | mk outcome n' =>
    rw [hrun] at hfirst hle
    cases outcome with
    | ok a =>
      have hnone : firstFailure? ps = none := hfirst.symm
      obtain ⟨hsecond, hle'⟩ := hk a n n' hrun n'
      rw [bind_of_ok hrun, hnone, Option.none_or]
      exact ⟨hsecond, Nat.le_trans hle hle'⟩
    | error f =>
      have hsome : firstFailure? ps = some f := hfirst.symm
      rw [bind_of_error hrun, hsome]
      exact ⟨rfl, hle⟩

theorem Meets.bind (hm : Meets ps m) (hk : ∀ a, Meets ps' (k a)) : Meets (ps ++ ps') (m >>= k) :=
  hm.bind_of_run fun a _ _ _ => hk a

theorem Meets.map (hm : Meets ps m) (f : α → β) :
    Meets ps (m >>= fun a => Pure.pure (f a)) := by
  have h := hm.bind fun a => Meets.pure (f a)
  rwa [List.append_nil] at h

theorem Meets.nested (hm : Meets ps m) : Meets (ps.map .deeper) (nested m) := by
  intro n
  obtain ⟨hfailure, hle⟩ := hm n
  rw [firstFailure?_deeper, ← hfailure, nested_run]
  refine ⟨?_, hle⟩
  cases (m n).1 <;> rfl

theorem Meets.mapM {f : γ → EmitM α} {place : γ → List Pitfall} (cs : List γ)
    (hf : ∀ c, Meets (place c) (f c)) : Meets (cs.flatMap place) (cs.mapM f) := by
  induction cs with
  | nil => exact .pure []
  | cons c cs ih =>
    rw [List.mapM_cons, List.flatMap_cons]
    exact (hf c).bind fun a => ih.map (a :: ·)

end EmitM

open EmitM

/-! ### Expressions -/

theorem templateCode_meets {b : Builtin} (hb : b ∈ Builtin.all) (args : List String) (n : Nat) :
    outcomeFailure? (templateCode b args n).1 =
        (if args.length < b.params.length then some (.missingArg args.length)
          else none : Option EmitFault).map (⟨·, 0⟩) ∧
      n ≤ (templateCode b args n).2 := by
  have hfill := Piece.fill_slots args b.template
  rw [Builtin.slots_template b hb, find?_range_le] at hfill
  rw [templateCode]
  cases hcode : Piece.fill args b.template with
  | ok s =>
    rw [hcode] at hfill
    refine ⟨?_, Nat.le_refl n⟩
    split
    · next hfew =>
      rw [if_pos hfew] at hfill
      cases hfill
    · rfl
  | error index =>
    rw [hcode] at hfill
    refine ⟨?_, Nat.le_refl n⟩
    split
    · next hfew =>
      rw [if_pos hfew] at hfill
      cases hfill
      rfl
    · next hfew =>
      rw [if_neg hfew] at hfill
      cases hfill

theorem namedCallCode_meets (name : String) (args : List String) :
    Meets [.flat (.call name args.length)] (namedCallCode name args) := by
  intro n
  rw [firstFailure?, List.findSome?_singleton, Pitfall.failure?, Pitfall.flat, Hazard.fault?,
    namedCallCode]
  cases hfind : Builtin.find? name with
  | none => exact ⟨rfl, Nat.le_refl n⟩
  | some b => exact templateCode_meets (List.mem_of_find?_eq_some hfind) args n

theorem emitExprs_length {es : List Expr} {codes : List String} {n n' : Nat}
    (h : emitExprs es n = (.ok codes, n')) : codes.length = es.length := by
  induction es generalizing codes n n' with
  | nil =>
    cases h
    rfl
  | cons e es ih =>
    rw [emitExprs] at h
    obtain ⟨first, m, -, h⟩ := of_bind_eq_ok h
    obtain ⟨rest, m', hrest, h⟩ := of_bind_eq_ok h
    cases h
    rw [List.length_cons, List.length_cons, ih hrest]

mutual

theorem emitExpr_meets : ∀ e : Expr, Meets (e.hazards.map .flat) (emitExpr e)
  | .int .. | .float .. | .string .. | .bool .. | .name .. => by
    exact .pure _
  | .binary left _ right _ => by
    simp only [emitExpr, Expr.hazards, List.map_append]
    exact (emitExpr_meets left).bind fun _ => (emitExpr_meets right).map _
  | .unary _ operand _ | .field operand _ _ | .propagate operand _ => by
    exact (emitExpr_meets operand).map _
  | .call callee args _ => by
    have hcallee := emitExpr_meets callee
    have hargs := emitExprs_meets args
    -- A call by name does not emit its callee, in which there is no place to fail.
    cases callee with
    | name name span? =>
      simp only [emitExpr, Expr.hazards, Expr.callHazards, List.nil_append, List.map_append]
      refine hargs.bind_of_run fun codes n n' hrun => ?_
      rw [← emitExprs_length hrun]
      exact namedCallCode_meets name codes
    | _ =>
      simp only [Expr.hazards, Expr.callHazards, List.append_nil, List.map_append] at hcallee ⊢
      simp only [emitExpr] at hcallee ⊢
      exact hcallee.bind fun _ => hargs.map _
  | .list elements _ => by
    exact (emitExprs_meets elements).map _
  | .matching subject arms _ => by
    simp only [emitExpr, Expr.hazards, List.map_append]
    refine (emitExpr_meets subject).bind fun _ => ?_
    exact fresh_meets.bind fun _ => (emitArms_meets _ arms).map _
  | .stmt _ | .unknown => by
    exact .fail _

theorem emitExprs_meets : ∀ es : List Expr, Meets ((exprsHazards es).map .flat) (emitExprs es)
  | [] => .pure _
  | e :: es => by
    simp only [emitExprs, exprsHazards, List.map_append]
    exact (emitExpr_meets e).bind fun _ => (emitExprs_meets es).map _

theorem emitArms_meets (temp : String) :
    ∀ arms : List Arm, Meets ((armsHazards arms).map .flat) (emitArms temp arms)
  | [] => .pure _
  | [⟨_, body, _⟩] => by
    simp only [emitArms, armsHazards, List.append_nil]
    exact (emitExpr_meets body).map _
  | ⟨_, body, _⟩ :: arm :: arms => by
    have hrest := emitArms_meets temp (arm :: arms)
    rw [armsHazards, List.map_append]
    obtain ⟨pattern', body', span?'⟩ := arm
    exact (emitExpr_meets body).bind fun _ => hrest.map _

end

/-! ### Statements -/

theorem emitGuarded_meets (operand : Expr) (after : String → List Code) :
    Meets (operand.hazards.map .flat) (emitGuarded operand after) :=
  fresh_meets.bind fun _ => (emitExpr_meets operand).map _

mutual

theorem emitStmt_meets (use : Use) : ∀ s : Stmt, Meets s.pitfalls (emitStmt use s)
  | .letVar _ value _ _ _ | .ret (some value) _ => by
    have hvalue := emitExpr_meets value
    -- A guard emits the operand of the question mark, whose places are the same.
    cases value with
    | propagate operand span? =>
      exact emitGuarded_meets operand _
    | _ =>
      exact hvalue.map _
  | .assign _ value _ => by
    exact (emitExpr_meets value).map _
  | .expr e _ => by
    have hvalue := emitExpr_meets e
    simp only [emitStmt, Stmt.pitfalls, Stmt.hazards]
    split
    · exact hvalue.map _
    · next operand span? =>
      exact emitGuarded_meets operand _
    · exact hvalue.map _
  | .ret none _ | .breakLoop _ | .continueLoop _ => by
    exact .pure _
  | .whileLoop value body _ | .forLoop _ value body _ => by
    exact (emitExpr_meets value).bind fun _ => (emitBlock_meets .effect body).nested.map _
  | .loop body _ => by
    exact (emitBlock_meets .effect body).nested.map _
  | .ifElse condition thenBody none _ => by
    exact (emitExpr_meets condition).bind fun _ => (emitBlock_meets use thenBody).nested.map _
  | .ifElse condition thenBody (some elseBody) _ => by
    refine (emitExpr_meets condition).bind fun _ => ?_
    refine (emitBlock_meets use thenBody).nested.bind fun _ => ?_
    exact (emitBlock_meets use elseBody).nested.map _
  | .fn _ | .bare _ | .unknown => by
    exact .fail _

theorem emitBlock_meets (use : Use) :
    ∀ ss : List Stmt, Meets (stmtsPitfalls ss) (emitBlock use ss)
  | [] => .pure _
  | [s] => by
    simp only [emitBlock, stmtsPitfalls, List.append_nil]
    exact emitStmt_meets use s
  | s :: s' :: rest => by
    rw [emitBlock, stmtsPitfalls]
    · exact (emitStmt_meets .effect s).bind fun _ => (emitBlock_meets use (s' :: rest)).map _
    · intro h
      cases h

end

/-! ### Programs -/

theorem emitFn_meets (f : FnDecl) : Meets ((stmtsPitfalls f.body).map .deeper) (emitFn f) :=
  (emitBlock_meets .value f.body).nested.map _

theorem emitProgram_meets (p : Program) : Meets p.pitfalls (emitProgram p) :=
  (Meets.mapM p.functions emitFn_meets).bind fun _ => (emitBlock_meets .effect p.statements).map _

/-- A program is emitted if there is no fault at its places, and the first one is why it is not. -/
theorem Program.emit_meets (p : Program) :
    match p.emit with
    | .ok _ => firstFault? p.hazards = none
    | .error fault => firstFault? p.hazards = some fault := by
  have hmeets := (emitProgram_meets p 0).1
  rw [Program.emit_eq, ← p.pitfalls_hazards, firstFault?_hazards, ← hmeets]
  cases (emitProgram p 0).1 <;> rfl

/-! ### Emitters -/

namespace Code

theorem line_line (k depth : Nat) (s : String) : line k (line depth s) = line (k + depth) s := by
  rw [line, line, line, ← String.append_assoc, ← String.ofList_append,
    List.replicate_append_replicate, Nat.mul_add]

mutual

/-- A statement is laid out deeper by moving its lines to the right. -/
theorem lines_add (k : Nat) : ∀ (s : Code) (depth : Nat),
    lines (k + depth) s = (lines depth s).map (line k)
  | assign .., depth | eval _, depth | ret none, depth | ret (some _), depth | breakLoop, depth
  | continueLoop, depth | pass, depth => by simp [lines, line_line]
  | branch _ body [], depth | whileLoop _ body, depth | forLoop _ _ body, depth => by
    simp [lines, line_line, Nat.add_assoc, blockLines_add k body (depth + 1)]
  | branch _ thenBody (s :: rest), depth => by
    simp [lines, line_line, Nat.add_assoc, blockLines_add k thenBody (depth + 1), lines_add k s
      (depth + 1), blockLines_add k rest (depth + 1)]

theorem blockLines_add (k : Nat) : ∀ (body : List Code) (depth : Nat),
    blockLines (k + depth) body = (blockLines depth body).map (line k)
  | [], _ => rfl
  | s :: rest, depth => by simp [blockLines, lines_add k s depth, blockLines_add k rest depth]

end

end Code

namespace Emitter

theorem emit_fst_eq_ok {e : Emitter} {p : Program} {text : String} :
    (e.emit p).1 = .ok text ↔
      ∃ file, (emitProgram p e.counter).1 = .ok file ∧ text = file.text e.depth := by
  rw [emit]
  cases emitProgram p e.counter with
  | mk outcome n => cases outcome <;> simp [eq_comm]

/-- **How deep a failure leaves an emitter.**  Where a program is emitted, the emitter stays as deep
as it was.  Where it is not, the emitter is deeper by the number of blocks around the first place
with a fault.  The next program is laid out from there on, each line of its statements moved to the
right that much. -/
theorem emit_depth (e : Emitter) (p : Program) :
    (match firstFailure? p.pitfalls with
      | none => (∃ text, (e.emit p).1 = .ok text) ∧ (e.emit p).2.depth = e.depth
      | some f => (e.emit p).1 = .error f.fault ∧ (e.emit p).2.depth = e.depth + f.depth) ∧
    (∀ q text, ((e.emit p).2.emit q).1 = .ok text ↔
      ∃ file, (emitProgram q (e.emit p).2.counter).1 = .ok file ∧
        text = file.text (e.emit p).2.depth) ∧
    ∀ body, Code.blockLines (e.emit p).2.depth body =
      (Code.blockLines 0 body).map (Code.line (e.emit p).2.depth) := by
  refine ⟨?_, fun q text => emit_fst_eq_ok, fun body => Code.blockLines_add _ body 0⟩
  rw [← (emitProgram_meets p e.counter).1, emit]
  cases emitProgram p e.counter with
  | mk outcome n =>
    cases outcome with
    | ok file => exact ⟨⟨_, rfl⟩, rfl⟩
    | error f => exact ⟨rfl, rfl⟩

/-- A call in the body of a function that cannot be emitted leaves its emitter inside of the body,
and the next program is laid out there. -/
theorem emit_stays_deeper :
    ∃ p, readProgram "" "fn f() \x7b len() \x7d" = .ok p ∧ (({} : Emitter).emit p).2 = ⟨1, 0⟩ ∧
      ∃ q, readProgram "" "let x = 1" = .ok q ∧
        ((({} : Emitter).emit p).2.emit q).1.toOption = some "    x = 1" := by
  refine exists_program (P := fun p => (({} : Emitter).emit p).2 = ⟨1, 0⟩)
    String.toList_ofList (by decide +kernel) fun p _ hp => ⟨hp, ?_⟩
  rw [hp]
  exact exists_program String.toList_ofList (by decide +kernel) fun _ _ h => h

end Emitter

end Owl
