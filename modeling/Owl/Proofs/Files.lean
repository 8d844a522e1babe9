/-
The files that spans name.

Every span of a program should name the file that the program was read from.  Two
kinds of node are given a span without it: a match and the pattern of an arm.  A
span that starts at another one keeps its file, so all that begins with a match is
without its file too, and nothing else is.
-/
import Owl.Compile
import Owl.Proofs.Derivation

namespace Owl

open Owl.Parser

/-! ### Nodes -/

/-- A node of a program's tree. -/
inductive Node
  | type (ty : TypeExpr)
  | param (p : Param)
  | pattern (p : Pattern)
  | arm (a : Arm)
  | expr (e : Expr)
  | stmt (s : Stmt)
  | fn (f : FnDecl)
  | importing (i : Import)

def Import.span? : Import → Option Span
  | .whole _ _ span? => span?
  | .names _ _ span? => span?
  | .stmt s => s.span?

def Node.span? : Node → Option Span
  | .type ty => ty.span?
  | .param p => p.span?
  | .pattern p => p.span?
  | .arm a => a.span?
  | .expr e => e.span?
  | .stmt s => s.span?
  | .fn f => f.span?
  | .importing i => i.span?

mutual

def TypeExpr.nodes : TypeExpr → List Node
  | .mk name params span? => .type (.mk name params span?) :: typesNodes params

def typesNodes : List TypeExpr → List Node
  | [] => []
  | ty :: tys => ty.nodes ++ typesNodes tys

end

def Param.nodes (p : Param) : List Node := .param p :: p.type?.toList.flatMap TypeExpr.nodes

mutual

def Expr.nodes (e : Expr) : List Node :=
  .expr e :: match e with
    | .int .. | .float .. | .string .. | .bool .. | .name .. | .unknown => []
    | .binary left _ right _ => left.nodes ++ right.nodes
    | .unary _ operand _ => operand.nodes
    | .call callee args _ => callee.nodes ++ exprsNodes args
    | .field object _ _ => object.nodes
    | .propagate operand _ => operand.nodes
    | .list elements _ => exprsNodes elements
    | .matching subject arms _ => subject.nodes ++ armsNodes arms
    | .stmt s => s.nodes

def exprsNodes : List Expr → List Node
  | [] => []
  | e :: es => e.nodes ++ exprsNodes es

def armsNodes : List Arm → List Node
  | [] => []
  | ⟨pattern, body, span?⟩ :: arms =>
    .arm ⟨pattern, body, span?⟩ :: .pattern pattern :: (body.nodes ++ armsNodes arms)

def Stmt.nodes (s : Stmt) : List Node :=
  .stmt s :: match s with
    | .letVar _ value type? _ _ => type?.toList.flatMap TypeExpr.nodes ++ value.nodes
    | .assign _ value _ => value.nodes
    | .expr e _ => e.nodes
    | .ret none _ | .breakLoop _ | .continueLoop _ | .unknown => []
    | .ret (some value) _ => value.nodes
    | .whileLoop condition body _ => condition.nodes ++ stmtsNodes body
    | .forLoop _ collection body _ => collection.nodes ++ stmtsNodes body
    | .loop body _ => stmtsNodes body
    | .ifElse condition thenBody none _ => condition.nodes ++ stmtsNodes thenBody
    | .ifElse condition thenBody (some elseBody) _ =>
      condition.nodes ++ (stmtsNodes thenBody ++ stmtsNodes elseBody)
    | .fn decl => decl.nodes
    | .bare e => e.nodes

def stmtsNodes : List Stmt → List Node
  | [] => []
  | s :: ss => s.nodes ++ stmtsNodes ss

def FnDecl.nodes : FnDecl → List Node
  | ⟨name, params, body, returns?, span?⟩ =>
    .fn ⟨name, params, body, returns?, span?⟩ ::
      (params.flatMap Param.nodes ++ returns?.toList.flatMap TypeExpr.nodes ++ stmtsNodes body)

end

def Import.nodes : Import → List Node
  | .whole module alias? span? => [.importing (.whole module alias? span?)]
  | .names module pairs span? => [.importing (.names module pairs span?)]
  | .stmt s => .importing (.stmt s) :: s.nodes

/-- All nodes of a program, at every depth. -/
def Program.nodes (p : Program) : List Node :=
  p.imports.flatMap Import.nodes ++ p.functions.flatMap FnDecl.nodes ++ stmtsNodes p.statements

/-! ### Files -/

def Expr.beginsWithMatch : Expr → Bool
  | .matching .. => true
  | .binary left _ _ _ => left.beginsWithMatch
  | .call callee _ _ => callee.beginsWithMatch
  | .field object _ _ => object.beginsWithMatch
  | .propagate operand _ => operand.beginsWithMatch
  | _ => false

/-- The patterns, and what begins with a match. -/
def Node.isUnfiled : Node → Bool
  | .pattern _ => true
  | .expr e => e.beginsWithMatch
  | .stmt (.expr e _) => e.beginsWithMatch
  | _ => false

def Node.file (file : String) (node : Node) : String :=
  if node.isUnfiled then Span.unknownFile else file

/-- A node has no span, or its span names the file that is expected. -/
inductive Node.Filed (file : String) (node : Node) : Prop
  | unplaced (hspan : node.span? = none) (hfiled : node.isUnfiled = false)
  | placed {span : Span} (hspan : node.span? = some span) (hfile : span.file = node.file file)

variable {file : String}

theorem Node.Filed.file_eq {node : Node} (h : node.Filed file) {span : Span}
    (hspan : node.span? = some span) : span.file = node.file file := by
  cases h with
  | unplaced hnone =>
    rw [hnone] at hspan
    cases hspan
  | placed hsome hfile =>
    rw [hsome] at hspan
    rwa [← Option.some.inj hspan]

theorem Node.Filed.exists_span {node : Node} (h : node.Filed file)
    (hunfiled : node.isUnfiled = true) :
    ∃ span, node.span? = some span ∧ span.file = Span.unknownFile := by
  cases h with
  | unplaced _ hfiled =>
    rw [hunfiled] at hfiled
    cases hfiled
  | placed hsome hfile =>
    rw [Node.file, if_pos hunfiled] at hfile
    exact ⟨_, hsome, hfile⟩

/-- An expression has a span, and it names the file unless the expression begins with a match. -/
theorem Expr.Read.exists_span : ∀ {e : Expr} {us : List Token}, e.Read file us →
    ∃ span, e.span? = some span ∧ span.file = (Node.expr e).file file
  | _, _, .int _ t | _, _, .float _ t | _, _, .string t
  | _, _, .bool _ t | _, _, .name t => ⟨t.span file, rfl, rfl⟩
  | _, _, .binary hleft _ hright => by
    obtain ⟨a, ha, hfile⟩ := hleft.exists_span
    obtain ⟨b, hb, -⟩ := hright.exists_span
    exact ⟨a.merge b, by rw [Expr.span?, ha, hb]; rfl, hfile⟩
  | _, _, .unary op hoperand => by
    obtain ⟨a, ha, -⟩ := hoperand.exists_span
    exact ⟨(op.span file).merge a, by rw [Expr.span?, ha]; rfl, rfl⟩
  | _, _, .call hfirst _ _ last | _, _, .field hfirst last | _, _, .propagate hfirst last => by
    obtain ⟨a, ha, hfile⟩ := hfirst.exists_span
    exact ⟨a.merge (last.span file), by rw [Expr.span?, ha]; rfl, hfile⟩
  | _, _, .list opening _ closing => ⟨(opening.span file).merge (closing.span file), rfl, rfl⟩
  | _, _, .matching keyword _ _ => ⟨keyword.span Span.unknownFile, rfl, rfl⟩

theorem Expr.Read.filed {e : Expr} {us : List Token} (h : e.Read file us) :
    (Node.expr e).Filed file := by
  obtain ⟨_, hspan, hfile⟩ := h.exists_span
  exact .placed hspan hfile

mutual

theorem Expr.Read.nodes_filed : ∀ {e : Expr} {us : List Token}, e.Read file us →
    ∀ node ∈ e.nodes, node.Filed file
  | _, _, h@(.int ..) | _, _, h@(.float ..) | _, _, h@(.string ..) | _, _, h@(.bool ..)
  | _, _, h@(.name ..) => List.forall_mem_cons.mpr ⟨h.filed, List.forall_mem_nil _⟩
  | _, _, h@(.binary hleft _ hright) =>
    List.forall_mem_cons.mpr ⟨h.filed,
      List.forall_mem_append.mpr ⟨hleft.nodes_filed, hright.nodes_filed⟩⟩
  | _, _, h@(.unary _ hoperand) | _, _, h@(.field hoperand _) | _, _, h@(.propagate hoperand _) =>
    List.forall_mem_cons.mpr ⟨h.filed, hoperand.nodes_filed⟩
  | _, _, h@(.call hcallee _ hargs _) =>
    List.forall_mem_cons.mpr ⟨h.filed,
      List.forall_mem_append.mpr ⟨hcallee.nodes_filed, exprsNodes_filed hargs⟩⟩
  | _, _, h@(.list _ helements _) =>
    List.forall_mem_cons.mpr ⟨h.filed, exprsNodes_filed helements⟩
  | _, _, h@(.matching _ hsubject harms) =>
    List.forall_mem_cons.mpr ⟨h.filed,
      List.forall_mem_append.mpr ⟨hsubject.nodes_filed, armsNodes_filed harms⟩⟩

theorem exprsNodes_filed : ∀ {es : List Expr} {us : List Token}, Parts (Expr.Read file) es us →
    ∀ node ∈ exprsNodes es, node.Filed file
  | _, _, .nil => List.forall_mem_nil _
  | _, _, .cons hfirst hmore =>
    List.forall_mem_append.mpr ⟨hfirst.nodes_filed, exprsNodes_filed hmore⟩

theorem armsNodes_filed : ∀ {arms : List Arm} {us : List Token}, Parts (Arm.Read file) arms us →
    ∀ node ∈ armsNodes arms, node.Filed file
  | _, _, .nil => List.forall_mem_nil _
  | _, _, .cons (.mk _ hpattern hbody) hmore =>
    List.forall_mem_cons.mpr ⟨.unplaced rfl rfl, List.forall_mem_cons.mpr ⟨.placed hpattern rfl,
      List.forall_mem_append.mpr ⟨hbody.nodes_filed, armsNodes_filed hmore⟩⟩⟩

end

/-! ### Types, statements and functions -/

mutual

theorem TypeExpr.nodes_filed : (ty : TypeExpr) → ty.Unplaced → ∀ node ∈ ty.nodes, node.Filed file
  | .mk name params span? => by
    rintro ⟨_, hparams⟩
    exact List.forall_mem_cons.mpr ⟨.unplaced rfl rfl, typesNodes_filed params hparams⟩

theorem typesNodes_filed : (tys : List TypeExpr) → (∀ ty ∈ tys, ty.Unplaced) →
    ∀ node ∈ typesNodes tys, node.Filed file
  | [] => fun _ => List.forall_mem_nil _
  | ty :: tys => by
    intro h
    obtain ⟨hty, htys⟩ := List.forall_mem_cons.mp h
    exact List.forall_mem_append.mpr ⟨ty.nodes_filed hty, typesNodes_filed tys htys⟩

end

theorem typeNodes_filed {type? : Option TypeExpr} (h : ∀ ty ∈ type?, ty.Unplaced) :
    ∀ node ∈ type?.toList.flatMap TypeExpr.nodes, node.Filed file :=
  List.forall_mem_flatMap.mpr fun ty hty => ty.nodes_filed (h ty (Option.mem_toList.mp hty))

theorem Param.Unplaced.nodes_filed {param : Param} (h : param.Unplaced) :
    ∀ node ∈ param.nodes, node.Filed file :=
  List.forall_mem_cons.mpr ⟨.unplaced h.span? rfl, typeNodes_filed h.type?⟩

/-- A statement has a span, and it names the file unless the statement is an expression that begins
with a match. -/
theorem Stmt.Read.exists_span {s : Stmt} {us : List Token} (h : s.Read file us) :
    ∃ span, s.span? = some span ∧ span.file = (Node.stmt s).file file := by
  cases h with
  | letVar start _ _ _ hvalue | assign start hvalue | retValue start hvalue =>
    obtain ⟨a, ha, -⟩ := hvalue.exists_span
    exact ⟨(start.span file).merge a, by rw [Stmt.span?, ha]; rfl, rfl⟩
  | expr he => exact he.exists_span
  | ret keyword | whileLoop keyword | forLoop keyword | loop keyword | breakLoop keyword
  | continueLoop keyword | ifThen keyword | ifElse keyword => exact ⟨keyword.span file, rfl, rfl⟩

theorem Stmt.Read.filed {s : Stmt} {us : List Token} (h : s.Read file us) :
    (Node.stmt s).Filed file := by
  obtain ⟨_, hspan, hfile⟩ := h.exists_span
  exact .placed hspan hfile

mutual

theorem Stmt.Read.nodes_filed : ∀ {s : Stmt} {us : List Token}, s.Read file us →
    ∀ node ∈ s.nodes, node.Filed file
  | _, _, h@(.letVar _ _ _ htype hvalue) =>
    List.forall_mem_cons.mpr ⟨h.filed,
      List.forall_mem_append.mpr ⟨typeNodes_filed htype, hvalue.nodes_filed⟩⟩
  | _, _, h@(.assign _ hvalue) | _, _, h@(.expr hvalue) | _, _, h@(.retValue _ hvalue) =>
    List.forall_mem_cons.mpr ⟨h.filed, hvalue.nodes_filed⟩
  | _, _, h@(.ret _) | _, _, h@(.breakLoop _) | _, _, h@(.continueLoop _) =>
    List.forall_mem_cons.mpr ⟨h.filed, List.forall_mem_nil _⟩
  | _, _, h@(.whileLoop _ hvalue hbody) | _, _, h@(.forLoop _ _ hvalue hbody)
  | _, _, h@(.ifThen _ hvalue hbody) =>
    List.forall_mem_cons.mpr ⟨h.filed,
      List.forall_mem_append.mpr ⟨hvalue.nodes_filed, stmtsNodes_filed hbody⟩⟩
  | _, _, h@(.loop _ hbody) => List.forall_mem_cons.mpr ⟨h.filed, stmtsNodes_filed hbody⟩
  | _, _, h@(.ifElse _ hcondition hthen helse) =>
    List.forall_mem_cons.mpr ⟨h.filed, List.forall_mem_append.mpr ⟨hcondition.nodes_filed,
      List.forall_mem_append.mpr ⟨stmtsNodes_filed hthen, stmtsNodes_filed helse⟩⟩⟩

theorem stmtsNodes_filed : ∀ {ss : List Stmt} {us : List Token}, Parts (Stmt.Read file) ss us →
    ∀ node ∈ stmtsNodes ss, node.Filed file
  | _, _, .nil => List.forall_mem_nil _
  | _, _, .cons hfirst hmore =>
    List.forall_mem_append.mpr ⟨hfirst.nodes_filed, stmtsNodes_filed hmore⟩

end

theorem FnDecl.Read.nodes_filed {fn : FnDecl} {us : List Token} (h : fn.Read file us) :
    ∀ node ∈ fn.nodes, node.Filed file := by
  obtain ⟨keyword, name, hparams, hreturns, hbody⟩ := h
  refine List.forall_mem_cons.mpr ⟨.placed rfl rfl, ?_⟩
  rw [List.forall_mem_append, List.forall_mem_append]
  refine ⟨⟨List.forall_mem_flatMap.mpr fun param hparam => ?_, typeNodes_filed hreturns⟩,
    stmtsNodes_filed hbody⟩
  exact (hparams param hparam).nodes_filed

theorem Import.Unplaced.nodes_filed {i : Import} (h : i.Unplaced) :
    ∀ node ∈ i.nodes, node.Filed file := by
  cases h with
  | whole | names => exact List.forall_mem_singleton.mpr (.unplaced rfl rfl)

/-! ### Programs -/

theorem Program.Read.nodes_filed {p : Program} (h : p.Read file) :
    ∀ node ∈ p.nodes, node.Filed file := by
  obtain ⟨us, hstatements⟩ := h.statements
  rw [Program.nodes, List.forall_mem_append, List.forall_mem_append, List.forall_mem_flatMap,
    List.forall_mem_flatMap]
  refine ⟨⟨fun i hi => (h.imports i hi).nodes_filed, fun fn hfn => ?_⟩,
    stmtsNodes_filed hstatements⟩
  obtain ⟨vs, hread⟩ := h.functions fn hfn
  exact hread.nodes_filed

/-- **Which spans name their file.**  In a program that is read from the tokens of a file, every
span names the file, but for the spans of patterns and of what begins with a match, which name no
known one.  So all spans name the file just where there is no match, or where the file is not
known. -/
theorem span_files {ts : List Token} {p : Program} (h : parse file ts = .ok p) :
    (∀ node ∈ p.nodes, ∀ span, node.span? = some span →
      span.file = if node.isUnfiled then Span.unknownFile else file) ∧
    ((∀ node ∈ p.nodes, ∀ span, node.span? = some span → span.file = file) ↔
      file = Span.unknownFile ∨ ∀ node ∈ p.nodes, node.isUnfiled = false) := by
  have hfiled := (Program.read_of_parse h).nodes_filed
  refine ⟨fun node hnode span hspan => (hfiled node hnode).file_eq hspan, fun hall => ?_, ?_⟩
  · by_cases hfile : file = Span.unknownFile
    · exact .inl hfile
    · refine .inr fun node hnode => Bool.eq_false_iff.mpr fun hunfiled => ?_
      obtain ⟨span, hspan, hunknown⟩ := (hfiled node hnode).exists_span hunfiled
      exact hfile ((hall node hnode span hspan).symm.trans hunknown)
  · intro hwhere node hnode span hspan
    have hspanFile := (hfiled node hnode).file_eq hspan
    rw [Node.file] at hspanFile
    obtain rfl | hnone := hwhere
    · rwa [ite_self] at hspanFile
    · rwa [hnone node hnode, if_neg Bool.false_ne_true] at hspanFile

def Program.spanFiles (p : Program) : List String :=
  p.nodes.filterMap fun node => node.span?.map Span.file

/-- A sum that begins with a match names no known file, and neither do the field and the match in
it; the minus sign and the list behind it do. -/
theorem span_files_sum :
    ∃ ts p,
      tokenize "fn f(a: Int) \x7b return (match a \x7b None => -a \x7d).c + [a] \x7d" = .ok ts ∧
      parse "a.ow" ts = .ok p ∧
      p.spanFiles = ["a.ow", "a.ow", "<unknown>", "<unknown>", "<unknown>", "a.ow", "<unknown>",
        "a.ow", "a.ow", "a.ow", "a.ow"] ∧
      ((∀ node ∈ p.nodes, ∀ span, node.span? = some span →
        span.file = if node.isUnfiled then Span.unknownFile else "a.ow") ∧
      ((∀ node ∈ p.nodes, ∀ span, node.span? = some span → span.file = "a.ow") ↔
        "a.ow" = Span.unknownFile ∨ ∀ node ∈ p.nodes, node.isUnfiled = false)) := by
  exact exists_parsed (P := fun p => p.spanFiles = ["a.ow", "a.ow", "<unknown>", "<unknown>",
      "<unknown>", "a.ow", "<unknown>", "a.ow", "a.ow", "a.ow", "a.ow"])
    String.toList_ofList (by decide +kernel) fun _ _ _ hparse hfiles => ⟨hfiles, span_files hparse⟩

/-- The spans of a match and of its patterns do not name the file that is read. -/
theorem match_spans_unfiled :
    ∃ p, readProgram "a.ow" "match x \x7b Some(y) => y, None => 1 \x7d" = .ok p ∧
      p.spanFiles =
        ["<unknown>", "<unknown>", "a.ow", "<unknown>", "a.ow", "<unknown>", "a.ow"] :=
  exists_program String.toList_ofList (by decide +kernel) fun _ _ h => h

end Owl
