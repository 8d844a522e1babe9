/-
Where names are looked up.

A name that is used, assigned to or called is looked up at the place of its token, so
no two look-ups of a text have a place in common.  Each of them comes with the names
that are declared before it, and with those of these that the check has seen by then.
Most blocks are checked from the front to the back, and both are the same; but the last
statement of a branch that is used for its value is checked before the others.
-/
import Owl.Proofs.Nesting
import Owl.Proofs.Visiting.Jumps

namespace Owl

open Checker CheckM Owl.Parser

/-! ### Look-ups -/

/-- The names around a place: those that are declared before it, in its block or in one around it,
and those that the check has come to before it comes to the place. -/
structure Names where
  declared : List String
  seen : List String

/-- Further names are declared, and the check comes to them. -/
def Names.declare (Γ : Names) (names : List String) : Names :=
  ⟨names ++ Γ.declared, names ++ Γ.seen⟩

/-- A name that is looked up. -/
structure Lookup where
  name : String
  /-- How many arguments the name is called with, if it is. -/
  count? : Option Nat
  span? : Option Span
  around : Names

variable {c : Checker} {us : List Token} {Γ : Names} {name : String} {t : Token} {l : Lookup}
  {p : Program}

def Lookup.pos (l : Lookup) : Position := (l.span?.getD .dummy).start

mutual

def Expr.lookups (Γ : Names) : Expr → List Lookup
  | .name name span? => [⟨name, none, span?, Γ⟩]
  | .binary left _ right _ => left.lookups Γ ++ right.lookups Γ
  | .unary _ operand _ => operand.lookups Γ
  | .call (.name name _) args span? => ⟨name, some args.length, span?, Γ⟩ :: exprsLookups Γ args
  | .call callee args _ => callee.lookups Γ ++ exprsLookups Γ args
  | .field object _ _ => object.lookups Γ
  | .propagate operand _ => operand.lookups Γ
  | .list elements _ => exprsLookups Γ elements
  | .matching subject arms _ => subject.lookups Γ ++ armsLookups Γ arms
  | .int .. | .float .. | .string .. | .bool .. | .stmt _ | .unknown => []

def exprsLookups (Γ : Names) : List Expr → List Lookup
  | [] => []
  | e :: es => e.lookups Γ ++ exprsLookups Γ es

def armsLookups (Γ : Names) : List Arm → List Lookup
  | [] => []
  | ⟨pattern, body, _⟩ :: arms =>
    body.lookups (Γ.declare pattern.bindings) ++ armsLookups Γ arms

end

mutual

def Stmt.lookups (use : Use) (Γ : Names) : Stmt → List Lookup
  | .letVar _ value _ _ _ => value.lookups Γ
  | .assign name value span? => ⟨name, none, span?, Γ⟩ :: value.lookups Γ
  | .expr e _ => e.lookups Γ
  | .ret none _ => []
  | .ret (some value) _ => value.lookups Γ
  | .whileLoop condition body _ => condition.lookups Γ ++ stmtsLookups .effect Γ body
  | .forLoop item collection body _ =>
    collection.lookups Γ ++ stmtsLookups .effect (Γ.declare [item]) body
  | .loop body _ => stmtsLookups .effect Γ body
  | .ifElse condition thenBody none _ => condition.lookups Γ ++ branchLookups use Γ.seen Γ thenBody
  | .ifElse condition thenBody (some elseBody) _ =>
    condition.lookups Γ ++
      (branchLookups use Γ.seen Γ thenBody ++ branchLookups use Γ.seen Γ elseBody)
  | .breakLoop _ | .continueLoop _ | .fn _ | .bare _ | .unknown => []

def stmtsLookups (use : Use) (Γ : Names) : List Stmt → List Lookup
  | [] => []
  | s :: rest => s.lookups use Γ ++ stmtsLookups use (Γ.declare s.bound) rest

/-- The look-ups of a branch.  If it is used for its value, its last statement is looked at when the
check has only seen the names `seen`. -/
def branchLookups (use : Use) (seen : List String) (Γ : Names) : List Stmt → List Lookup
  | [] => []
  | [s] => s.lookups use (if use = .value then { Γ with seen } else Γ)
  | s :: rest => s.lookups .effect Γ ++ branchLookups use seen (Γ.declare s.bound) rest

end

def Program.imported (p : Program) : Names :=
  ⟨p.imports.flatMap Import.bound, p.imports.flatMap Import.bound⟩

def FnDecl.lookups (Γ : Names) (fn : FnDecl) : List Lookup :=
  stmtsLookups .value (Γ.declare (fn.params.map Param.name)) fn.body

def Program.lookups (p : Program) : List Lookup :=
  p.functions.flatMap (FnDecl.lookups p.imported) ++ stmtsLookups .effect p.imported p.statements

/-! ### Places -/

section Places

variable {file : String}

theorem Position.eq_of_le_of_not_before {p q : Position} (h : p ≤ q) (h' : ¬ p.before q = true) :
    q = p := by
  obtain ⟨line, column⟩ := p
  obtain ⟨line', column'⟩ := q
  rw [le_iff] at h
  rw [before_iff] at h'
  rw [mk.injEq]
  simp only at h h'
  omega

/-- What is merged from two spans starts where the first of their tokens stands. -/
theorem Span.merge_start_eq {a b : Span} {u : Token} (ha : a.start = t.pos) (hb : b.start = u.pos)
    (horder : InOrder (t :: us)) (hu : u ∈ us) : (a.merge b).start = t.pos := by
  have hle : t.pos ≤ u.pos := (List.rel_of_pairwise_cons horder hu).1
  rw [merge_start, ha, hb]
  split
  · rfl
  · next hbefore => exact Position.eq_of_le_of_not_before hle hbefore

theorem InOrder.of_cons (h : InOrder (t :: us)) : InOrder us :=
  List.Pairwise.of_cons h

theorem Expr.Read.start : ∀ {e : Expr} {us : List Token}, e.Read file us → InOrder us →
    ∃ t vs span, us = t :: vs ∧ e.span? = some span ∧ span.start = t.pos
  | _, _, .int _ t, _ | _, _, .float _ t, _ | _, _, .string t, _ | _, _, .bool _ t, _
  | _, _, .name t, _ => ⟨t, [], t.span file, rfl, rfl, rfl⟩
  | _, _, .binary hleft _ hright, horder => by
    obtain ⟨hus, hvs⟩ := horder.of_append
    obtain ⟨t, us, a, rfl, ha, hstart⟩ := hleft.start hus
    obtain ⟨u, vs, b, rfl, hb, hstart'⟩ := hright.start hvs
    refine ⟨t, us ++ u :: vs, a.merge b, rfl, by rw [Expr.span?, ha, hb]; rfl, ?_⟩
    exact Span.merge_start_eq hstart hstart' horder (by simp)
  | _, _, .unary op hoperand, horder => by
    obtain ⟨u, us, a, rfl, ha, hstart⟩ := hoperand.start horder.of_cons
    refine ⟨op, u :: us, (op.span file).merge a, rfl, by rw [Expr.span?, ha]; rfl, ?_⟩
    exact Span.merge_start_eq rfl hstart horder (by simp)
  | _, _, .call hcallee _ _ closing, horder => by
    obtain ⟨t, us, a, rfl, ha, hstart⟩ := hcallee.start horder.of_append.1.of_append.1
    refine ⟨t, _, a.merge (closing.span file), rfl, by rw [Expr.span?, ha]; rfl, ?_⟩
    exact Span.merge_start_eq hstart rfl horder (by simp)
  | _, _, .field hfirst last, horder | _, _, .propagate hfirst last, horder => by
    obtain ⟨t, us, a, rfl, ha, hstart⟩ := hfirst.start horder.of_append.1
    refine ⟨t, us ++ [last], a.merge (last.span file), rfl, by rw [Expr.span?, ha]; rfl, ?_⟩
    exact Span.merge_start_eq hstart rfl horder (by simp)
  | _, _, .list opening _ closing, horder =>
    ⟨opening, _, (opening.span file).merge (closing.span file), rfl, rfl,
      Span.merge_start_eq rfl rfl horder (by simp)⟩
  | _, _, .matching keyword _ _, _ => ⟨keyword, _, keyword.span Span.unknownFile, rfl, rfl, rfl⟩

/-- If the tokens are in order, the look-ups stand at the places of some of them, in their order. -/
def AtTokens (ls : List Lookup) (us : List Token) : Prop :=
  InOrder us → (ls.map Lookup.pos).Sublist (us.map Token.pos)

namespace AtTokens

variable {ls ms : List Lookup} {us vs : List Token}

theorem nil (us : List Token) : AtTokens [] us := fun _ => List.nil_sublist _

theorem append (h : AtTokens ls us) (h' : AtTokens ms vs) : AtTokens (ls ++ ms) (us ++ vs) := by
  intro horder
  obtain ⟨hus, hvs⟩ := horder.of_append
  rw [List.map_append, List.map_append]
  exact (h hus).append (h' hvs)

theorem skip (t : Token) (h : AtTokens ls us) : AtTokens ls (t :: us) :=
  fun horder => (h horder.of_cons).cons t.pos

theorem skipLast (t : Token) (h : AtTokens ls us) : AtTokens ls (us ++ [t]) := by
  have hlast := h.append (.nil [t])
  rwa [List.append_nil] at hlast

theorem here (hpos : InOrder (t :: us) → l.pos = t.pos) (h : AtTokens ls us) :
    AtTokens (l :: ls) (t :: us) := by
  intro horder
  rw [List.map_cons, List.map_cons, hpos horder]
  exact (h horder.of_cons).cons_cons t.pos

end AtTokens

/-- A called name stands where the call starts. -/
theorem AtTokens.call {callee : Expr} {args : List Expr} {vs : List Token}
    (opening closing : Token) (hread : callee.Read file us)
    (hcallee : AtTokens (callee.lookups Γ) us) (hargs : AtTokens (exprsLookups Γ args) vs) :
    AtTokens ((Expr.call callee args (some
      ((callee.span?.getD (opening.span file)).merge (closing.span file)))).lookups Γ)
      (us ++ vs ++ [closing]) := by
  cases callee with
  | name name span? =>
    cases hread with | name t =>
    refine .here (fun horder => ?_) (hargs.skipLast closing)
    exact Span.merge_start_eq rfl rfl horder (by simp)
  | _ =>
    simp only [Expr.lookups] at hcallee ⊢
    exact (hcallee.append hargs).skipLast closing

mutual

theorem Expr.Read.atTokens (Γ : Names) : ∀ {e : Expr} {us : List Token}, e.Read file us →
    AtTokens (e.lookups Γ) us
  | _, _, .int .. | _, _, .float .. | _, _, .string .. | _, _, .bool .. => .nil _
  | _, _, .name _ => .here (fun _ => rfl) (.nil [])
  | _, _, .binary hleft _ hright => (hleft.atTokens Γ).append (hright.atTokens Γ)
  | _, _, .unary op hoperand => (hoperand.atTokens Γ).skip op
  | _, _, .call hcallee opening hargs closing =>
    .call opening closing hcallee (hcallee.atTokens Γ) (exprs_atTokens Γ hargs)
  | _, _, .field hobject word => (hobject.atTokens Γ).skipLast word
  | _, _, .propagate hoperand mark => (hoperand.atTokens Γ).skipLast mark
  | _, _, .list opening helements closing =>
    ((exprs_atTokens Γ helements).skipLast closing).skip opening
  | _, _, .matching keyword hsubject harms =>
    ((hsubject.atTokens Γ).append (arms_atTokens Γ harms)).skip keyword

theorem exprs_atTokens (Γ : Names) : ∀ {es : List Expr} {us : List Token},
    Parts (Expr.Read file) es us → AtTokens (exprsLookups Γ es) us
  | _, _, .nil => .nil _
  | _, _, .cons hfirst hmore => (hfirst.atTokens Γ).append (exprs_atTokens Γ hmore)

theorem arms_atTokens (Γ : Names) : ∀ {arms : List Arm} {us : List Token},
    Parts (Arm.Read file) arms us → AtTokens (armsLookups Γ arms) us
  | _, _, .nil => .nil _
  | _, _, .cons (.mk word _ hbody) hmore =>
    ((hbody.atTokens _).skip word).append (arms_atTokens Γ hmore)

end

/-- The look-ups of a statement stand at its tokens, however it is used and whatever is declared
before it. -/
def Stmt.AtTokens (s : Stmt) (us : List Token) : Prop :=
  ∀ use Γ, Owl.AtTokens (s.lookups use Γ) us

theorem AtTokens.stmts {ss : List Stmt} (h : Parts Stmt.AtTokens ss us) (use : Use) (Γ : Names) :
    AtTokens (stmtsLookups use Γ ss) us := by
  induction h generalizing Γ with
  | nil => exact .nil _
  | cons hfirst _ ih =>
    exact (hfirst use Γ).append (ih _)

theorem AtTokens.branch {ss : List Stmt} (h : Parts Stmt.AtTokens ss us) (use : Use)
    (seen : List String) (Γ : Names) : AtTokens (branchLookups use seen Γ ss) us := by
  induction h generalizing Γ with
  | nil => exact .nil _
  | cons hfirst hmore ih =>
    cases hmore with
    | nil =>
      rw [branchLookups, List.append_nil]
      exact hfirst use _
    | cons =>
      rw [branchLookups]
      · exact (hfirst .effect Γ).append (ih _)
      · simp

mutual

theorem Stmt.Read.atTokens : ∀ {s : Stmt} {us : List Token}, s.Read file us → s.AtTokens us
  | _, _, .letVar keyword word _ _ hvalue =>
    fun _ Γ => ((hvalue.atTokens Γ).skip word).skip keyword
  | _, _, .assign word hvalue => by
    intro use Γ
    refine .here (fun horder => ?_) (hvalue.atTokens Γ)
    obtain ⟨u, us, a, rfl, ha, hstart⟩ := hvalue.start horder.of_cons
    rw [ha]
    exact Span.merge_start_eq rfl hstart horder (by simp)
  | _, _, .expr he => fun _ Γ => he.atTokens Γ
  | _, _, .ret _ | _, _, .breakLoop _ | _, _, .continueLoop _ => fun _ _ => .nil _
  | _, _, .retValue keyword hvalue => fun _ Γ => (hvalue.atTokens Γ).skip keyword
  | _, _, .whileLoop keyword hcondition hbody =>
    fun _ Γ => ((hcondition.atTokens Γ).append (.stmts (parts_atTokens hbody) _ Γ)).skip keyword
  | _, _, .forLoop keyword item hcollection hbody => fun _ Γ =>
    (((hcollection.atTokens Γ).append (.stmts (parts_atTokens hbody) _ _)).skip item).skip keyword
  | _, _, .loop keyword hbody => fun _ Γ => (AtTokens.stmts (parts_atTokens hbody) _ Γ).skip keyword
  | _, _, .ifThen keyword hcondition hthen => fun use Γ =>
    ((hcondition.atTokens Γ).append (.branch (parts_atTokens hthen) use _ Γ)).skip keyword
  | _, _, .ifElse keyword hcondition hthen helse => fun use Γ =>
    ((hcondition.atTokens Γ).append ((AtTokens.branch (parts_atTokens hthen) use _ Γ).append
      (.branch (parts_atTokens helse) use _ Γ))).skip keyword

theorem parts_atTokens : ∀ {ss : List Stmt} {us : List Token}, Parts (Stmt.Read file) ss us →
    Parts Stmt.AtTokens ss us
  | _, _, .nil => .nil
  | _, _, .cons hfirst hmore => .cons hfirst.atTokens (parts_atTokens hmore)

end

theorem FnDecl.Read.atTokens (Γ : Names) {fn : FnDecl} (h : fn.Read file us) :
    AtTokens (fn.lookups Γ) us := by
  cases h with | mk keyword word _ _ hbody =>
  exact ((AtTokens.stmts (parts_atTokens hbody) _ _).skip word).skip keyword

theorem AtTokens.coe_le {ls : List Lookup} (h : AtTokens ls us) (horder : InOrder us) :
    (ls.map Lookup.pos : Multiset Position) ≤ us.map Token.pos :=
  Multiset.coe_le.mpr (h horder).subperm

/-- The functions and the statements of a program take their places from the same tokens, each from
those of its own item. -/
theorem Reading.lookups_le (r : Reading) (h : Parts (Item.Read file) r.items us)
    (horder : InOrder us) (Γ Δ : Names) :
    (((r.program.functions.flatMap (FnDecl.lookups Γ) ++
      stmtsLookups .effect Δ r.program.statements).map Lookup.pos : List Position) :
        Multiset Position) ≤ us.map Token.pos := by
  obtain ⟨items, stop?, rest⟩ := r
  change Parts (Item.Read file) items us at h
  -- A program keeps its functions in front of its statements, so the look-ups are not in the order
  -- of the tokens and are compared as multisets.
  induction h generalizing Δ with
  | nil => exact Multiset.zero_le _
  | @cons i items us vs hfirst _ ih =>
    obtain ⟨hus, hvs⟩ := horder.of_append
    have hmore := ih hvs
    simp only [List.map_append, ← Multiset.coe_add] at hmore ⊢
    cases hfirst with
    | importing hi => exact (hmore Δ).trans (Multiset.le_add_left _ _)
    | @function fn us hfn =>
      have hplaces := add_le_add ((hfn.atTokens Γ).coe_le hus) (hmore Δ)
      rw [← add_assoc, Multiset.coe_add, ← List.map_append] at hplaces
      exact hplaces
    | @stmt s us hs =>
      have hplaces := add_le_add ((hs.atTokens .effect Δ).coe_le hus) (hmore (Δ.declare s.bound))
      simp only [Reading.program, List.filterMap_cons, stmtsLookups, List.map_append,
        ← Multiset.coe_add] at hplaces ⊢
      rwa [add_left_comm] at hplaces

/-- **No two names of a text are looked up at the same place.** -/
theorem lookups_nodup {source : String} (h : readProgram file source = .ok p) :
    (p.lookups.map Lookup.pos).Nodup := by
  obtain ⟨tokens, htokens, hparse⟩ := of_readProgram_eq_ok h
  obtain ⟨us, hus, hitems, rfl⟩ := parse_read hparse
  have hnodup : (us.map Token.pos).Nodup := (positions_nodup htokens).sublist (hus.map _)
  have horder := (tokens_inOrder htokens).sublist hus
  exact Multiset.coe_nodup.mp
    (Multiset.nodup_of_le (Reading.lookups_le _ hitems horder _ _) (Multiset.coe_nodup.mpr hnodup))

end Places

/-! ### What the check knows -/

def Checker.Knows (c : Checker) (name : String) : Prop := (c.env.var? name).isSome = true

theorem Table.isSome_get?_of_mem {α : Type} {t : Table α} {key : String} (h : key ∈ t.keys) :
    (t.get? key).isSome = true := by
  induction t with
  | nil => cases h
  | cons row t ih =>
    obtain ⟨k, a⟩ := row
    rw [get?]
    split
    · rfl
    · next hk =>
      rcases List.mem_cons.mp h with rfl | h
      · exact absurd (beq_self_eq_true _) hk
      · exact ih h

theorem Checker.knows_iff :
    c.Knows name ↔ name ∈ c.env.scope.vars.keys ∨
      ∃ keys ∈ c.env.outer.map (·.vars.keys), name ∈ keys := by
  have hkeys : ∀ s : Scope, (s.vars.get? name).isSome = true ↔ name ∈ s.vars.keys :=
    fun s => ⟨Table.mem_keys, Table.isSome_get?_of_mem⟩
  rw [Knows, Env.var?, List.findSome?_isSome_iff]
  simp [Env.scopes, hkeys]

theorem Checker.Kept.knows {d : Checker} (h : Kept c d) (hc : c.Knows name) : d.Knows name := by
  have houter : d.env.outer.map (·.vars.keys) = c.env.outer.map (·.vars.keys) :=
    TouchedScopes.map_eq (fun hscope => keys_of_touched hscope.vars) h.env.outer
  rw [knows_iff, houter]
  exact (knows_iff.mp hc).imp_left fun hscope => h.env.scope.vars.subset hscope

theorem Checker.knows_push (h : c.Knows name) :
    Checker.Knows { c with env := c.env.push } name := by
  rw [knows_iff] at h ⊢
  refine .inr ?_
  simpa [Env.push, Env.scopes] using h

theorem Checker.knows_of_defineVar {env : Env} {v : Variable} (h : c.env = env.defineVar name v) :
    c.Knows name := by
  refine knows_iff.mpr (.inl (Table.mem_keys ?_))
  simp [h, Env.defineVar, Table.get?_put]

def Names.KnownIn (Γ : Names) (c : Checker) : Prop := ∀ name ∈ Γ.seen, c.Knows name

theorem Names.KnownIn.declare {names : List String} (h : Γ.KnownIn c)
    (hnames : ∀ name ∈ names, c.Knows name) : (Γ.declare names).KnownIn c := by
  intro name hname
  rcases List.mem_append.mp hname with hname | hname
  · exact hnames name hname
  · exact h name hname

theorem letRule_knows (name : String) (value : Ty) (type? : Option TypeExpr) (isMutable : Bool)
    (span? : Option Span) (c : Checker) :
    (letRule name value type? isMutable span? c).2.Knows name := by
  cases type? with
  | none => exact knows_of_defineVar rfl
  | some written =>
    have hdefined : ∀ expected d, ((do
        unless Ty.compatible expected value do
          report (.typeMismatch expected.text value.text none) (span?.getD .dummy)
        defineVar name { type := expected, span?, isMutable } : CheckM Unit) d).2.Knows name := by
      intro expected d
      split
      · exact knows_of_defineVar rfl
      · exact knows_of_defineVar rfl
    exact hdefined _ _

/-- A declaration makes its name known. -/
theorem checkStmt_knows (use : Use) (s : Stmt) (c : Checker) :
    ∀ name ∈ s.bound, (checkStmt use s c).2.Knows name := by
  cases s with
  | letVar name value type? isMutable span? =>
    intro bound hbound
    obtain rfl := List.mem_singleton.mp hbound
    exact letRule_knows _ _ _ _ _ _
  | _ => exact List.forall_mem_nil _

theorem checkBodyStmt_knows (isLast : Bool) (s : Stmt) (c : Checker) :
    ∀ name ∈ s.bound, (checkBodyStmt isLast s c).2.Knows name := by
  cases s with
  | letVar => exact checkStmt_knows .value _ c
  | _ => exact List.forall_mem_nil _

theorem armState_knows {subject : Ty} {pattern : Pattern}
    (hfits : (expectedPatterns subject).contains pattern.name = true) (c : Checker) :
    ∀ name ∈ pattern.bindings, (armState subject pattern c).Knows name := by
  rw [← patternBinding?_name hfits, armState]
  cases patternBinding? subject pattern with
  | none => exact List.forall_mem_nil _
  | some binding =>
    obtain ⟨binding, type⟩ := binding
    intro name hname
    obtain rfl := List.mem_singleton.mp hname
    exact knows_of_defineVar rfl

/-! ### Steps -/

theorem branchLookups_effect (seen : List String) (Γ : Names) (ss : List Stmt) :
    branchLookups .effect seen Γ ss = stmtsLookups .effect Γ ss := by
  induction ss generalizing Γ with
  | nil => rw [branchLookups, stmtsLookups]
  | cons s rest ih =>
    cases rest with
    | nil => simp [branchLookups, stmtsLookups]
    | cons s' rest => simp only [branchLookups, ih, stmtsLookups]

theorem init_subset_branchLookups (seen : List String) (Γ : Names) (ss : List Stmt) :
    stmtsLookups .effect Γ ss.dropLast ⊆ branchLookups .value seen Γ ss := by
  induction ss generalizing Γ with
  | nil => exact List.nil_subset _
  | cons s rest ih =>
    cases rest with
    | nil => exact List.nil_subset _
    | cons s' rest =>
      exact List.append_subset.mpr ⟨List.subset_append_left _ _,
        List.Subset.trans (ih _) (List.subset_append_right _ _)⟩

/-- What is looked up in the last statement of a branch is looked up with the names that were seen
before the branch. -/
theorem last_subset_branchLookups (seen : List String) (Γ : Names) (ss : List Stmt) :
    ∃ declared, stmtsLookups .value ⟨declared, seen⟩ ss.getLast?.toList ⊆
      branchLookups .value seen Γ ss := by
  induction ss generalizing Γ with
  | nil => exact ⟨[], List.nil_subset _⟩
  | cons s rest ih =>
    cases rest with
    | nil => exact ⟨Γ.declared, by simp [stmtsLookups, branchLookups]⟩
    | cons s' rest =>
      obtain ⟨declared, hlast⟩ := ih (Γ.declare s.bound)
      exact ⟨declared, List.Subset.trans hlast (List.subset_append_right _ _)⟩

theorem Stmt.mem_lookups_ifElse {use : Use} {condition : Expr} {thenBody : List Stmt}
    {elseBody? : Option (List Stmt)} {span? : Option Span} :
    l ∈ (Stmt.ifElse condition thenBody elseBody? span?).lookups use Γ ↔
      l ∈ condition.lookups Γ ∨ l ∈ branchLookups use Γ.seen Γ thenBody ∨
        ∃ elseBody ∈ elseBody?, l ∈ branchLookups use Γ.seen Γ elseBody := by
  cases elseBody? <;> simp [lookups]

def Fragment.lookups (Γ : Names) : Fragment → List Lookup
  | expr e => e.lookups Γ
  | exprs es => exprsLookups Γ es
  | arms _ choices => armsLookups Γ choices
  | stmt use s => s.lookups use Γ
  | stmts ss => stmtsLookups .effect Γ ss
  | last ss => stmtsLookups .value Γ ss.getLast?.toList
  | init ss => stmtsLookups .effect Γ ss.dropLast
  | body _ ss => stmtsLookups .value Γ ss

namespace Fragment.Step

variable {x y : Fragment × Checker}

theorem knows (h : Step x y) (hx : x.2.Knows name) : y.2.Knows name := by
  have hdefine : ∀ {c : Checker} (other : String) (v : Variable), c.Knows name →
      Checker.Knows { c with env := c.env.push.defineVar other v } name := by
    intro c other v hc
    have hkept : Kept { c with env := c.env.push }
        { c with env := c.env.push.defineVar other v } := ⟨.defineVar _ _ _, rfl⟩
    exact hkept.knows (knows_push hc)
  exact h.state (S := fun c d => c.Knows name → d.Knows name) kept_account
    (fun hkept => hkept.knows) (fun hkept hc => knows_push (hkept.knows hc))
    (fun other v hkept hc => hdefine other v (hkept.knows hc)) (fun _ _ _ hkept => hkept.knows)
    (fun _ _ _ other v hkept hc => hdefine other v (hkept.knows hc)) hx

/-- The look-ups of the next fragment are look-ups of the fragment, and what the check has seen
before them is known. -/
theorem lookups (h : Step x y) (hΓ : Γ.KnownIn x.2) :
    ∃ Δ : Names, Δ.KnownIn y.2 ∧ y.1.lookups Δ ⊆ x.1.lookups Γ := by
  have hknown : Γ.KnownIn y.2 := fun name hname => h.knows (hΓ name hname)
  -- Only behind a declaration is more known than before.
  cases h with
  | firstArm hfits =>
    refine ⟨_, hknown.declare (armState_knows hfits _), ?_⟩
    simp [Fragment.lookups, armsLookups]
  | @forBody use item collection body span? c element d hd =>
    refine ⟨Γ.declare [item], hknown.declare ?_, ?_⟩
    · intro name hname
      obtain rfl := List.mem_singleton.mp hname
      exact knows_of_defineVar rfl
    · simp [Fragment.lookups, Stmt.lookups]
  | restStmts | restInit =>
    refine ⟨_, hknown.declare (checkStmt_knows _ _ _), ?_⟩
    simp [Fragment.lookups, stmtsLookups]
  | @restOfBody returned s s' rest c d type returns hd =>
    have hbound := checkBodyStmt_knows false s (bodyState returned s c)
    rw [hd] at hbound
    refine ⟨_, hknown.declare hbound, ?_⟩
    simp [Fragment.lookups, stmtsLookups]
  | thenLast =>
    obtain ⟨declared, hlast⟩ := last_subset_branchLookups Γ.seen Γ _
    exact ⟨⟨declared, Γ.seen⟩, hknown, fun l hl =>
      Stmt.mem_lookups_ifElse.mpr (.inr (.inl (hlast hl)))⟩
  | elseLast =>
    obtain ⟨declared, hlast⟩ := last_subset_branchLookups Γ.seen Γ _
    refine ⟨⟨declared, Γ.seen⟩, hknown, fun l hl => ?_⟩
    rw [Fragment.lookups, Stmt.mem_lookups_ifElse]
    exact .inr (.inr ⟨_, rfl, hlast hl⟩)
  | thenInit =>
    exact ⟨Γ, hknown, fun l hl => Stmt.mem_lookups_ifElse.mpr
      (.inr (.inl (init_subset_branchLookups _ Γ _ hl)))⟩
  | elseInit =>
    refine ⟨Γ, hknown, fun l hl => ?_⟩
    rw [Fragment.lookups, Stmt.mem_lookups_ifElse]
    exact .inr (.inr ⟨_, rfl, init_subset_branchLookups _ Γ _ hl⟩)
  | thenBody =>
    refine ⟨Γ, hknown, fun l hl => Stmt.mem_lookups_ifElse.mpr (.inr (.inl ?_))⟩
    rwa [branchLookups_effect]
  | elseBody =>
    refine ⟨Γ, hknown, fun l hl => ?_⟩
    rw [Fragment.lookups, Stmt.mem_lookups_ifElse, branchLookups_effect]
    refine .inr (.inr ⟨_, rfl, ?_⟩)
    rwa [branchLookups_effect]
  | condition => exact ⟨Γ, hknown, fun l hl => Stmt.mem_lookups_ifElse.mpr (.inl hl)⟩
  | @computedArgs callee args span? c hcallee =>
    refine ⟨Γ, hknown, ?_⟩
    cases callee with
    | name | field => cases hcallee
    | _ => simp [Fragment.lookups, Expr.lookups]
  | restLast =>
    refine ⟨Γ, hknown, ?_⟩
    exact List.Subset.refl _
  | _ =>
    refine ⟨Γ, hknown, ?_⟩
    simp [Fragment.lookups, Expr.lookups, exprsLookups, armsLookups, Stmt.lookups, stmtsLookups]

end Fragment.Step

/-! ### Programs -/

/-- What is declared for each of some values is known behind all of them. -/
theorem forM_knows {α : Type} {f : α → CheckM Unit} (key : α → String)
    (hkept : ∀ a, Costs (fun _ => Kept) 0 (f a)) (hf : ∀ a c, (f a c).2.Knows (key a))
    (as : List α) (c : Checker) : ∀ name ∈ as.map key, (as.forM f c).2.Knows name := by
  induction as generalizing c with
  | nil => exact List.forall_mem_nil _
  | cons a as ih =>
    refine List.forall_mem_cons.mpr ⟨?_, ih _⟩
    have hrest : Kept (f a c).2 _ := Costs.forM kept_account hkept as _
    exact hrest.knows (hf a c)

theorem defineParam_knows (param : Param) (c : Checker) :
    (defineParam param c).2.Knows param.name := by
  rw [defineParam]
  cases param.type? with
  | none => exact knows_of_defineVar rfl
  | some written => exact knows_of_defineVar rfl

theorem functionState_knows (h : Γ.KnownIn c) (fn : FnDecl) :
    (Γ.declare (fn.params.map Param.name)).KnownIn (functionState fn c) := by
  have hR := kept_account
  have hparams : Kept { c with env := c.env.push }
      (fn.params.forM defineParam { c with env := c.env.push }).2 :=
    Costs.forM hR (defineParam_costs hR) fn.params _
  refine Names.KnownIn.declare (fun name hname => ?_) ?_
  · exact hparams.knows (knows_push (h name hname))
  · exact forM_knows Param.name (defineParam_costs hR) defineParam_knows fn.params _

theorem functionStarts_lookups {fns : List FnDecl} (h : Γ.KnownIn c) :
    ∀ start ∈ functionStarts fns c, ∃ Δ : Names, Δ.KnownIn start.2 ∧
      start.1.lookups Δ ⊆ fns.flatMap (FnDecl.lookups Γ) := by
  induction fns generalizing c with
  | nil => exact List.forall_mem_nil _
  | cons fn fns ih =>
    have hkept : Kept c _ := checkFunction_costs kept_account (fun _ _ => ⟨.refl _, rfl⟩) fn c
    have hrest : Γ.KnownIn (checkFunction fn c).2 := fun name hname => hkept.knows (h name hname)
    refine List.forall_mem_cons.mpr ⟨⟨_, functionState_knows h fn, ?_⟩, fun start hstart => ?_⟩
    · exact List.subset_append_left _ _
    · obtain ⟨Δ, hΔ, hsubset⟩ := ih hrest start hstart
      exact ⟨Δ, hΔ, List.Subset.trans hsubset (List.subset_append_right _ _)⟩

theorem Program.imported_known (p : Program) : p.imported.KnownIn p.root := by
  have hknown := forM_knows id
    (fun name => defineVar_costs kept_account name { type := .any })
    (fun name c => knows_of_defineVar rfl) (p.imports.flatMap Import.bound)
    (p.functions.forM declare new).2
  rwa [List.map_id] at hknown

theorem starts_lookups (p : Program) : ∀ start ∈ p.starts,
    ∃ Δ : Names, Δ.KnownIn start.2 ∧ start.1.lookups Δ ⊆ p.lookups := by
  intro start hstart
  rcases List.mem_append.mp hstart with hstart | hstart
  · obtain ⟨Δ, hΔ, hsubset⟩ := functionStarts_lookups p.imported_known start hstart
    exact ⟨Δ, hΔ, List.Subset.trans hsubset (List.subset_append_left _ _)⟩
  · obtain rfl := List.mem_singleton.mp hstart
    have hkept : Kept p.root _ :=
      checkFunctions_costs kept_account (fun _ _ => ⟨.refl _, rfl⟩) p.functions p.root
    exact ⟨p.imported, fun name hname => hkept.knows (p.imported_known name hname),
      List.subset_append_right _ _⟩

/-- Wherever the check is, the look-ups there are look-ups of the program, and the check knows the
names that it has seen before them. -/
theorem Program.Reaches.lookups {x : Fragment} (h : p.Reaches x c) :
    ∃ Γ : Names, Γ.KnownIn c ∧ x.lookups Γ ⊆ p.lookups := by
  refine h.invariant (P := fun y => ∃ Γ : Names, Γ.KnownIn y.2 ∧ y.1.lookups Γ ⊆ p.lookups)
    (starts_lookups p) ?_
  rintro x y hstep ⟨Γ, hΓ, hx⟩
  obtain ⟨Δ, hΔ, hy⟩ := hstep.lookups hΓ
  exact ⟨Δ, hΔ, List.Subset.trans hy hx⟩

/-! ### Blocks in order -/

def Names.Even (Γ : Names) : Prop := Γ.declared = Γ.seen

theorem Names.Even.declare (h : Γ.Even) (names : List String) : (Γ.declare names).Even :=
  congrArg (names ++ ·) h

mutual

theorem Expr.lookups_even : (e : Expr) → ∀ {Γ : Names}, Γ.Even → ∀ l ∈ e.lookups Γ, l.around.Even
  | .int .. | .float .. | .string .. | .bool .. | .stmt _ | .unknown =>
    fun _ => List.forall_mem_nil _
  | .name .. => fun hΓ => List.forall_mem_cons.mpr ⟨hΓ, List.forall_mem_nil _⟩
  | .binary left _ right _ =>
    fun hΓ => List.forall_mem_append.mpr ⟨left.lookups_even hΓ, right.lookups_even hΓ⟩
  | .unary _ operand _ | .propagate operand _ => operand.lookups_even
  | .field object _ _ => object.lookups_even
  | .call callee args _ => by
    intro hΓ
    have hcallee := callee.lookups_even hΓ
    have hargs := exprsLookups_even args hΓ
    cases callee with
    | name name span? => exact List.forall_mem_cons.mpr ⟨hΓ, hargs⟩
    | _ => exact List.forall_mem_append.mpr ⟨hcallee, hargs⟩
  | .list elements _ => exprsLookups_even elements
  | .matching subject arms _ =>
    fun hΓ => List.forall_mem_append.mpr ⟨subject.lookups_even hΓ, armsLookups_even arms hΓ⟩

theorem exprsLookups_even : (es : List Expr) → ∀ {Γ : Names}, Γ.Even →
    ∀ l ∈ exprsLookups Γ es, l.around.Even
  | [] => fun _ => List.forall_mem_nil _
  | e :: es => fun hΓ => List.forall_mem_append.mpr ⟨e.lookups_even hΓ, exprsLookups_even es hΓ⟩

theorem armsLookups_even : (arms : List Arm) → ∀ {Γ : Names}, Γ.Even →
    ∀ l ∈ armsLookups Γ arms, l.around.Even
  | [] => fun _ => List.forall_mem_nil _
  | ⟨_, body, _⟩ :: arms => fun hΓ =>
    List.forall_mem_append.mpr ⟨body.lookups_even (hΓ.declare _), armsLookups_even arms hΓ⟩

end

mutual

/-- Where no value is asked for, the check sees declarations in their order. -/
theorem Stmt.lookups_even : (s : Stmt) → ∀ {Γ : Names}, Γ.Even →
    ∀ l ∈ s.lookups .effect Γ, l.around.Even
  | .letVar _ value _ _ _ => value.lookups_even
  | .assign _ value _ => fun hΓ => List.forall_mem_cons.mpr ⟨hΓ, value.lookups_even hΓ⟩
  | .expr e _ => e.lookups_even
  | .ret none _ | .breakLoop _ | .continueLoop _ | .fn _ | .bare _ | .unknown =>
    fun _ => List.forall_mem_nil _
  | .ret (some value) _ => value.lookups_even
  | .whileLoop condition body _ => fun hΓ =>
    List.forall_mem_append.mpr ⟨condition.lookups_even hΓ, stmtsLookups_even body hΓ⟩
  | .forLoop _ collection body _ => fun hΓ =>
    List.forall_mem_append.mpr ⟨collection.lookups_even hΓ, stmtsLookups_even body (hΓ.declare _)⟩
  | .loop body _ => stmtsLookups_even body
  | .ifElse condition thenBody none _ => by
    intro hΓ
    rw [Stmt.lookups, branchLookups_effect]
    exact List.forall_mem_append.mpr ⟨condition.lookups_even hΓ, stmtsLookups_even thenBody hΓ⟩
  | .ifElse condition thenBody (some elseBody) _ => by
    intro hΓ
    rw [Stmt.lookups, branchLookups_effect, branchLookups_effect]
    exact List.forall_mem_append.mpr ⟨condition.lookups_even hΓ,
      List.forall_mem_append.mpr ⟨stmtsLookups_even thenBody hΓ, stmtsLookups_even elseBody hΓ⟩⟩

theorem stmtsLookups_even : (ss : List Stmt) → ∀ {Γ : Names}, Γ.Even →
    ∀ l ∈ stmtsLookups .effect Γ ss, l.around.Even
  | [] => fun _ => List.forall_mem_nil _
  | s :: rest => fun hΓ =>
    List.forall_mem_append.mpr ⟨s.lookups_even hΓ, stmtsLookups_even rest (hΓ.declare _)⟩

end

/-! ### Declared names -/

theorem Fragment.fault?_eq_undefined {x : Fragment} {pos : Position}
    (h : x.fault? c = some ("E0302", pos)) (Γ : Names) :
    ∃ l ∈ x.lookups Γ, l.pos = pos ∧ l.around = Γ ∧ ¬ c.Knows l.name := by
  rw [fault?.eq_def] at h
  split at h
  · next name span? =>
    obtain ⟨hundefined, heq⟩ := Option.ite_none_right_eq_some.mp h
    cases heq
    refine ⟨⟨name, none, span?, Γ⟩, ?_, rfl, rfl, ?_⟩
    · simp [Fragment.lookups, Expr.lookups]
    · simpa [Checker.Knows] using (Bool.and_eq_true_iff.mp hundefined).2
  · simp at h
  · next name value span? =>
    obtain ⟨hundefined, heq⟩ := Option.ite_none_right_eq_some.mp h
    cases heq
    refine ⟨⟨name, none, span?, Γ⟩, ?_, rfl, rfl, ?_⟩
    · simp [Fragment.lookups, Stmt.lookups]
    · simpa [Checker.Knows] using hundefined
  · simp at h
  · simp at h
  · cases h

theorem not_finds_of_seen {file source : String} (h : readProgram file source = .ok p)
    (hl : l ∈ p.lookups) (hseen : l.name ∈ l.around.seen) :
    ¬ (Checker.new.check p).Finds "E0302" l.pos := by
  intro hfound
  obtain ⟨tokens, -, hparse⟩ := of_readProgram_eq_ok h
  obtain ⟨x, c, hreach, hfault⟩ :=
    (check_finds_iff (Program.read_of_parse hparse) (by simp)).mp hfound
  obtain ⟨Γ, hΓ, hsubset⟩ := hreach.lookups
  obtain ⟨l', hl', hpos, rfl, hunknown⟩ := Fragment.fault?_eq_undefined hfault Γ
  -- There is only one look-up at the place.
  obtain rfl := List.inj_on_of_nodup_map (lookups_nodup h) (hsubset hl') hl hpos
  exact hunknown (hΓ _ hseen)

/-- **What was seen is not undefined.**  A name that is declared before its use, in the same block
or in one around it, is not reported as undefined if the check comes to the declaration first.
Outside of functions it always does. -/
theorem check_seen {file source : String} {p : Program} (h : readProgram file source = .ok p) :
    (∀ l ∈ p.lookups, l.name ∈ l.around.seen → ¬ (Checker.new.check p).Finds "E0302" l.pos) ∧
    ∀ l ∈ stmtsLookups .effect p.imported p.statements, l.name ∈ l.around.declared →
      ¬ (Checker.new.check p).Finds "E0302" l.pos := by
  refine ⟨fun l hl => not_finds_of_seen h hl, fun l hl hdeclared => ?_⟩
  have hin : l ∈ p.lookups := List.mem_append_right _ hl
  have himported : p.imported.Even := rfl
  have heven : l.around.Even := stmtsLookups_even p.statements himported l hl
  exact not_finds_of_seen h hin (heven ▸ hdeclared)

/-- A parameter and a variable that are used behind their declarations in a branch of a function,
and a variable that is used outside of functions. -/
theorem check_seen_branch :
    ∃ p, readProgram "" ("fn f(c) \x7b if c \x7b let x = 1\nprint(x)\nreturn c \x7d \x7d\n" ++
        "let y = 2\nprint(y)") = .ok p ∧
      (p.lookups.filter fun l => l.around.seen.contains l.name).map (fun l => (l.name, l.pos)) =
        [("c", ⟨1, 14⟩), ("x", ⟨2, 7⟩), ("c", ⟨3, 8⟩), ("y", ⟨5, 7⟩)] ∧
      (∀ l ∈ p.lookups, l.name ∈ l.around.seen →
        ¬ (Checker.new.check p).Finds "E0302" l.pos) ∧
      ∀ l ∈ stmtsLookups .effect p.imported p.statements, l.name ∈ l.around.declared →
        ¬ (Checker.new.check p).Finds "E0302" l.pos := by
  exact exists_program (P := fun p =>
      (p.lookups.filter fun l => l.around.seen.contains l.name).map (fun l => (l.name, l.pos)) =
        [("c", ⟨1, 14⟩), ("x", ⟨2, 7⟩), ("c", ⟨3, 8⟩), ("y", ⟨5, 7⟩)])
    toList_ofList_append (by decide +kernel) fun p hp hseen => ⟨hseen, check_seen hp⟩

/-- A variable that is declared before its use and is reported as undefined: the use is in the last
statement of a branch, which is checked before the declaration. -/
theorem check_unseen :
    ∃ p, readProgram "" "fn f(c) \x7b if c \x7b let x = 1 print(x) \x7d \x7d" = .ok p ∧
      ∃ l ∈ p.lookups, l.name ∈ l.around.declared ∧
        (Checker.new.check p).Finds "E0302" l.pos :=
  exists_program String.toList_ofList (by decide +kernel) fun _ _ h => h

end Owl
