/-
Lexical scope.

A name that is looked up has to be declared before, in a scope that is still open;
one that is assigned has to be declared there as a name that can change.  This
depends on how a program is read.  The two readings differ in the names that are
declared directly in the block of a choice or of a loop without a variable, and
in those that a callee mentions which is left out.  In all other names, a program
that is scoped as it is checked is scoped as it is written.

* `Follows` — events as they are checked and as they are written.
-/
import Owl.Proofs.Scoping.Events

namespace Owl

/-! ### Scoped events -/

def Event.lookup? : Event → Option String
  | use name | call name | assign name => some name
  | enter | leave | declare .. => none

def Event.Holds (known : List String) (Γ : Frames) : Event → Prop
  | use name => (Γ.find? name).isSome = true
  | call name => name ∈ known ∨ (Γ.find? name).isSome = true
  | assign name => Γ.find? name = some true
  | enter | leave | declare .. => True

instance (known : List String) (Γ : Frames) : (e : Event) → Decidable (e.Holds known Γ)
  | .use _ | .assign _ => inferInstanceAs (Decidable (_ = _))
  | .call _ => inferInstanceAs (Decidable (_ ∨ _))
  | .enter | .leave | .declare .. => inferInstanceAs (Decidable True)

/-- All look-ups find what they need, but for some loose names. -/
def Scoped (loose known : List String) (Γ : Frames) : List Event → Prop
  | [] => True
  | e :: es =>
    (e.Holds known Γ ∨ ∃ name ∈ loose, e.lookup? = some name) ∧ Scoped loose known (e.step Γ) es

instance (loose known : List String) : (Γ : Frames) → (es : List Event) →
    Decidable (Scoped loose known Γ es)
  | _, [] => inferInstanceAs (Decidable True)
  | Γ, e :: es =>
    have := instDecidableScoped loose known (e.step Γ) es
    inferInstanceAs (Decidable (_ ∧ _))

theorem Event.holds_of_lookup?_eq_none {known : List String} {Γ : Frames} {e : Event}
    (h : e.lookup? = none) : e.Holds known Γ := by
  cases e with
  | enter | leave | declare => trivial
  | use | call | assign => cases h

/-- If all names are loose, nothing is asked. -/
theorem scoped_of_loose {loose known : List String} {Γ : Frames} {es : List Event}
    (h : ∀ name ∈ es.filterMap Event.lookup?, name ∈ loose) : Scoped loose known Γ es := by
  induction es generalizing Γ with
  | nil => trivial
  | cons e es ih =>
    rw [List.filterMap_cons] at h
    cases hname : e.lookup? with
    | none =>
      rw [hname] at h
      exact ⟨.inl (Event.holds_of_lookup?_eq_none hname), ih h⟩
    | some name =>
      rw [hname] at h
      obtain ⟨hloose, hrest⟩ := List.forall_mem_cons.mp h
      exact ⟨.inr ⟨name, hloose, hname⟩, ih hrest⟩

theorem scoped_append {loose known : List String} {Γ : Frames} {es es' : List Event} :
    Scoped loose known Γ (es ++ es') ↔
      Scoped loose known Γ es ∧ Scoped loose known (after Γ es) es' := by
  induction es generalizing Γ with
  | nil => exact (and_iff_right trivial).symm
  | cons e es ih => rw [List.cons_append, Scoped, Scoped, ih, after_cons, and_assoc]

theorem scoped_bracket {loose known : List String} {Γ : Frames} {es : List Event} :
    Scoped loose known Γ (bracket es) ↔ Scoped loose known ([] :: Γ) es := by
  have henter : (Event.enter.step Γ) = [] :: Γ := by cases Γ <;> rfl
  rw [bracket, Scoped, scoped_append, henter]
  simp [Event.Holds, Scoped]

theorem Frames.find?_declare (Γ : Frames) (name other : String) (isMutable : Bool) :
    ((Event.declare name isMutable).step Γ).find? other =
      if name = other then some isMutable else Γ.find? other := by
  cases Γ with
  | nil => by_cases h : name = other <;> simp [Event.step, find?, Table.get?, h]
  | cons f Γ =>
    simp only [Event.step, find?, List.findSome?_cons, Table.get?_put]
    by_cases h : name = other
    · rw [if_pos h, if_pos h]
    · rw [if_neg h, if_neg h]

/-- Frames in which all names stand for the same but some loose ones. -/
def AgreeBut (loose : List String) (Γ Γ' : Frames) : Prop :=
  ∀ name, name ∉ loose → Γ.find? name = Γ'.find? name

theorem AgreeBut.trans {loose : List String} {Γ Γ' Γ'' : Frames} (h : AgreeBut loose Γ Γ')
    (h' : AgreeBut loose Γ' Γ'') : AgreeBut loose Γ Γ'' :=
  fun name hname => (h name hname).trans (h' name hname)

theorem AgreeBut.holds {loose known : List String} {Γ Γ' : Frames} (h : AgreeBut loose Γ Γ')
    {e : Event} (he : e.Holds known Γ) :
    e.Holds known Γ' ∨ ∃ name ∈ loose, e.lookup? = some name := by
  cases hname : e.lookup? with
  | none => exact .inl (Event.holds_of_lookup?_eq_none hname)
  | some name =>
    by_cases hloose : name ∈ loose
    · exact .inr ⟨name, hloose, rfl⟩
    · left
      have hfind := h name hloose
      cases e with
      | enter | leave | declare => trivial
      | use | call | assign =>
        cases hname
        rw [Event.Holds, ← hfind]
        exact he

/-! ### The two readings -/

/-- Events as they are checked and as they are written.  Those that are checked declare the names of
`D` only, have to do with no name more often, and all look-ups that they hold for hold as they are
written, but for loose names. -/
structure Follows (D : String → Prop) (loose known : List String) (es es' : List Event) : Prop where
  checked : Bracketed true es
  written : Bracketed true es'
  fewer (name : String) : mentions name es ≤ mentions name es'
  quiet {Γ : Frames} {name : String} (hname : ¬ D name) : (after Γ es).find? name = Γ.find? name
  agree {Γ Γ' : Frames} (h : AgreeBut loose Γ Γ') : AgreeBut loose (after Γ es) (after Γ' es')
  holds {Γ Γ' : Frames} (h : AgreeBut loose Γ Γ') (hes : Scoped [] known Γ es) :
    Scoped loose known Γ' es'

namespace Follows

variable {D : String → Prop} {loose known : List String} {es es' fs fs' : List Event}

theorem nil : Follows D loose known [] [] where
  checked := .nil
  written := .nil
  fewer _ := Nat.le_refl _
  quiet _ := rfl
  agree h := h
  holds _ _ := trivial

theorem lookup {e : Event} (he : e.isLookup = true) : Follows D loose known [e] [e] where
  checked := .lookup he .nil
  written := .lookup he .nil
  fewer _ := Nat.le_refl _
  quiet {Γ name} _ := by rw [after_cons, Event.step_of_isLookup he, after_nil]
  agree h := by
    simp only [after_cons, Event.step_of_isLookup he, after_nil]
    exact h
  holds h hes := by
    obtain ⟨he | ⟨_, hnone, _⟩, -⟩ := hes
    · exact ⟨h.holds he, trivial⟩
    · cases hnone

theorem declare {name : String} (hname : D name) (isMutable : Bool) :
    Follows D loose known [.declare name isMutable] [.declare name isMutable] where
  checked := .declare .nil
  written := .declare .nil
  fewer _ := Nat.le_refl _
  quiet {Γ other} hother := by
    rw [after_cons, after_nil, Frames.find?_declare, if_neg]
    rintro rfl
    exact hother hname
  agree h other hother := by simp [after_cons, Frames.find?_declare, h other hother]
  holds _ _ := ⟨.inl trivial, trivial⟩

theorem append (h : Follows D loose known es es') (h' : Follows D loose known fs fs') :
    Follows D loose known (es ++ fs) (es' ++ fs') where
  checked := h.checked.append h'.checked
  written := h.written.append h'.written
  fewer name := by
    rw [mentions_append, mentions_append]
    exact Nat.add_le_add (h.fewer name) (h'.fewer name)
  quiet hname := by rw [after_append, h'.quiet hname, h.quiet hname]
  agree hΓ := by
    rw [after_append, after_append]
    exact h'.agree (h.agree hΓ)
  holds hΓ hes := by
    obtain ⟨hes, hfs⟩ := scoped_append.mp hes
    exact scoped_append.mpr ⟨h.holds hΓ hes, h'.holds (h.agree hΓ) hfs⟩

/-- A scope in both readings. -/
theorem scope (h : Follows (fun _ => True) loose known es es') :
    Follows D loose known (bracket es) (bracket es') where
  checked := .bracket h.checked
  written := .bracket h.written
  fewer name := by
    rw [mentions_bracket, mentions_bracket]
    exact h.fewer name
  quiet _ := by rw [h.checked.after_bracket]
  agree hΓ := by
    rw [h.checked.after_bracket, h.written.after_bracket]
    exact hΓ
  holds {Γ Γ'} hΓ hes := by
    have hinner : AgreeBut loose ([] :: Γ) ([] :: Γ') := hΓ
    exact scoped_bracket.mpr (h.holds hinner (scoped_bracket.mp hes))

/-- A block that is a scope only as it is written. -/
theorem block (hD : ∀ name ∈ loose, D name) (h : Follows (· ∈ loose) loose known es es') :
    Follows D loose known es (bracket es') where
  checked := h.checked
  written := .bracket h.written
  fewer name := by
    rw [mentions_bracket]
    exact h.fewer name
  quiet hname := h.quiet fun hloose => hname (hD _ hloose)
  agree hΓ := by
    -- What the block declares is loose, so all else is behind it as it was before.
    rw [h.written.after_bracket]
    exact AgreeBut.trans (fun _ => h.quiet) hΓ
  holds hΓ hes := scoped_bracket.mpr (h.holds hΓ hes)

/-- A block of which the last statement is checked before the others. -/
theorem turned (hD : ∀ name ∈ loose, D name) (hlast : Follows (· ∈ loose) loose known es es')
    (hinit : Follows (· ∈ loose) loose known fs fs') :
    Follows D loose known (es ++ fs) (bracket (fs' ++ es')) where
  checked := hlast.checked.append hinit.checked
  written := .bracket (hinit.written.append hlast.written)
  fewer name := by
    rw [mentions_bracket, mentions_append, mentions_append, Nat.add_comm]
    exact Nat.add_le_add (hinit.fewer name) (hlast.fewer name)
  quiet hname := (hlast.append hinit).quiet fun hloose => hname (hD _ hloose)
  agree hΓ := by
    rw [(hinit.written.append hlast.written).after_bracket]
    exact AgreeBut.trans (fun _ => (hlast.append hinit).quiet) hΓ
  holds {Γ Γ'} hΓ hes := by
    obtain ⟨hes, hfs⟩ := scoped_append.mp hes
    -- Neither part declares a name that the other one can look up, but for loose ones.
    have hbefore : AgreeBut loose (after Γ es) ([] :: Γ') :=
      AgreeBut.trans (fun _ => hlast.quiet) hΓ
    have hinner : AgreeBut loose Γ ([] :: Γ') := hΓ
    have hbehind : AgreeBut loose Γ (after ([] :: Γ') fs') :=
      AgreeBut.trans (fun _ hname => (hinit.quiet hname).symm) (hinit.agree hinner)
    rw [scoped_bracket, scoped_append]
    exact ⟨hinit.holds hbefore hfs, hlast.holds hbehind hes⟩

/-- A callee that is left out. -/
theorem skipped (hclosed : Bracketed false es') (h : ∀ name ∈ es'.filterMap Event.lookup?,
    name ∈ loose) : Follows D loose known [] es' where
  checked := .nil
  written := hclosed.opened
  fewer _ := Nat.zero_le _
  quiet _ := rfl
  agree hΓ := by
    rw [hclosed.after_eq]
    exact hΓ
  holds _ _ := scoped_of_loose h

end Follows

/-! ### Loose names -/

mutual

/-- The names that callees mention which are left out by the check. -/
def Expr.loose : Expr → List String
  | .binary left _ right _ => left.loose ++ right.loose
  | .unary _ operand _ => operand.loose
  | .call (.name _ _) args _ => exprsLoose args
  | .call (.field object _ _) args _ => object.loose ++ exprsLoose args
  | .call callee args _ => (callee.events .lexical).filterMap Event.lookup? ++ exprsLoose args
  | .field object _ _ => object.loose
  | .propagate operand _ => operand.loose
  | .list elements _ => exprsLoose elements
  | .matching subject arms _ => subject.loose ++ armsLoose arms
  | .int .. | .float .. | .string .. | .bool .. | .name .. | .stmt _ | .unknown => []

def exprsLoose : List Expr → List String
  | [] => []
  | e :: es => e.loose ++ exprsLoose es

def armsLoose : List Arm → List String
  | [] => []
  | ⟨_, body, _⟩ :: arms => body.loose ++ armsLoose arms

end

def Stmt.bound : Stmt → List String
  | .letVar name .. => [name]
  | _ => []

mutual

/-- The names that are declared directly in blocks that are no scopes for the check, and those that
are loose in expressions. -/
def Stmt.loose : Stmt → List String
  | .letVar _ value _ _ _ => value.loose
  | .assign _ value _ => value.loose
  | .expr e _ => e.loose
  | .ret none _ => []
  | .ret (some e) _ => e.loose
  | .whileLoop condition body _ => condition.loose ++ (body.flatMap Stmt.bound ++ stmtsLoose body)
  | .forLoop _ collection body _ => collection.loose ++ stmtsLoose body
  | .loop body _ => body.flatMap Stmt.bound ++ stmtsLoose body
  | .ifElse condition thenBody none _ =>
    condition.loose ++ (thenBody.flatMap Stmt.bound ++ stmtsLoose thenBody)
  | .ifElse condition thenBody (some elseBody) _ =>
    condition.loose ++ ((thenBody.flatMap Stmt.bound ++ stmtsLoose thenBody) ++
      (elseBody.flatMap Stmt.bound ++ stmtsLoose elseBody))
  | .breakLoop _ | .continueLoop _ | .fn _ | .bare _ | .unknown => []

def stmtsLoose : List Stmt → List String
  | [] => []
  | s :: rest => s.loose ++ stmtsLoose rest

end

def Program.loose (p : Program) : List String :=
  p.functions.flatMap (fun fn => stmtsLoose fn.body) ++ stmtsLoose p.statements

/-! ### From one reading to the other -/

section Readings

variable {D : String → Prop} {loose known : List String}

theorem Follows.declareAll (names : List String) :
    Follows (fun _ => True) loose known (declareAll names) (declareAll names) := by
  induction names with
  | nil => exact .nil
  | cons name names ih => exact (Follows.declare trivial false).append ih

theorem Follows.nameEvents (name : String) :
    Follows D loose known (nameEvents name) (nameEvents name) := by
  rw [Owl.nameEvents]
  split
  · exact .nil
  · exact .lookup rfl

theorem Follows.callEvents (name : String) :
    Follows D loose known (callEvents name) (callEvents name) := by
  rw [Owl.callEvents]
  split
  · exact .nil
  · exact .lookup rfl

mutual

theorem Expr.follows : ∀ e : Expr, e.Ordinary → (∀ name ∈ e.loose, name ∈ loose) →
    ∀ {D : String → Prop}, Follows D loose known (e.events .checked) (e.events .lexical)
  | .int .., _, _, _ | .float .., _, _, _ | .string .., _, _, _ | .bool .., _, _, _ => by
    exact .nil
  | .name name _, _, _, _ => by
    exact .nameEvents name
  | .binary left _ right _, h, hloose, _ => by
    obtain ⟨hleft, hright⟩ := onlyCalls_append.mp h
    simp only [Expr.loose, List.forall_mem_append] at hloose
    exact (left.follows hleft hloose.1).append (right.follows hright hloose.2)
  | .unary _ operand _, h, hloose, _ | .field operand _ _, h, hloose, _
  | .propagate operand _, h, hloose, _ => by
    simp only [Expr.loose] at hloose
    exact operand.follows h hloose
  | .call callee args _, h, hloose, _ => by
    obtain ⟨hcallee, hrest⟩ := onlyCalls_append.mp h
    have hargs := fun hloose {D} => exprs_follows args (onlyCalls_append.mp hrest).1 hloose (D := D)
    have hfollows := fun hloose {D} => callee.follows hcallee hloose (D := D)
    have hclosed := callee.events_closed .lexical hcallee
    cases callee with
    | name name span? =>
      simp only [Expr.loose] at hloose
      exact (Follows.callEvents name).append (hargs hloose)
    | field object field span? =>
      simp only [Expr.loose, List.forall_mem_append] at hloose
      simp only [Expr.events, Expr.loose] at hfollows ⊢
      exact (hfollows hloose.1).append (hargs hloose.2)
    | _ =>
      -- A callee of any other kind is left out by the check.
      refine (Follows.skipped hclosed fun name hname => ?_).append (hargs fun name hname => ?_)
      · exact hloose name (List.mem_append_left _ hname)
      · exact hloose name (List.mem_append_right _ hname)
  | .list elements _, h, hloose, _ => by
    simp only [Expr.loose] at hloose
    exact exprs_follows elements h hloose
  | .matching subject arms _, h, hloose, _ => by
    obtain ⟨hsubject, harms⟩ := onlyCalls_append.mp h
    simp only [Expr.loose, List.forall_mem_append] at hloose
    exact (subject.follows hsubject hloose.1).append (arms_follow arms harms hloose.2)
  | .stmt _, h, _, _ | .unknown, h, _, _ => absurd h (not_onlyCalls_node _)

theorem exprs_follows : ∀ es : List Expr, OnlyCalls (exprsHazards es) →
    (∀ name ∈ exprsLoose es, name ∈ loose) →
    ∀ {D : String → Prop}, Follows D loose known (exprsEvents .checked es) (exprsEvents .lexical es)
  | [], _, _, _ => by
    exact .nil
  | e :: es, h, hloose, _ => by
    obtain ⟨hfirst, hrest⟩ := onlyCalls_append.mp h
    simp only [exprsLoose, List.forall_mem_append] at hloose
    exact (e.follows hfirst hloose.1).append (exprs_follows es hrest hloose.2)

theorem arms_follow : ∀ arms : List Arm, OnlyCalls (armsHazards arms) →
    (∀ name ∈ armsLoose arms, name ∈ loose) →
    ∀ {D : String → Prop}, Follows D loose known (armsEvents .checked arms)
      (armsEvents .lexical arms)
  | [], _, _, _ => by
    exact .nil
  | ⟨pattern, body, _⟩ :: arms, h, hloose, _ => by
    obtain ⟨hbody, hrest⟩ := onlyCalls_append.mp h
    simp only [armsLoose, List.forall_mem_append] at hloose
    refine .append (.scope ?_) (arms_follow arms hrest hloose.2)
    exact (Follows.declareAll _).append (body.follows hbody hloose.1)

end

/-- As it is written, a statement is read in the same way whatever it is used for. -/
theorem Stmt.events_lexical (s : Stmt) (use use' : Use) :
    s.events .lexical use = s.events .lexical use' := by
  cases s with
  | ifElse condition thenBody elseBody? span? => cases elseBody? <;> simp only [Stmt.events]
  | ret e? span? => cases e? <;> simp only [Stmt.events]
  | _ => simp only [Stmt.events]

theorem stmtsEvents_lexical (ss : List Stmt) :
    stmtsEvents .lexical ss = initEvents .lexical ss ++ lastEvents .lexical ss := by
  induction ss with
  | nil => simp only [stmtsEvents, initEvents, lastEvents, List.append_nil]
  | cons s rest ih =>
    cases rest with
    | nil =>
      simp only [stmtsEvents, initEvents, lastEvents, List.append_nil, List.nil_append]
      exact s.events_lexical ..
    | cons s' rest =>
      calc stmtsEvents .lexical (s :: s' :: rest)
          = s.events .lexical .effect ++ stmtsEvents .lexical (s' :: rest) := rfl
        _ = s.events .lexical .effect ++
              (initEvents .lexical (s' :: rest) ++ lastEvents .lexical (s' :: rest)) := by rw [ih]
        _ = initEvents .lexical (s :: s' :: rest) ++ lastEvents .lexical (s :: s' :: rest) :=
          (List.append_assoc ..).symm

/-- A statement in both readings, whatever it is used for, where `D` has the loose names and what
the statement declares around it. -/
def Stmt.Follows (loose known : List String) (s : Stmt) : Prop :=
  ∀ (use : Use) {D : String → Prop}, (∀ name ∈ loose, D name) → (∀ name ∈ s.bound, D name) →
    Owl.Follows D loose known (s.events .checked use) (s.events .lexical use)

section Blocks

variable {ss : List Stmt} (h : ∀ s ∈ ss, s.Follows loose known) (hD : ∀ name ∈ loose, D name)
  (hbound : ∀ name ∈ ss.flatMap Stmt.bound, D name)
include h hD hbound

theorem stmts_follow :
    Follows D loose known (stmtsEvents .checked ss) (stmtsEvents .lexical ss) := by
  induction ss with
  | nil =>
    exact .nil
  | cons s rest ih =>
    obtain ⟨hfirst, hmore⟩ := List.forall_mem_cons.mp h
    rw [List.flatMap_cons, List.forall_mem_append] at hbound
    exact (hfirst .effect hD hbound.1).append (ih hmore hbound.2)

theorem last_follows : Follows D loose known (lastEvents .checked ss) (lastEvents .lexical ss) := by
  induction ss with
  | nil =>
    exact .nil
  | cons s rest ih =>
    obtain ⟨hfirst, hmore⟩ := List.forall_mem_cons.mp h
    rw [List.flatMap_cons, List.forall_mem_append] at hbound
    cases rest with
    | nil =>
      exact hfirst .value hD hbound.1
    | cons => exact ih hmore hbound.2

theorem init_follows : Follows D loose known (initEvents .checked ss) (initEvents .lexical ss) := by
  induction ss with
  | nil =>
    exact .nil
  | cons s rest ih =>
    obtain ⟨hfirst, hmore⟩ := List.forall_mem_cons.mp h
    rw [List.flatMap_cons, List.forall_mem_append] at hbound
    cases rest with
    | nil =>
      exact .nil
    | cons => exact (hfirst .effect hD hbound.1).append (ih hmore hbound.2)

end Blocks

/-- A block of a choice, in both of its uses. -/
theorem Follows.branch (use : Use) (hD : ∀ name ∈ loose, D name) {body : List Stmt}
    (h : ∀ s ∈ body, s.Follows loose known)
    (hbound : ∀ name ∈ body.flatMap Stmt.bound, name ∈ loose) :
    Follows D loose known
      (match use with
        | .value => lastEvents .checked body ++ initEvents .checked body
        | .effect => stmtsEvents .checked body)
      (bracket (stmtsEvents .lexical body)) := by
  have hself : ∀ name ∈ loose, name ∈ loose := fun _ hname => hname
  cases use with
  | effect => exact .block hD (stmts_follow h hself hbound)
  | value =>
    rw [stmtsEvents_lexical]
    exact .turned hD (last_follows h hself hbound) (init_follows h hself hbound)

mutual

theorem Stmt.follows : ∀ s : Stmt, s.Ordinary → (∀ name ∈ s.loose, name ∈ loose) →
    s.Follows loose known
  | .letVar name value _ isMutable _, h, hloose => fun _ _ _ hbound => by
    simp only [Stmt.loose] at hloose
    exact (value.follows h hloose).append (.declare (hbound name (List.mem_singleton.mpr rfl)) _)
  | .assign name value _, h, hloose => fun _ _ _ _ => by
    simp only [Stmt.loose] at hloose
    exact (Follows.lookup (e := .assign name) rfl).append (value.follows h hloose)
  | .expr e _, h, hloose | .ret (some e) _, h, hloose => fun _ _ _ _ => by
    simp only [Stmt.loose] at hloose
    exact e.follows h hloose
  | .whileLoop condition body _, h, hloose => fun _ _ hD _ => by
    obtain ⟨hcondition, hbody⟩ := onlyCalls_append.mp h
    simp only [Stmt.loose, List.forall_mem_append] at hloose
    refine (condition.follows hcondition hloose.1).append (.block hD ?_)
    exact stmts_follow (all_follow body hbody hloose.2.2) (fun _ hname => hname) hloose.2.1
  | .forLoop item collection body _, h, hloose => fun _ _ _ _ => by
    obtain ⟨hcollection, hbody⟩ := onlyCalls_append.mp h
    simp only [Stmt.loose, List.forall_mem_append] at hloose
    refine (collection.follows hcollection hloose.1).append (.scope ?_)
    refine (@Follows.declare _ _ _ item trivial false).append ?_
    exact stmts_follow (all_follow body hbody hloose.2) (fun _ _ => trivial) fun _ _ => trivial
  | .loop body _, h, hloose => fun _ _ hD _ => by
    simp only [Stmt.loose, List.forall_mem_append] at hloose
    exact .block hD (stmts_follow (all_follow body h hloose.2) (fun _ hname => hname) hloose.1)
  | .ifElse condition thenBody none _, h, hloose => fun use _ hD _ => by
    obtain ⟨hcondition, hthen⟩ := onlyCalls_append.mp h
    simp only [Stmt.loose, List.forall_mem_append] at hloose
    obtain ⟨hcond, hbound, hinner⟩ := hloose
    have hbranch := Follows.branch use hD (all_follow thenBody hthen hinner) hbound
    have hfollows := (condition.follows hcondition hcond).append hbranch
    cases use <;> exact hfollows
  | .ifElse condition thenBody (some elseBody) _, h, hloose => fun use _ hD _ => by
    obtain ⟨hcondition, hbodies⟩ := onlyCalls_append.mp h
    obtain ⟨hthen, helse⟩ := onlyCalls_append.mp hbodies
    simp only [Stmt.loose, List.forall_mem_append] at hloose
    obtain ⟨hcond, ⟨hbound, hinner⟩, hbound', hinner'⟩ := hloose
    have hbranch := Follows.branch use hD (all_follow thenBody hthen hinner) hbound
    have hbranch' := Follows.branch use hD (all_follow elseBody helse hinner') hbound'
    have hfollows := (condition.follows hcondition hcond).append (hbranch.append hbranch')
    cases use <;> exact hfollows
  | .ret none _, _, _ | .breakLoop _, _, _ | .continueLoop _, _, _ => fun _ _ _ _ => by
    exact .nil
  | .fn _, h, _ | .bare _, h, _ | .unknown, h, _ => absurd h (not_onlyCalls_node _)

theorem all_follow : ∀ ss : List Stmt, OnlyCalls (stmtsHazards ss) →
    (∀ name ∈ stmtsLoose ss, name ∈ loose) → ∀ s ∈ ss, s.Follows loose known
  | [], _, _ => List.forall_mem_nil _
  | s :: rest, h, hloose => by
    obtain ⟨hfirst, hrest⟩ := onlyCalls_append.mp h
    simp only [stmtsLoose, List.forall_mem_append] at hloose
    exact List.forall_mem_cons.mpr ⟨s.follows hfirst hloose.1, all_follow rest hrest hloose.2⟩

end

theorem body_follows {ss : List Stmt} (h : OnlyCalls (stmtsHazards ss))
    (hloose : ∀ name ∈ stmtsLoose ss, name ∈ loose) :
    Follows (fun _ => True) loose known (bodyEvents .checked ss) (bodyEvents .lexical ss) := by
  induction ss with
  | nil => exact .nil
  | cons s rest ih =>
    obtain ⟨hfirst, hrest⟩ := onlyCalls_append.mp h
    rw [stmtsLoose, List.forall_mem_append] at hloose
    exact (s.follows hfirst hloose.1 .value (fun _ _ => trivial) fun _ _ => trivial).append
      (ih hrest hloose.2)

theorem functions_follow {fns : List FnDecl}
    (h : ∀ fn ∈ fns, OnlyCalls (stmtsHazards fn.body))
    (hloose : ∀ fn ∈ fns, ∀ name ∈ stmtsLoose fn.body, name ∈ loose) :
    Follows (fun _ => True) loose known (fns.flatMap (FnDecl.events .checked))
      (fns.flatMap (FnDecl.events .lexical)) := by
  induction fns with
  | nil => exact .nil
  | cons fn fns ih =>
    rw [List.forall_mem_cons] at h hloose
    refine .append (.scope ?_) (ih h.2 hloose.2)
    exact (Follows.declareAll _).append (body_follows h.1 hloose.1)

/-- A program that is scoped as it is checked is scoped as it is written, but for loose names. -/
theorem Program.scoped_lexical {p : Program} (hp : OnlyCalls p.hazards)
    (h : Scoped [] known [[]] (p.events .checked)) :
    Scoped p.loose known [[]] (p.events .lexical) := by
  obtain ⟨hfns, hstatements⟩ := hp.program
  have hfunctions : Follows (fun _ => True) p.loose known
      (p.functions.flatMap (FnDecl.events .checked))
      (p.functions.flatMap (FnDecl.events .lexical)) := by
    refine functions_follow hfns fun fn hfn name hname => ?_
    exact List.mem_append_left _ (List.mem_flatMap.mpr ⟨fn, hfn, hname⟩)
  have hrest : Follows (fun _ => True) p.loose known (stmtsEvents .checked p.statements)
      (stmtsEvents .lexical p.statements) := by
    refine stmts_follow (all_follow p.statements hstatements fun name hname => ?_)
      (fun _ _ => trivial) fun _ _ => trivial
    exact List.mem_append_right _ hname
  have himports := @Follows.declareAll p.loose known (p.imports.flatMap Import.bound)
  exact (himports.append (hfunctions.append hrest)).holds (fun _ _ => rfl) h

end Readings

end Owl
