/-
The scopes of a check are the frames of its events.

Whatever is found, a check has declared in every open scope what its events
declare there, and it has changed no function.  So what a name stands for can be
read from the events alone.
-/
import Owl.Proofs.Checking.Rest
import Owl.Proofs.Checking.Tracking
import Owl.Proofs.Failing.Compiling
import Owl.Proofs.Layout.Checking

namespace Owl

/-! ### Shapes -/

/-- The names of the variables of a scope, and whether they can change. -/
def Scope.frame (s : Scope) : Frame := s.vars.mapValues Variable.isMutable

theorem Scope.Touched.frame_eq {s t : Scope} (h : s.Touched t) : t.frame = s.frame := by
  have hvars := h.vars
  rw [frame, frame]
  generalize s.vars = rows, t.vars = rows' at hvars
  induction hvars with
  | nil => rfl
  | @cons row row' _ _ hrow _ ih =>
    have hhead : (row'.1, row'.2.isMutable) = (row.1, row.2.isMutable) := by
      obtain ⟨hname, heq | heq⟩ := hrow <;> rw [hname, heq]
    exact congrArg₂ List.cons hhead ih

theorem TouchedScopes.map_eq {α : Type} {f : Scope → α}
    (hf : ∀ {s t : Scope}, s.Touched t → f t = f s) {xs ys : List Scope} (h : TouchedScopes xs ys) :
    ys.map f = xs.map f := by
  induction h with
  | nil => rfl
  | cons hst _ ih => exact congrArg₂ List.cons (hf hst) ih

/-- The frames of the scopes, and their functions. -/
structure Env.Shape (Γ : Frames) (F : List (Table Signature)) (env : Env) : Prop where
  frames : env.scopes.map Scope.frame = Γ
  fns : env.scopes.map Scope.fns = F

namespace Env.Shape

variable {Γ : Frames} {F : List (Table Signature)} {env : Env}

theorem var? (h : env.Shape Γ F) (name : String) :
    (env.var? name).map Variable.isMutable = Γ.find? name := by
  rw [← h.frames, Env.var?, Frames.find?, List.findSome?_map, List.map_findSome?]
  congr 1
  funext s
  exact (Table.get?_mapValues Variable.isMutable s.vars name).symm

theorem fn? (h : env.Shape Γ F) (name : String) : env.fn? name = F.findSome? (·.get? name) := by
  rw [← h.fns, Env.fn?, List.findSome?_map]
  rfl

theorem exists_cons (h : env.Shape Γ F) : ∃ f Γ', Γ = f :: Γ' :=
  ⟨env.scope.frame, env.outer.map Scope.frame, h.frames.symm⟩

theorem of_touched {env' : Env} (h : env.Shape Γ F) (ht : TouchedScopes env.scopes env'.scopes) :
    env'.Shape Γ F :=
  ⟨(ht.map_eq fun h => h.frame_eq).trans h.frames, (ht.map_eq fun h => h.fns).trans h.fns⟩

theorem markUsed (h : env.Shape Γ F) (name : String) : (env.markUsed name).Shape Γ F := by
  refine h.of_touched ?_
  rw [scopes_markUsed]
  exact TouchedScopes.markIn name _

theorem declare (h : env.Shape Γ F) (name : String) (v : Variable) :
    (env.defineVar name v).Shape ((Event.declare name v.isMutable).step Γ) F := by
  obtain ⟨rfl, rfl⟩ := h
  refine ⟨?_, rfl⟩
  exact congrArg (· :: _) (Table.put_mapValues Variable.isMutable env.scope.vars name v)

theorem push (h : env.Shape Γ F) : env.push.Shape ([] :: Γ) ([] :: F) :=
  ⟨congrArg ([] :: ·) h.frames, congrArg ([] :: ·) h.fns⟩

theorem pop {f g : Frame} {t : Table Signature} (h : env.Shape (f :: g :: Γ) (t :: F)) :
    env.pop.Shape (g :: Γ) F := by
  obtain ⟨scope, outer⟩ := env
  obtain ⟨hframes, hfns⟩ := h
  cases outer with
  | nil => cases hframes
  | cons s outer => exact ⟨(List.cons.inj hframes).2, (List.cons.inj hfns).2⟩

end Env.Shape

open Checker CheckM

/-! ### Walks -/

/-- A check declares what its events say, in scopes that it opens and closes as they say. -/
theorem Env.shape_tracking : Env.Tracking fun es env env' =>
    ∀ {Γ : Frames} {F : List (Table Signature)}, env.Shape Γ F → env'.Shape (after Γ es) F where
  skip hes env Γ F h := by
    rw [hes.after_eq]
    exact h
  trans _ h h' Γ F hc := by
    rw [after_append]
    exact h' (h hc)
  declare env name v Γ F h := h.declare name v
  markUsed h _ Γ F hc := (h hc).markUsed _
  scope {es env env'} hes h Γ F hc := by
    obtain ⟨g, Γ', rfl⟩ := hc.exists_cons
    obtain ⟨f, hf⟩ := hes.exists_after [] (g :: Γ')
    have hend := h hc.push
    rw [hf] at hend
    rw [hes.after_bracket]
    exact hend.pop

/-- A check goes from the frames `Γ` to `after Γ es`. -/
theorem CheckM.Walks.shape {inside : Prop} {α : Type} {K : Kinds} {es : List Event}
    {s : Multiset Site} {p q : CheckM α} (h : Walks True inside K es s p q)
    {c : Checker} {Γ : Frames}
    {F : List (Table Signature)} (hc : c.env.Shape Γ F) : (p c).2.env.Shape (after Γ es) F :=
  h.tracks Env.shape_tracking c hc

/-! ### Programs -/

section Programs

variable {Γ : Frames} {F : List (Table Signature)} {t : Table Signature} {c : Checker}

theorem declare_shape (fn : FnDecl) (h : c.env.Shape Γ (t :: F)) :
    ∃ s, (declare fn c).2.env.Shape Γ (t.put fn.name s :: F) := by
  obtain ⟨-, -, hframes, hfns⟩ :=
    signatureOf_steady (recording_of_env fun env => env.Shape Γ (t :: F)) fn (n := 0) (l := 0)
      ⟨rfl, h⟩
  obtain ⟨hscope, houter⟩ := List.cons.inj hfns
  refine ⟨(signatureOf fn c).1, hframes, ?_⟩
  exact congrArg₂ List.cons (congrArg (Table.put · fn.name (signatureOf fn c).1) hscope) houter

/-- Functions are entered under their names. -/
theorem declares_shape (fns : List FnDecl) (h : c.env.Shape Γ (t :: F)) :
    ∃ rows : Table Signature, rows.keys = fns.map FnDecl.name ∧
      (fns.forM declare c).2.env.Shape Γ (t.putAll rows :: F) := by
  induction fns generalizing c t with
  | nil => exact ⟨[], rfl, h⟩
  | cons fn fns ih =>
    obtain ⟨s, hs⟩ := declare_shape fn h
    obtain ⟨rows, hkeys, hrows⟩ := ih hs
    exact ⟨(fn.name, s) :: rows, congrArg (fn.name :: ·) hkeys, hrows⟩

theorem checkFunctions_shape (fns : List FnDecl) (h : c.env.Shape Γ F) :
    (fns.forM checkFunction c).2.env.Shape Γ F := by
  induction fns generalizing c with
  | nil => exact h
  | cons fn fns ih => exact ih (h.of_touched (checkFunction_touched fn c))

theorem imports_walks {strict inside : Prop} (names : List String) :
    Walks strict inside (fun _ => False) (declareAll names) 0
      (names.forM fun name => defineVar name { type := .any })
      (names.forM fun name => defineVar name { type := .any }) := by
  induction names with
  | nil => exact .pure _
  | cons name names ih =>
    have hname : Walks strict inside (fun _ => False) [.declare name false] 0
        (defineVar name { type := .any }) (defineVar name { type := .any }) := .declare name rfl rfl
    exact hname.free_bind fun _ => ih

theorem FnDecl.events_closed {fn : FnDecl} (h : OnlyCalls (stmtsHazards fn.body)) :
    Bracketed false (fn.events .checked) := by
  refine .bracket (.append (.declareAll _) ?_)
  exact (@checkInside_walks True True trivial fn fun _ => h).bracketed trivial

theorem functionsEvents_closed {fns : List FnDecl}
    (h : ∀ fn ∈ fns, OnlyCalls (stmtsHazards fn.body)) :
    Bracketed false (fns.flatMap (FnDecl.events .checked)) := by
  induction fns with
  | nil => exact .nil
  | cons fn fns ih =>
    rw [List.forall_mem_cons] at h
    exact (FnDecl.events_closed h.1).append (ih h.2)

def Program.Parsed (p : Program) : Prop := ∃ file tokens, parse file tokens = .ok p

theorem Program.Parsed.onlyCalls {p : Program} (h : p.Parsed) : OnlyCalls p.hazards := by
  obtain ⟨file, tokens, h⟩ := h
  exact parse_onlyCalls h

theorem parsed_of_readProgram {file source : String} {p : Program}
    (h : readProgram file source = .ok p) : p.Parsed := by
  obtain ⟨tokens, -, h⟩ := of_readProgram_eq_ok h
  exact ⟨file, tokens, h⟩

/-- A program also enters the functions that it declares. -/
theorem checkProgram_shape {p : Program} (hp : OnlyCalls p.hazards) (h : c.env.Shape Γ (t :: F)) :
    ∃ rows : Table Signature, rows.keys = p.functions.map FnDecl.name ∧
      (checkProgram p c).2.env.Shape (after Γ (p.events .checked)) (t.putAll rows :: F) := by
  obtain ⟨hfns, hstatements⟩ := hp.program
  obtain ⟨rows, hkeys, hdeclared⟩ := declares_shape p.functions h
  have himported := (@imports_walks True False (p.imports.flatMap Import.bound)).shape hdeclared
  have hchecked := checkFunctions_shape p.functions himported
  refine ⟨rows, hkeys, ?_⟩
  rw [Program.events, after_append, after_append, (functionsEvents_closed hfns).after_eq]
  exact (@checkStmts_walks True False p.statements fun _ => hstatements).shape hchecked

/-- Programs that are checked one after the other declare what their events say. -/
theorem foldl_check_shape {ps : List Program} (hps : ∀ p ∈ ps, p.Parsed)
    (h : c.env.Shape Γ (t :: F)) :
    ∃ rows : Table Signature, rows.keys = (ps.flatMap Program.functions).map FnDecl.name ∧
      (ps.foldl Checker.check c).env.Shape (after Γ (ps.flatMap (Program.events .checked)))
        (t.putAll rows :: F) := by
  induction ps generalizing Γ t c with
  | nil => exact ⟨[], rfl, h⟩
  | cons p ps ih =>
    rw [List.forall_mem_cons] at hps
    obtain ⟨rows, hkeys, hchecked⟩ := checkProgram_shape
      (c := { c with findings := [], warnings := [] }) hps.1.onlyCalls h
    obtain ⟨rows', hkeys', hrest⟩ := ih (c := c.check p) hps.2 hchecked
    refine ⟨rows ++ rows', ?_, ?_⟩
    · rw [List.flatMap_cons, List.map_append, ← hkeys, ← hkeys']
      exact List.map_append
    · rw [List.flatMap_cons, after_append, Table.putAll, List.foldl_append]
      exact hrest

end Programs

theorem new_shape : Checker.new.env.Shape [[]] [Checker.new.env.scope.fns] :=
  ⟨by decide +kernel, rfl⟩

end Owl
