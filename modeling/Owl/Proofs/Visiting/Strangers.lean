/-
Types that are not known.

A name in a written type that stands for no type is reported.  Written types have no
places, so all these reports are made at one place, and of reports with one code and
place only the first is recorded: of all the names in a program that stand for no
type, the check tells the first one that it comes to.
-/
import Owl.Proofs.Visiting.Locals

namespace Owl

open Checker CheckM Owl.Parser

/-! ### Names that stand for no type -/

mutual

/-- The names in a written type that stand for no type.  Behind a name with a wrong number of
parameters the check does not look at the parameters. -/
def TypeExpr.strangers : TypeExpr → List String
  | .mk name params _ =>
    if name == "Any" || (Ty.primitive? name).isSome then []
    else match Ty.arity? name with
      | none => [name]
      | some arity => if params.length == arity then typesStrangers params else []

def typesStrangers : List TypeExpr → List String
  | [] => []
  | ty :: tys => ty.strangers ++ typesStrangers tys

end

def Local.strangers (l : Local) : List String := l.type?.toList.flatMap TypeExpr.strangers

/-- The names in the written types of a program that stand for no type: first in what functions
return, then in each function, then in the top-level statements. -/
def Program.strangers (p : Program) : List String :=
  p.functions.flatMap (fun fn => fn.returns?.toList.flatMap TypeExpr.strangers) ++
    (p.functions.flatMap (fun fn => fn.locals.flatMap Local.strangers) ++
      (stmtsLocals p.statements).flatMap Local.strangers)

def strangerReport (name : String) : Finding :=
  .diagnostic ((Problem.unknownType name).toDiagnostic .dummy)

/-! ### Telling the first one -/

/-- Of the names, the first one was reported, and no other. -/
def Checker.Told (c : Checker) (names : List String) : Prop :=
  c.findings.filter (·.code == "E0315") = (names.take 1).map strangerReport

theorem Checker.Told.hasReported {c : Checker} {names : List String} (h : c.Told names) :
    c.hasReported "E0315" Span.dummy.start = !names.isEmpty := by
  cases names with
  | nil =>
    refine Bool.eq_false_iff.mpr fun hreported => ?_
    obtain ⟨d, hd, hcode⟩ := List.any_eq_true.mp hreported
    obtain ⟨f, hf, hfd⟩ := List.mem_filterMap.mp hd
    cases f with
    | diagnostic d' =>
      obtain rfl := Option.some.inj hfd
      exact List.filter_eq_nil_iff.mp h _ hf (Bool.and_eq_true_iff.mp hcode).1
    | matchFault => cases hfd
  | cons name names =>
    have hmem : strangerReport name ∈ c.findings.filter (·.code == "E0315") := by
      rw [h]
      exact List.mem_cons_self ..
    exact List.any_eq_true.mpr
      ⟨_, List.mem_filterMap.mpr ⟨_, (List.mem_filter.mp hmem).1, rfl⟩, rfl⟩

theorem known_account : Account (· ≠ .unknownType) fun _ => Skips "E0315" := by
  refine skips_account (by decide) fun problem hkind hcode => hkind ?_
  cases problem <;> first | rfl | simp [Problem.code] at hcode

namespace CheckM

/-- Behind what was told before, the action comes to the names. -/
def Tells {α : Type} (names : List String) (p : CheckM α) : Prop :=
  ∀ c told, c.Told told → (p c).2.Told (told ++ names)

namespace Tells

variable {α β : Type} {names names' : List String} {p : CheckM α}

theorem bind {f : α → CheckM β} (hp : Tells names p) (hf : ∀ a, Tells names' (f a)) :
    Tells (names ++ names') (p >>= f) := by
  intro c told h
  rw [← List.append_assoc]
  exact hf _ _ _ (hp c told h)

theorem of_skips {s : Multiset Site} (h : Costs (fun _ => Skips "E0315") s p) : Tells [] p := by
  intro c told htold
  rw [List.append_nil]
  exact (h c).trans htold

theorem of_findings (h : ∀ c, (p c).2.findings = c.findings) : Tells [] p :=
  .of_skips (s := 0) fun c => congrArg _ (h c)

/-- What reports other problems comes to no such name. -/
theorem of_walks {strict : Prop} {K : Kinds} {es : List Event} {s : Multiset Site} {q : CheckM α}
    (h : Walks strict True K es s p q) (hK : ¬ K .unknownType) : Tells [] p :=
  .of_skips (h.costs (known_account.narrow fun _ hkind heq => hK (heq ▸ hkind)))

theorem bind_nil {f : α → CheckM β} (hp : Tells names p) (hf : ∀ a, Tells [] (f a)) :
    Tells names (p >>= f) := by
  simpa only [List.append_nil] using hp.bind hf

theorem forM {f : α → CheckM Unit} {write : α → List String} {as : List α}
    (hf : ∀ a ∈ as, Tells (write a) (f a)) : Tells (as.flatMap write) (as.forM f) := by
  induction as with
  | nil => exact .of_findings fun _ => rfl
  | cons a as ih =>
    obtain ⟨hfirst, hmore⟩ := List.forall_mem_cons.mp hf
    exact hfirst.bind fun _ => ih hmore

theorem inScope (hp : Tells names p) : Tells names (inScope p) :=
  fun c => hp { c with env := c.env.push }

/-- A name is reported if none was before. -/
theorem report (name : String) : Tells [name] (CheckM.report (.unknownType name) .dummy) := by
  intro c told h
  have hreported : c.hasReported ((Problem.unknownType name).toDiagnostic .dummy).code
      ((Problem.unknownType name).toDiagnostic .dummy).span.start = !told.isEmpty := h.hasReported
  show (c.addDiagnostic ((Problem.unknownType name).toDiagnostic .dummy)).Told (told ++ [name])
  rw [addDiagnostic, hreported]
  cases told with
  | nil =>
    show List.filter _ (c.findings ++ [_]) = _
    rw [List.filter_append, h]
    rfl
  | cons first told => exact h

end Tells

end CheckM

/-! ### Written types -/

mutual

theorem readType_tells : ∀ {ty : TypeExpr}, ty.Unplaced → Tells ty.strangers (readType ty)
  | .mk name params _, .mk _ hparams => by
    have hquiet (problem : Problem) (hkind : problem.kind ≠ .unknownType) :
        Tells [] (do report problem .dummy; return Ty.unknown) :=
      .of_skips (reported_costs known_account hkind)
    rw [readType, TypeExpr.strangers]
    by_cases hany : (name == "Any") = true
    · rw [if_pos hany, hany]
      exact hquiet .explicitAny nofun
    · rw [if_neg hany, Bool.eq_false_iff.mpr hany, Bool.false_or]
      cases Ty.primitive? name with
      | some t =>
        show Tells [] (if params.isEmpty then _ else _)
        split
        · exact .of_findings fun _ => rfl
        · exact hquiet (.wrongTypeArity ..) nofun
      | none =>
        cases Ty.arity? name with
        | none => exact (Tells.report name).bind_nil fun _ => .of_findings fun _ => rfl
        | some arity =>
          show Tells (if params.length == arity then typesStrangers params else []) (ite ..)
          split
          · exact (readTypes_tell hparams).bind_nil fun _ => .of_findings fun _ => rfl
          · exact hquiet (.wrongTypeArity ..) nofun

theorem readTypes_tell : ∀ {tys : List TypeExpr}, (∀ ty ∈ tys, ty.Unplaced) →
    Tells (typesStrangers tys) (readTypes tys)
  | [], _ => .of_findings fun _ => rfl
  | ty :: tys, h => by
    obtain ⟨hfirst, hmore⟩ := List.forall_mem_cons.mp h
    refine (readType_tells hfirst).bind fun _ => (readTypes_tell hmore).bind_nil fun _ => ?_
    exact .of_findings fun _ => rfl

end

/-- The type of a variable is read before anything else is done. -/
theorem readType?_tells {α : Type} {type? : Option TypeExpr} (h : ∀ ty ∈ type?, ty.Unplaced)
    {f : Ty → CheckM α} {q : CheckM α} (hf : ∀ t, Tells [] (f t)) (hq : Tells [] q) :
    Tells (type?.toList.flatMap TypeExpr.strangers)
      (match type? with
        | some written => readType written >>= f
        | none => q) := by
  cases type? with
  | none => exact hq
  | some written =>
    rw [Option.toList_some, List.flatMap_singleton]
    exact (readType_tells (h written rfl)).bind_nil hf

/-! ### Code -/

variable {file : String}

theorem CheckM.Declares.tells {α : Type} {es : List Event} {ls : List Local} {p : CheckM α}
    (h : Declares es ls p) : Tells (ls.flatMap Local.strangers) p := by
  induction h with
  | quiet hp => exact .of_walks hp fun h => h trivial rfl
  | bind _ _ ihp ihf =>
    rw [List.flatMap_append]
    exact ihp.bind ihf
  | letVar name value isMutable span? htype =>
    rw [List.flatMap_singleton]
    refine readType?_tells htype (fun expected => ?_) (.of_findings fun _ => rfl)
    have hdeclare := defineVar_costs known_account name { type := expected, span?, isMutable }
    refine .of_skips (.ite hdeclare (.free_bind known_account ?_ fun _ => hdeclare))
    exact report_costs known_account nofun
  | @param p hp =>
    rw [List.flatMap_singleton]
    exact readType?_tells hp.type? (fun _ => .of_findings fun _ => rfl) (.of_findings fun _ => rfl)
  | returns => exact .of_findings fun _ => rfl
  | loop _ ih => exact fun c => ih { c with loopDepth := c.loopDepth + 1 }
  | forEach item element span? _ ih =>
    rw [List.flatMap_map]
    exact fun c => ih { c with env := c.env.push.defineVar item { type := element, span? },
                               loopDepth := c.loopDepth + 1 }

theorem declare_tells {fn : FnDecl} {us : List Token} (h : fn.Read file us) :
    Tells (fn.returns?.toList.flatMap TypeExpr.strangers) (declare fn) := by
  cases h with | mk keyword name hparams hreturns hbody =>
  refine Tells.bind_nil ?_ fun _ => .of_findings fun _ => rfl
  exact readType?_tells hreturns (fun _ => .of_findings fun _ => rfl) (.of_findings fun _ => rfl)

/-- Behind the body of a function the check comes to no type. -/
theorem checkInside_tells {fn : FnDecl} {us : List Token} (h : Parts (Stmt.Read file) fn.body us) :
    Tells ((fn.body.flatMap (Stmt.locals .value)).flatMap Local.strangers) (checkInside fn) := by
  intro c
  have hbody := (checkBody_declares h false).tells
  rw [checkInside_eq]
  exact hbody.bind_nil (fun r => .of_walks (@endRule_walks False True trivial fn _ r) nofun) c

theorem checkFunction_tells {fn : FnDecl} {us : List Token} (h : fn.Read file us) :
    Tells (fn.locals.flatMap Local.strangers) (checkFunction fn) := by
  obtain ⟨hparams, vs, hbody⟩ := h.inside
  have hparam : ∀ param ∈ fn.params, Tells param.local.strangers (defineParam param) := by
    intro param hmem
    simpa only [List.flatMap_singleton] using (Declares.param (hparams param hmem)).tells
  rw [FnDecl.locals, List.flatMap_append, List.flatMap_map]
  refine .bind_nil (.inScope ?_) fun _ => .of_findings fun _ => rfl
  refine (Tells.forM hparam).bind fun _ => Tells.bind (.of_findings fun _ => rfl) fun _ => ?_
  exact checkInside_tells hbody

/-! ### Programs -/

/-- **Of unknown types, the first one is told.**  In a program that was read from a text, the check
reports the first name in the written types that stands for no type, in the order in which it comes
to them, and no other one. -/
theorem check_tells_first {file source : String} {p : Program}
    (h : readProgram file source = .ok p) :
    (Checker.new.check p).findings.filter (·.code == "E0315") =
      (p.strangers.take 1).map strangerReport := by
  obtain ⟨tokens, -, hp⟩ := of_readProgram_eq_ok h
  obtain ⟨-, hfunctions, us, hstatements⟩ := Program.read_of_parse hp
  have hdeclared := Tells.forM fun fn hfn => (hfunctions fn hfn).elim fun _ => declare_tells
  have himports : Tells [] ((p.imports.flatMap Import.bound).forM
      fun name => defineVar name { type := .any }) :=
    .of_walks (@imports_walks False True _) id
  have hchecked := Tells.forM fun fn hfn => (hfunctions fn hfn).elim fun _ => checkFunction_tells
  have hrest := (stmts_declare (parts_declare hstatements)).tells
  have hprogram : Tells p.strangers (checkProgram p) :=
    hdeclared.bind fun _ => himports.bind fun _ => hchecked.bind fun _ => hrest
  exact hprogram { Checker.new with findings := [], warnings := [] } [] rfl

/-- The parameter of a function comes before a statement in front of the function. -/
theorem check_tells_first_parameter :
    ∃ p, readProgram "" "let a: Foo = 1\nfn f(b: List[Bar]) \x7b \x7d" = .ok p ∧
      p.strangers = ["Bar", "Foo"] ∧
      (Checker.new.check p).findings.filter (·.code == "E0315") = [strangerReport "Bar"] := by
  refine exists_program (P := fun p => p.strangers = ["Bar", "Foo"]) String.toList_ofList
    (by decide +kernel) fun p hp hstrangers => ⟨hstrangers, ?_⟩
  rw [check_tells_first hp, hstrangers]
  rfl

/-- Of two variables with types that are not known, the second one goes without a report. -/
theorem check_tells_only_first :
    ∃ p, readProgram "" "let a: Foo = 1\nlet b: Bar = 2" = .ok p ∧
      (stmtsLocals p.statements).map (·.type?.map TypeExpr.strangers) =
        [some ["Foo"], some ["Bar"]] ∧
      (Checker.new.check p).findings.map (fun f => (f.code, f.message)) =
        [("E0315", "unknown type `Foo`")] :=
  exists_program String.toList_ofList (by decide +kernel) fun _ _ h => h

end Owl
