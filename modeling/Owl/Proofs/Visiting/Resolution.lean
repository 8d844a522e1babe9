/-
What a call by name calls.

A check and emission look a called name up in tables of their own.  The check takes
constructors first, then `get` and `push`, then the functions of the program and last
the other built-in functions; emission takes all built-in functions first.
-/
import Owl.Proofs.Visiting.Placement

namespace Owl

open Checker CheckM Text

/-! ### The functions of a program -/

/-- The entry of a key is the last one that was made. -/
theorem Table.get?_putAll {α : Type} (rows : List (String × α)) (t : Table α) (key : String) :
    (t.putAll rows).get? key =
      ((rows.reverse.find? (·.1 == key)).map Prod.snd).or (t.get? key) := by
  induction rows generalizing t with
  | nil => rfl
  | cons row rows ih =>
    have hput : (t.putAll (row :: rows)).get? key =
        ((t.put row.1 row.2).putAll rows).get? key := rfl
    rw [hput, ih, get?_put, List.reverse_cons, List.find?_append]
    cases rows.reverse.find? (·.1 == key) with
    | some found => rfl
    | none => by_cases hkey : row.1 = key <;> simp [hkey]

def Program.declared? (p : Program) (name : String) : Option FnDecl :=
  p.functions.reverse.find? (·.name == name)

/-- The signature that a built-in function is known by. -/
def Builtin.signature (b : Builtin) : Signature := ⟨b.params, b.returns⟩

theorem new_fns : Checker.new.env.scope.fns = Builtin.all.map fun b => (b.name, b.signature) := by
  decide +kernel

theorem Table.get?_map {α β : Type} (key : β → String) (value : β → α) (bs : List β)
    (name : String) : Table.get? (bs.map fun b => (key b, value b)) name =
      (bs.find? (key · == name)).map value := by
  induction bs with
  | nil => rfl
  | cons b bs ih =>
    rw [List.map_cons, get?, List.find?_cons, ih]
    cases key b == name <;> rfl

/-- The functions that are known in a program: its own, and the built-in ones that they leave. -/
theorem Program.root_fn? (p : Program) (name : String) :
    p.root.env.fn? name =
      ((p.declared? name).map FnDecl.signature).or
        ((Builtin.find? name).map Builtin.signature) := by
  have hR := fns_account
  have himports : p.root.fns = (p.functions.forM declare Checker.new).2.fns :=
    Costs.forM hR (fun name => defineVar_costs hR name _) _ _
  have hnew : Checker.new.AtRest Checker.new.env.scope := ⟨.refl _, rfl, rfl, rfl⟩
  have hrest := (forM_adds AtRest
    (fun root fn => { root with fns := root.fns.put fn.name fn.signature })
    (fun fn m => (signatureOf fn (alone {})).2.Recorded m)
    (fun fn h => declare_rest h fn) p.functions hnew).1
  have hfns := hrest.scope.fns name
  rw [foldl_putFn, Table.get?_putAll, new_fns, Table.get?_map, ← List.map_reverse,
    List.find?_map, Option.map_map] at hfns
  have hfound : (p.functions.forM declare Checker.new).2.env.scope.fns.get? name =
      ((p.declared? name).map FnDecl.signature).or
        ((Builtin.find? name).map Builtin.signature) := hfns
  rw [fn?_of_fns himports, Env.fn?, Env.scopes, hrest.outer, List.findSome?_cons, hfound]
  cases ((p.declared? name).map FnDecl.signature).or
    ((Builtin.find? name).map Builtin.signature) <;> rfl

/-! ### Callees -/

/-- What a called name stands for. -/
inductive Callee
  | constructor
  | builtin (b : Builtin)
  | declared (f : FnDecl)
  /-- The value of a variable that can be anything. -/
  | value

def Program.callee (p : Program) (name : String) : Callee :=
  if (ValueConstructor.find? name).isSome then .constructor
  else match (Builtin.find? name).filter Builtin.isGeneric with
    | some b => .builtin b
    | none => match p.declared? name with
      | some f => .declared f
      | none => match Builtin.find? name with
        | some b => .builtin b
        | none => .value

/-- Whether a name stands for a function that the program declares. -/
def Callee.isDeclared : Callee → Bool
  | declared _ => true
  | constructor | builtin _ | value => false

/-- How a call of what a name stands for is typed in a state. -/
def Callee.Types (name : String) (c : Checker) (type : Ty) : Callee → Prop
  | constructor => (ValueConstructor.find? name).isSome = true
  | builtin b => Builtin.find? name = some b ∧
    (b.isGeneric = false → c.env.fn? name = some b.signature ∧ type = b.returns)
  | declared f => c.env.fn? name = some f.signature ∧ type = f.signature.returns
  | value => c.env.fn? name = none ∧ (c.env.var? name).any (·.type == .any) = true ∧ type = .any

/-- Names other than constructors, `get` and `push` are called by the rule for functions. -/
theorem callRule_of_function {name : String} (hconstructor : ¬ (ValueConstructor.find? name).isSome)
    (hgeneric : (Builtin.find? name).filter Builtin.isGeneric = none) (places : List Span)
    (args : CheckM (List Ty)) (place : Span) :
    callRule name places args place = functionRule name places.length args place := by
  have hget : ¬ (name == "get") = true := by
    intro hname
    rw [eq_of_beq hname] at hgeneric
    exact absurd hgeneric (by decide +kernel)
  have hpush : ¬ (name == "push") = true := by
    intro hname
    rw [eq_of_beq hname] at hgeneric
    exact absurd hgeneric (by decide +kernel)
  rw [callRule, if_neg hconstructor, if_neg hget, if_neg hpush]

theorem functionRule_type {name : String} {c : Checker} {signature : Signature}
    (h : c.env.fn? name = some signature) (count : Nat) (args : CheckM (List Ty)) (place : Span) :
    (functionRule name count args place c).1 = signature.returns := by
  rw [functionRule_of_some h]
  split <;> rfl

/-- In an accepted program a call has the type of what its name calls. -/
theorem Program.Visits.types {p : Program} (hnil : (Checker.new.check p).findings = [])
    {name : String} {nameSpan? : Option Span} {args : List Expr} {span? : Option Span} {c : Checker}
    (h : p.Visits (.call (.name name nameSpan?) args span?) c) :
    (p.callee name).Types name c (checkExpr (.call (.name name nameSpan?) args span?) c).1 := by
  have hfound := h.findings hnil
  have hfn := (h.fn? name).trans (p.root_fn? name)
  rw [callee]
  simp only [checkExpr] at hfound ⊢
  split
  · next hconstructor => exact hconstructor
  · next hconstructor =>
    split
    · next b hgeneric =>
      obtain ⟨hb, hisGeneric⟩ := Option.filter_eq_some_iff.mp hgeneric
      exact ⟨hb, fun hnot => absurd hisGeneric (by rw [hnot]; exact Bool.false_ne_true)⟩
    · next hgeneric =>
      rw [callRule_of_function hconstructor hgeneric] at hfound ⊢
      split
      · next f hdeclared =>
        rw [hdeclared] at hfn
        exact ⟨hfn, functionRule_type hfn ..⟩
      · next hdeclared =>
        rw [hdeclared] at hfn
        split
        · next b hb =>
          rw [hb] at hfn
          exact ⟨hb, fun _ => ⟨hfn, functionRule_type hfn ..⟩⟩
        · next hb =>
          rw [hb] at hfn
          refine ⟨hfn, ?_⟩
          rw [functionRule_of_none hfn] at hfound ⊢
          split at hfound
          · next hany =>
            rw [if_pos hany]
            exact ⟨hany, rfl⟩
          · exact absurd hfound (reported_ne_nil _ _ _ _)

/-! ### Calls where they stand -/

def Spot.bound (spot : Spot) : List String := spot.around.flatMap Pattern.texts

/-- A template stands in a text with its places filled, if no pattern around the spot binds a word of
it. -/
def Spot.Fills (spot : Spot) (b : Builtin) (codes : List String) (text : String) : Prop :=
  (∀ word ∈ b.words, word ∉ spot.bound) →
    ∃ call, Piece.fill codes b.template = .ok call ∧ StandsIn call text

/-- How a call by name is written where it stands: the patterns around it are bound in its arguments,
and in its name or the template. -/
theorem Shown.call {spot : Spot} {text name : String} {nameSpan? : Option Span} {args : List Expr}
    {span? : Option Span} (h : Shown [] spot text)
    (hspot : spot.expr = .call (.name name nameSpan?) args span?) :
    ∃ (binds : List (Pattern × Nat)) (codes : List String), binds.map Prod.fst = spot.around ∧
      List.Forall₂ Expr.Spells args codes ∧
      (Builtin.find? name = none → name ∉ spot.bound →
        StandsIn (name ++ "(" ++ commaList (codes.map (rebind binds)) ++ ")") text) ∧
      ∀ b, Builtin.find? name = some b → spot.Fills b (codes.map (rebind binds)) text := by
  obtain ⟨binds, own, haround, hbinds, hwords, ⟨n, n', hown⟩, hstands⟩ := h
  rw [List.append_nil] at haround
  rw [hspot] at hown hwords
  rw [emitExpr] at hown
  obtain ⟨codes, l, hargs, hown⟩ := EmitM.of_bind_eq_ok hown
  obtain ⟨htemplate, hplain, -⟩ := of_namedCallCode hown
  have hwordwise := rebind_wordwise hbinds
  -- A word is left alone by all patterns if none of them binds it.
  have hfree : ∀ word, word.toList.all isWordChar = true → word ∉ spot.bound →
      rebind binds word = word := by
    intro word hword hbound
    refine rebind_of_not_mem hbinds hword fun bind hbind hmem => hbound ?_
    rw [Spot.bound, haround]
    exact List.mem_flatMap.mpr ⟨bind.1, List.mem_map_of_mem hbind, hmem⟩
  refine ⟨binds, codes, haround.symm, emitExprs_spells hargs, fun hnone hname => ?_,
    fun b hb hbound => ?_⟩
  · have hformed : (Word.name name).Formed := hwords _ (by simp)
    have hcall := hwordwise.callText name codes
    rw [hfree name hformed.name.2 hname] at hcall
    rw [← hcall, ← hplain hnone]
    exact hstands
  · refine ⟨_, ?_, hstands⟩
    have hspaced := Builtin.all_spaced b (Builtin.of_find? hb).1
    rw [hwordwise.fill codes hspaced, htemplate b hb]
    · rfl
    · intro s hs
      refine hwordwise.of_words fun word hword hchars => hfree word hchars (hbound word ?_)
      exact List.mem_flatMap.mpr ⟨.text s, hs, hword⟩

theorem Program.find?_of_callee {p : Program} {name : String} {b : Builtin}
    (h : p.callee name = .builtin b) : Builtin.find? name = some b := by
  rw [callee] at h
  split at h
  · cases h
  · split at h
    · next hgeneric =>
      cases h
      exact (Option.filter_eq_some_iff.mp hgeneric).1
    · split at h
      · cases h
      · split at h
        · next hb =>
          cases h
          exact hb
        · cases h

/-! ### Compiled texts -/

/-- A call of a name with arguments stands at a spot of a program with a text.  It is typed as what
the name stands for.  Unless it is dropped with an argument that a template has no place for, it is
written in the text, where the patterns around it are bound in its arguments. -/
structure Spot.Resolved (p : Program) (text : String) (spot : Spot) (name : String)
    (args : List Expr) : Prop where
  typed : ∀ c, p.Visits spot.expr c → (p.callee name).Types name c (checkExpr spot.expr c).1
  written : spot.dropped = false →
    ∃ (binds : List (Pattern × Nat)) (codes : List String), binds.map Prod.fst = spot.around ∧
      List.Forall₂ Expr.Spells args codes ∧
      (∀ f, p.callee name = .declared f → Builtin.find? name = none → name ∉ spot.bound →
        StandsIn (name ++ "(" ++ commaList (codes.map (rebind binds)) ++ ")") text) ∧
      (∀ f b, p.callee name = .declared f → Builtin.find? name = some b →
        spot.Fills b (codes.map (rebind binds)) text) ∧
      ∀ b, p.callee name = .builtin b → spot.Fills b (codes.map (rebind binds)) text

/-- **Check and emission call the same.**  In a compiled text, a call that is typed as one of a
function that the program declares is written as a call of it, with all the arguments, if no built-in
function has its name and no pattern around it binds the name; if a built-in function has the name,
its template is written instead.  A call that is typed as one of a built-in function is written by
the template, if no pattern around it binds a word of the template. -/
theorem compile_resolves {source text : String} (h : compile true source = .ok text) :
    ∃ p, readProgram Span.unknownFile source = .ok p ∧
      ∀ spot ∈ p.spots, ∀ name nameSpan? args span?,
        spot.expr = .call (.name name nameSpan?) args span? → spot.Resolved p text name args := by
  obtain ⟨p, hread, haccepted, hemit⟩ := of_compile_eq_ok h
  obtain ⟨file, n, hrun, rfl⟩ := Program.of_emit_eq_ok hemit
  obtain ⟨gs, hlaid, -⟩ := emitProgram_laid hrun
  obtain ⟨tokens, htokens, hparse⟩ := of_readProgram_eq_ok hread
  obtain ⟨hfunctions, hstatements⟩ := parse_formed htokens hparse
  refine ⟨p, hread, fun spot hspot name nameSpan? args span? hcall => ⟨?_, fun hkept => ?_⟩⟩
  · rw [hcall]
    exact fun c hvisits => hvisits.types (haccepted rfl)
  · have hplain : spot.expr.isQuestion = false := by
      rw [hcall]
      rfl
    obtain ⟨binds, codes, haround, hcodes, hnamed, hfilled⟩ :=
      (hlaid.shown hfunctions hstatements hspot hkept hplain 0).call hcall
    exact ⟨binds, codes, haround, hcodes, fun f _ => hnamed, fun f b _ => hfilled b,
      fun b hb => hfilled b (Program.find?_of_callee hb)⟩

/-- A call of a function in an arm, and a call of a built-in function in its argument. -/
theorem compile_resolves_in_arm :
    ∃ (p : Program) (text : String),
      compile true ("fn inc(n) -> Int \x7b return n + 1 \x7d\n" ++
        "let y = match Some(2) \x7b Some(x) => inc(len([x])), None => 0 \x7d") = .ok text ∧
      p.spots.filterMap (·.expr.calledName?) = ["Some", "inc", "len"] ∧
      (p.callee "inc").isDeclared = true ∧ (p.callee "len").isDeclared = false ∧
      ∀ spot ∈ p.spots, ∀ name nameSpan? args span?,
        spot.expr = .call (.name name nameSpan?) args span? → spot.Resolved p text name args := by
  obtain ⟨text, p, h, hread, hcalls, hinc, hlen⟩ := exists_compiled
    ("fn inc(n) -> Int \x7b return n + 1 \x7d\n" ++
      "let y = match Some(2) \x7b Some(x) => inc(len([x])), None => 0 \x7d")
    (fun p => p.spots.filterMap (·.expr.calledName?) = ["Some", "inc", "len"] ∧
      (p.callee "inc").isDeclared = true ∧ (p.callee "len").isDeclared = false)
    toList_ofList_append (by decide +kernel)
  obtain ⟨p', hread', hresolved⟩ := compile_resolves h
  obtain rfl := Except.ok.inj (hread.symm.trans hread')
  exact ⟨p, text, h, hcalls, hinc, hlen, hresolved⟩

/-- Compiled texts in which a function that the program declares is called otherwise: one with the
name of a built-in function loses an argument, one whose name is bound by a pattern is not called,
and one in an argument that a template has no place for is lost. -/
theorem compile_redirects :
    ((readProgram Span.unknownFile
        "fn len(a, b) -> Int \x7b return a \x7d\nlet x = len(1, 2)").toOption.any
          fun p => (p.callee "len").isDeclared) = true ∧
      (compile true "fn len(a, b) -> Int \x7b return a \x7d\nlet x = len(1, 2)").toOption =
        some "def len(a, b):\n    return a\n\nx = len(1)" ∧
    ((readProgram Span.unknownFile
        "fn x() -> Int \x7b return 1 \x7d\nlet y = match Some(2) \x7b Some(x) => x(), None => 0 \x7d").toOption.any
          fun p => (p.callee "x").isDeclared) = true ∧
      (compile true
        "fn x() -> Int \x7b return 1 \x7d\nlet y = match Some(2) \x7b Some(x) => x(), None => 0 \x7d").toOption =
        some ("def x():\n    return 1\n\ny = ((lambda __match_0: (__match_0.value() if " ++
          "__match_0 is not None and hasattr(__match_0, 'value') else 0))(Some(2)))") ∧
    ((readProgram Span.unknownFile
        "fn f(n) -> Int \x7b return n \x7d\nprint(1, f(2))").toOption.any
          fun p => (p.callee "f").isDeclared) = true ∧
      (compile true "fn f(n) -> Int \x7b return n \x7d\nprint(1, f(2))").toOption =
        some "def f(n):\n    return n\n\nprint(1)" := by
  refine ⟨?_, ?_, ?_, ?_, ?_, ?_⟩
  · rw [readProgram_of_toList String.toList_ofList]
    decide +kernel
  · rw [compile_of_toList String.toList_ofList]
    decide +kernel
  · rw [readProgram_of_toList String.toList_ofList]
    decide +kernel
  · rw [compile_of_toList String.toList_ofList]
    decide +kernel
  · rw [readProgram_of_toList String.toList_ofList]
    decide +kernel
  · rw [compile_of_toList String.toList_ofList]
    decide +kernel

end Owl
