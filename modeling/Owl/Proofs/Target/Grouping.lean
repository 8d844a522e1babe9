/-
What an emitted value is read as.

Operators are emitted in brackets, but calls of built-in functions are not: a template
is filled with texts, and what it gives is put into other texts as it is.  So the text
of a value need not be read as the value was meant.
-/
import Owl.Proofs.Target.Phrases

namespace Owl

open EmitM Text Target

variable {s name : String}

/-! ### Trees of expressions -/

section Trees

/-! The words of an expression are changed by `f`, which is what arms around it make of them. -/

variable (f : String → String)

/-- A number without a sign.  Those without a numeral have a name. -/
def unsignedTree (s : String) : Tree :=
  if s == "nan" || s == "inf" then pathTree (f s) else .number s

def numberTree (s : String) : Tree :=
  if s.toList.head? == some '-' then .neg (unsignedTree f (String.ofList (s.toList.drop 1)))
  else unsignedTree f s

/-- A call by name, which may be that of a built-in function. -/
def callTree (name : String) (args : List Tree) : Tree :=
  match name, args with
  | "print", a :: _ => .call (pathTree (f "print")) [a]
  | "len", a :: _ => .call (pathTree (f "len")) [a]
  | "is_empty", a :: _ => .compare (.call (pathTree (f "len")) [a]) [(.eq, .number "0")]
  | "get", a :: i :: _ => .index a i
  | "push", a :: x :: _ => .binary .add a (.list [x])
  | "range", a :: b :: _ => .call (pathTree (f "range")) [a, b]
  | name, args => .call (pathTree (f name)) args

def Pattern.testTree (temp : String) : Pattern → Tree
  | .some .. => .both (.compare (.name temp) [(.isNot, .name "None")])
      (.call (pathTree (f "hasattr")) [.name temp, .string (f "value")])
  | .none _ => .compare (.name temp) [(.is, .name "None")]
  | .ok .. => .call (pathTree (f "isinstance")) [.name temp, pathTree (f "Ok")]
  | .err .. => .call (pathTree (f "isinstance")) [.name temp, pathTree (f "Err")]
  | .unknown => .name "True"

def operationTree (op : String) (left right : Tree) : EmitM Tree :=
  match Op.ofText? op with
  | some o => return o.apply left right
  | none => fail (.unknownExpr op)

def signTree (op : String) (operand : Tree) : EmitM Tree :=
  if op == "-" then return .neg operand else fail (.unknownExpr op)

end Trees

mutual

/-- The tree that an expression stands for. -/
def exprTree (f : String → String) : Expr → EmitM Tree
  | .int value _ => return numberTree f (toString value)
  | .float value _ => return numberTree f value.text
  | .string value _ => return .string (f (escaped value))
  | .bool value _ => return .name (boolText value)
  | .name name _ => return pathTree (f name)
  | .binary left op right _ => do
    let leftTree ← exprTree f left
    let rightTree ← exprTree f right
    operationTree op leftTree rightTree
  | .unary op operand _ => do
    signTree op (← exprTree f operand)
  | .call (.name name _) args _ => do
    return callTree f name (← exprsTree f args)
  | .call callee args _ => do
    let calleeTree ← exprTree f callee
    return .call calleeTree (← exprsTree f args)
  | .field object field _ => do
    return fieldsTree (← exprTree f object) (f field)
  | .propagate operand _ => do
    return fieldsTree (← exprTree f operand) (f "value")
  | .list elements _ => do
    return .list (← exprsTree f elements)
  | .matching subject arms _ => do
    let subjectTree ← exprTree f subject
    let temp := "__match_" ++ toString (← fresh)
    let choice ← armsTree f temp arms
    return .call (.lambda temp choice) [subjectTree]
  | .stmt s => fail (.unknownExpr s.kindName)
  | .unknown => fail (.unknownExpr "Expr")

def exprsTree (f : String → String) : List Expr → EmitM (List Tree)
  | [] => return []
  | e :: es => do
    let first ← exprTree f e
    return first :: (← exprsTree f es)

def armsTree (f : String → String) (temp : String) : List Arm → EmitM Tree
  | [] => return .name "None"
  | [⟨pattern, body, _⟩] => exprTree (fun s => f (pattern.bind temp s)) body
  | ⟨pattern, body, _⟩ :: arms => do
    let first ← exprTree (fun s => f (pattern.bind temp s)) body
    let rest ← armsTree f temp arms
    return .choose first (pattern.testTree f temp) rest

end

/-! ### Expressions that can be read -/

def Expr.isNumber : Expr → Bool
  | .int .. | .float .. => true
  | _ => false

mutual

/-- Whether an expression is written in symbols of the target: its names are names there, its
strings have no line breaks, and its operators are known. -/
def Expr.isReadable : Expr → Bool
  | .string value _ => !value.toList.any isLineBreak
  | .name name _ => isIdentifier name || constants.contains name
  | .binary left op right _ => (Op.ofText? op).isSome && left.isReadable && right.isReadable
  | .unary op operand _ => op == "-" && operand.isReadable
  | .call callee args _ => callee.isReadable && exprsReadable args
  | .field object field _ => isIdentifier field && !object.isNumber && object.isReadable
  | .propagate operand _ => operand.isReadable
  | .list elements _ => exprsReadable elements
  | .matching subject arms _ => subject.isReadable && armsReadable arms
  | .int .. | .float .. | .bool .. | .stmt _ | .unknown => true

/-- Whether the expressions are written in symbols of the target. -/
def exprsReadable : List Expr → Bool
  | [] => true
  | e :: es => e.isReadable && exprsReadable es

def armsReadable : List Arm → Bool
  | [] => true
  | ⟨pattern, body, _⟩ :: arms => pattern.isReadable && body.isReadable && armsReadable arms

end

def numberLevel (s : String) : Level := if s.toList.head? == some '-' then .unary else .primary

def callLevel (name : String) : Level :=
  if name == "push" then .sum else if name == "is_empty" then .comparison else .primary

/-- How tightly what is emitted for an expression binds. -/
def Expr.level : Expr → Level
  | .int value _ => numberLevel (toString value)
  | .float value _ => numberLevel value.text
  | .call (.name callee _) _ _ => callLevel callee
  | _ => .primary

/-- Whether a point can stand behind what is emitted for an expression. -/
def Expr.isDotted : Expr → Bool
  | .int .. | .float .. => false
  | .call (.name callee _) _ _ => callee != "is_empty"
  | _ => true

/-- Whether an expression binds at least as tightly as a level. -/
def Expr.isAt (level : Level) (e : Expr) : Bool := decide (level.order ≤ e.level.order)

/-- What the first argument of a call by name must be, which for two functions is written without
brackets around it. -/
def firstLevel (name : String) : Level :=
  if name == "get" then .primary else if name == "push" then .sum else .whole

/-- Whether what is called, or else the first argument, binds tightly enough for the place in which
a call puts it. -/
def Expr.takes (args : List Expr) : Expr → Bool
  | .name callee _ => args.head?.all (·.isAt (firstLevel callee))
  | callee => callee.isAt .primary

mutual

/-- Whether each operand binds tightly enough for the place where it is written. -/
def Expr.isGrouped : Expr → Bool
  | .binary left op right _ =>
    (Op.ofText? op).all (fun o => left.isAt o.left && right.isAt o.right) &&
      left.isGrouped && right.isGrouped
  | .unary _ operand _ => operand.isAt .unary && operand.isGrouped
  | .call callee args _ => callee.takes args && callee.isGrouped && exprsGrouped args
  | .field object _ _ => object.isAt .primary && object.isGrouped
  | .propagate operand _ => operand.isGrouped
  | .list elements _ => exprsGrouped elements
  | .matching subject arms _ => subject.isGrouped && armsGrouped arms
  | .int .. | .float .. | .string .. | .bool .. | .name .. | .stmt _ | .unknown => true

/-- Whether the operands in the expressions bind tightly enough. -/
def exprsGrouped : List Expr → Bool
  | [] => true
  | e :: es => e.isGrouped && exprsGrouped es

def armsGrouped : List Arm → Bool
  | [] => true
  | ⟨_, body, _⟩ :: arms => body.isGrouped && armsGrouped arms

end

/-! ### Numbers, tests and calls -/

section Values

variable {f : String → String} (hf : Renaming f)

theorem unsignedTree_numeral {cs : List Char} (hcs : IsNumeral cs) :
    unsignedTree f (String.ofList cs) = .number (String.ofList cs) := by
  have hname : (String.ofList cs == "nan" || String.ofList cs == "inf") = false := by
    obtain ⟨c, rest, rfl, hc⟩ := hcs.starts
    have hne : ∀ (d : Char) (ds : List Char), d.isDigit = false →
        String.ofList (c :: rest) ≠ String.ofList (d :: ds) := by
      intro d ds hd heq
      rw [← String.toList_inj, String.toList_ofList, String.toList_ofList] at heq
      rw [(List.cons.inj heq).1, hd] at hc
      cases hc
    rw [Bool.or_eq_false_iff, beq_eq_false_iff_ne, beq_eq_false_iff_ne]
    exact ⟨hne 'n' ['a', 'n'] rfl, hne 'i' ['n', 'f'] rfl⟩
  rw [unsignedTree, hname, if_neg Bool.false_ne_true]

theorem head?_unsigned (h : IsUnsigned s) : (s.toList.head? == some '-') = false := by
  cases h with
  | @numeral cs hcs =>
    obtain ⟨c, rest, rfl, hc⟩ := hcs.starts
    rw [String.toList_ofList, List.head?_cons, beq_eq_false_iff_ne]
    rintro ⟨⟩
    cases hc
  | nan => rfl
  | inf => rfl

theorem numberTree_unsigned (h : IsUnsigned s) : numberTree f s = unsignedTree f s := by
  rw [numberTree, head?_unsigned h, if_neg Bool.false_ne_true]

theorem numberTree_negated (s : String) : numberTree f ("-" ++ s) = .neg (unsignedTree f s) := by
  have hhead : (("-" ++ s).toList.head? == some '-') = true := by
    rw [String.toList_append]
    rfl
  have hrest : String.ofList (("-" ++ s).toList.drop 1) = s := by
    rw [String.toList_append]
    exact String.ofList_toList
  rw [numberTree, if_pos hhead, hrest]

include hf

theorem unsigned_reads (h : IsUnsigned s) : ReadAs .primary false (f s) (unsignedTree f s) := by
  cases h with
  | numeral hcs =>
    rw [unsignedTree_numeral hcs, hf.numeral hcs]
    exact .numeral hcs
  | nan => exact (ReadAs.path (hf.path "nan" (by decide))).undotted
  | inf => exact (ReadAs.path (hf.path "inf" (by decide))).undotted

theorem number_reads (h : IsSigned s) : ReadAs (numberLevel s) false (f s) (numberTree f s) := by
  cases h with
  | plain hs =>
    rw [numberLevel, head?_unsigned hs, numberTree_unsigned hs]
    exact unsigned_reads hf hs
  | @negated s hs =>
    have hhead : (("-" ++ s).toList.head? == some '-') = true := by
      rw [String.toList_append]
      rfl
    rw [numberLevel, if_pos hhead, numberTree_negated, hf.wordwise.shut_append _ _ (by decide),
      hf.wordwise.blank "-" (by decide)]
    exact ((unsigned_reads hf hs).weaken (by decide)).neg

theorem name_reads (h : (isIdentifier s || constants.contains s) = true) :
    ReadAs .primary true (f s) (pathTree (f s)) := by
  rw [Bool.or_eq_true] at h
  rcases h with hname | hconstant
  · exact .path (hf.path s hname)
  · simp only [constants, List.contains_eq_mem, List.mem_cons, List.not_mem_nil, or_false,
      decide_eq_true_eq] at hconstant
    rcases hconstant with rfl | rfl | rfl
    all_goals
      rw [hf.fixed _ (by decide) (by decide)]
      exact .name (lexes_constant (by decide))

theorem quoted_reads (h : s.toList.all isWordChar = true) :
    ReadAs .primary true ("'" ++ f s ++ "'") (.string (f s)) := by
  have hlex : LexesFree ("'" ++ f s ++ "'") [.string (f s)] := by
    refine lexes_quoted (q := '\x27') (by decide) fun rest => ?_
    rw [scanString_plain (hf.plain h (by decide))]
    simp [scanString]
  exact ⟨_, hlex.lexes true, .atom fun _ _ _ => rfl⟩

theorem test_reads (p : Pattern) (n : Nat) :
    ReadAs .conjunction true (f (p.test ("__match_" ++ toString n)))
      (p.testTree f ("__match_" ++ toString n)) := by
  have htemp := ReadAs.name (lexes_identifier (isIdentifier_matchName n))
  have hfixed := hf.matchName n
  generalize "__match_" ++ toString n = temp at htemp hfixed
  have hwordwise := hf.wordwise
  -- A test by class: the call has two arguments, the variable and the class.
  have hclass : ∀ s, isIdentifier s = true → ReadAs .conjunction true
      (f ("isinstance(" ++ temp ++ (", " ++ s ++ ")")))
      (.call (pathTree (f "isinstance")) [.name temp, pathTree (f s)]) := by
    intro s hs
    have htext : "isinstance(" ++ temp ++ (", " ++ s ++ ")") =
        "isinstance" ++ "(" ++ commaList [temp, s] ++ ")" := by
      have hfirst : "isinstance(" = "isinstance" ++ "(" := rfl
      rw [hfirst, commaList_cons, commaList_singleton]
      simp only [String.append_assoc]
    rw [htext, hwordwise.callText, List.map_cons, List.map_cons, List.map_nil, hfixed]
    have hcall := (ReadAs.path (hf.path "isinstance" (by decide))).call
      (.cons htemp.whole (.cons (ReadAs.path (hf.path s hs)).whole .nil))
    exact hcall.weaken (by decide)
  cases p with
  | some binding span? =>
    have hnone := (htemp.weaken (by decide)).isNotNone
    have hcall := (ReadAs.path (hf.path "hasattr" (by decide))).call
      (.cons htemp.whole (.cons (quoted_reads hf (s := "value") (by decide)).whole .nil))
    have hboth := hnone.both (hcall.weaken (by decide))
    have hkeep : f " is not None and " = " is not None and " := hf.of_words (by decide +kernel)
    have htext : Pattern.test temp (.some binding span?) =
        temp ++ " is not None and " ++ "hasattr" ++ "(" ++ temp ++ ", '" ++ "value" ++ "')" := by
      have hfirst : " is not None and hasattr(" = " is not None and " ++ "hasattr" ++ "(" := rfl
      have hlast : ", 'value')" = ", '" ++ "value" ++ "')" := rfl
      rw [Pattern.test, hfirst, hlast]
      simp only [String.append_assoc]
    rw [htext, hwordwise.append_apart _ "')" (by decide), hwordwise.between _ (by decide),
      hwordwise.between _ (by decide), hwordwise.joined _ (by decide) (by decide) hkeep, hfixed,
      hwordwise.blank "')" (by decide)]
    have hpieces : temp ++ " is not None and " ++ f "hasattr" ++ "(" ++ temp ++ ", '" ++
        f "value" ++ "')" = temp ++ " is not " ++ "None" ++ " and " ++
          (f "hasattr" ++ "(" ++ commaList [temp, "'" ++ f "value" ++ "'"] ++ ")") := by
      have hfirst : " is not None and " = " is not " ++ "None" ++ " and " := rfl
      have hsecond : ", '" = ", " ++ "'" := rfl
      have hlast : "')" = "'" ++ ")" := rfl
      rw [hfirst, hsecond, hlast, commaList_cons, commaList_singleton]
      simp only [String.append_assoc]
    rw [hpieces]
    exact hboth
  | none span? =>
    have hkeep : f " is None" = " is None" := hf.of_words (by decide +kernel)
    have hlast : " is None" = " is " ++ "None" := rfl
    rw [Pattern.test, hwordwise.append_apart _ _ (by decide), hfixed, hkeep, hlast,
      ← String.append_assoc]
    exact (htemp.weaken (by decide)).isNone.weaken (by decide)
  | ok binding span? =>
    have hlast : ", Ok)" = ", " ++ "Ok" ++ ")" := rfl
    exact hclass "Ok" (by decide)
  | err binding span? =>
    have hlast : ", Err)" = ", " ++ "Err" ++ ")" := rfl
    exact hclass "Err" (by decide)
  | unknown =>
    rw [Pattern.test, hf.fixed "True" (by decide) (by decide)]
    exact (ReadAs.name (lexes_constant (by decide))).weaken (by decide)

end Values

/-! ### Calls of built-in functions -/

/-- The texts of expressions, once changed, are read as trees, each as tightly as its expression
says. -/
inductive ReadsEach (f : String → String) : List Expr → List String → List Tree → Prop
  | nil : ReadsEach f [] [] []
  | cons {e : Expr} {es : List Expr} {code : String} {codes : List String} {t : Tree}
      {trees : List Tree} (head : ReadAs e.level e.isDotted (f code) t)
      (tail : ReadsEach f es codes trees) : ReadsEach f (e :: es) (code :: codes) (t :: trees)

theorem ReadsEach.whole {f : String → String} {es : List Expr} {codes : List String}
    {trees : List Tree} (h : ReadsEach f es codes trees) :
    List.Forall₂ (ReadAs .whole false) (codes.map f) trees := by
  induction h with
  | nil => exact .nil
  | cons head tail ih => exact .cons head.whole ih

theorem readAs_of_isAt {level : Level} {dotted : Bool} {e : Expr} {t : Tree}
    (h : ReadAs e.level dotted s t) (hlevel : e.isAt level = true) : ReadAs level dotted s t :=
  h.weaken (of_decide_eq_true hlevel)

section Calls

variable {f : String → String} {es : List Expr} {codes : List String} {trees : List Tree}
  (h : ReadsEach f es codes trees)

include h

theorem ReadsEach.first {level : Level} (hlevel : es.head?.all (·.isAt level) = true) {a : String}
    (ha : codes[0]? = some a) :
    ∃ (t : Tree) (more : List Tree), trees = t :: more ∧ ReadAs level false (f a) t := by
  cases h with
  | nil => cases ha
  | @cons e es code codes t trees head tail =>
    cases ha
    exact ⟨t, trees, rfl, (readAs_of_isAt head hlevel).undotted⟩

theorem ReadsEach.second {level : Level} (hlevel : es.head?.all (·.isAt level) = true)
    {a b : String} (ha : codes[0]? = some a) (hb : codes[1]? = some b) :
    ∃ (t u : Tree) (more : List Tree), trees = t :: u :: more ∧ ReadAs level false (f a) t ∧
      ReadAs .whole false (f b) u := by
  obtain ⟨t, more, rfl, hfirst⟩ := h.first hlevel ha
  cases h with
  | cons head tail =>
    cases tail with
    | nil => cases hb
    | @cons _ _ _ _ u more head tail =>
      cases hb
      exact ⟨t, u, more, rfl, hfirst, head.whole⟩

/-- What a call of a built-in function is written as is read as what the function stands for. -/
theorem filled_reads (hf : Renaming f) (hs : Filled codes name s)
    (htakes : es.head?.all (·.isAt (firstLevel name)) = true) :
    ReadAs (callLevel name) (name != "is_empty") (f s) (callTree f name trees) := by
  have hwordwise := hf.wordwise
  -- A call of a function that the target knows by the same name.
  have hcall : ∀ (name : String) (args : List String) {us : List Tree}, isIdentifier name = true →
      List.Forall₂ (ReadAs .whole false) (args.map f) us →
      ReadAs .primary true (f (name ++ "(" ++ commaList args ++ ")"))
        (.call (pathTree (f name)) us) := by
    intro name args us hname hargs
    rw [hwordwise.callText]
    exact (ReadAs.path (hf.path name hname)).call hargs
  cases hs with
  | @print a ha =>
    obtain ⟨t, more, rfl, hfirst⟩ := h.first htakes ha
    exact hcall "print" [a] (by decide) (.cons hfirst .nil)
  | @len a ha =>
    obtain ⟨t, more, rfl, hfirst⟩ := h.first htakes ha
    exact hcall "len" [a] (by decide) (.cons hfirst .nil)
  | @isEmpty a ha =>
    obtain ⟨t, more, rfl, hfirst⟩ := h.first htakes ha
    have hlen := hcall "len" [a] (by decide) (.cons hfirst .nil)
    have hzero : ReadAs .primary false "0" (.number "0") := .numeral (.whole isDigits_zero)
    have hkeep : f " == 0" = " == 0" := hf.of_words (by decide +kernel)
    have htext : "len(" ++ a ++ ") == 0" = "len" ++ "(" ++ commaList [a] ++ ")" ++ " == 0" := by
      have hlast : ") == 0" = ")" ++ " == 0" := rfl
      rw [hlast, commaList_singleton, ← String.append_assoc]
      rfl
    have hpieces : ∀ s : String, s ++ " == 0" = s ++ " " ++ "==" ++ " " ++ "0" := by
      intro s
      have hlast : " == 0" = " " ++ "==" ++ " " ++ "0" := rfl
      rw [hlast]
      simp only [String.append_assoc]
    rw [htext, hwordwise.append_apart _ _ (by decide), hkeep, hpieces]
    exact ReadAs.operation (o := .eq) rfl (hlen.weaken (by decide)) (hzero.weaken (by decide))
  | @get a i ha hi =>
    obtain ⟨t, u, more, rfl, hfirst, hsecond⟩ := h.second htakes ha hi
    rw [hwordwise.append_apart _ _ (by decide), hwordwise.between _ (by decide),
      hwordwise.blank "]" (by decide)]
    exact hfirst.index hsecond
  | @push a x ha hx =>
    obtain ⟨t, u, more, rfl, hfirst, hsecond⟩ := h.second htakes ha hx
    have hlist := ReadAs.list (.cons hsecond .nil)
    -- The first list stands in front of the operator as it is, and no brackets are around the sum.
    have hpieces : f a ++ " + [" ++ f x ++ "]" =
        f a ++ " " ++ "+" ++ " " ++ ("[" ++ commaList [f x] ++ "]") := by
      have hfirst : " + [" = " " ++ "+" ++ " " ++ "[" := rfl
      rw [hfirst, commaList_singleton]
      simp only [String.append_assoc]
    rw [hwordwise.append_apart _ _ (by decide), hwordwise.between _ (by decide),
      hwordwise.blank "]" (by decide), hpieces]
    exact ReadAs.add (o := .add) rfl rfl hfirst (hlist.weaken (by decide))
  | @range a b ha hb =>
    obtain ⟨t, u, more, rfl, hfirst, hsecond⟩ := h.second htakes ha hb
    have htext : "range(" ++ a ++ ", " ++ b ++ ")" = "range" ++ "(" ++ commaList [a, b] ++ ")" := by
      have hfirst : "range(" = "range" ++ "(" := rfl
      rw [hfirst, commaList_cons, commaList_singleton]
      simp only [String.append_assoc]
    exact hcall "range" [a, b] (by decide) (.cons hfirst (.cons hsecond .nil))

end Calls

theorem callTree_of_not_builtin (f : String → String) (h : Builtin.find? name = none)
    (args : List Tree) : callTree f name args = .call (pathTree (f name)) args := by
  unfold callTree
  split
  all_goals first
    | rfl
    | exact absurd h (by decide)

theorem exprTree_call_of_ne (f : String → String) {callee : Expr}
    (hname : ¬ ∃ name span?, callee = .name name span?) (args : List Expr) (span? : Option Span) :
    exprTree f (.call callee args span?) = do
      let calleeTree ← exprTree f callee
      return .call calleeTree (← exprsTree f args) := by
  cases callee with
  | name name span? => exact absurd ⟨name, span?, rfl⟩ hname
  | _ => simp only [exprTree]

/-! ### Reading what is emitted -/

theorem blank_of_operator {o : Op} (h : Op.ofText? s = some o) :
    s.toList.all (!isWordChar ·) = true := by
  unfold Op.ofText? at h
  split at h
  all_goals first
    | decide
    | cases h

theorem takes_of_ne {callee : Expr} (hname : ¬ ∃ name span?, callee = .name name span?)
    (args : List Expr) : callee.takes args = callee.isAt .primary := by
  cases callee with
  | name name span? => exact absurd ⟨name, span?, rfl⟩ hname
  | _ => rfl

theorem isDotted_of_primary {e : Expr} (hnumber : e.isNumber = false)
    (hlevel : e.isAt .primary = true) : e.isDotted = true := by
  unfold Expr.isDotted
  split
  · cases hnumber
  · cases hnumber
  · rw [bne_iff_ne]
    rintro rfl
    exact absurd hlevel Bool.false_ne_true
  · rfl

theorem isAt_conjunction (e : Expr) : e.isAt .conjunction = true := by
  have hnumber : ∀ s, Level.conjunction.order ≤ (numberLevel s).order := by
    intro s
    rw [numberLevel]
    split <;> decide
  have hcall : ∀ name, Level.conjunction.order ≤ (callLevel name).order := by
    intro name
    rw [callLevel]
    split
    · decide
    · split <;> decide
  rw [Expr.isAt, decide_eq_true_eq]
  unfold Expr.level
  split
  · exact hnumber _
  · exact hnumber _
  · exact hcall _
  · decide

theorem level_call_of_ne {callee : Expr} (hname : ¬ ∃ name span?, callee = .name name span?)
    (args : List Expr) (span? : Option Span) :
    (Expr.call callee args span?).level = .primary ∧
      (Expr.call callee args span?).isDotted = true := by
  cases callee with
  | name name span? => exact absurd ⟨name, span?, rfl⟩ hname
  | _ => exact ⟨rfl, rfl⟩

theorem named_reads {f : String → String} (hf : Renaming f) {es : List Expr} {codes : List String}
    {trees : List Tree} (h : ReadsEach f es codes trees)
    (hname : (isIdentifier name || constants.contains name) = true)
    (hfind : Builtin.find? name = none) :
    ReadAs (callLevel name) (name != "is_empty") (f (name ++ "(" ++ commaList codes ++ ")"))
      (callTree f name trees) := by
  have hpush : name ≠ "push" := by
    rintro rfl
    exact absurd hfind (by decide)
  have hempty : name ≠ "is_empty" := by
    rintro rfl
    exact absurd hfind (by decide)
  rw [callLevel, beq_false_of_ne hpush, beq_false_of_ne hempty, bne_iff_ne.mpr hempty,
    callTree_of_not_builtin f hfind, hf.wordwise.callText]
  exact (name_reads hf hname).call h.whole

theorem armsTree_cons (f : String → String) (temp : String) (pattern : Pattern) (body : Expr)
    (span? : Option Span) (arm : Arm) (arms : List Arm) :
    armsTree f temp (⟨pattern, body, span?⟩ :: arm :: arms) = do
      let first ← exprTree (fun s => f (pattern.bind temp s)) body
      let rest ← armsTree f temp (arm :: arms)
      return .choose first (pattern.testTree f temp) rest := by
  simp only [armsTree]

mutual

/-- What is emitted for an expression, once its words are changed, is read as the tree of the
expression. -/
theorem emitExpr_reads : ∀ (e : Expr), e.isReadable = true → e.isGrouped = true →
    ∀ {f : String → String}, Renaming f →
    Pairs (emitExpr e) (exprTree f e) fun text t => ReadAs e.level e.isDotted (f text) t
  | .int value _, _, _, f, hf => .pure (number_reads hf (spelled_int value))
  | .float value _, _, _, f, hf => .pure (number_reads hf value.spelled_text)
  | .string value _, hreadable, _, f, hf => by
    rw [Expr.isReadable, Bool.not_eq_true'] at hreadable
    exact .pure (hf.string hreadable)
  | .bool value _, _, _, f, hf => by
    refine .pure ?_
    cases value with
    | true =>
      rw [boolText, if_pos rfl, hf.fixed "True" (by decide) (by decide)]
      exact .name (lexes_constant (by decide))
    | false =>
      rw [boolText, if_neg Bool.false_ne_true, hf.fixed "False" (by decide) (by decide)]
      exact .name (lexes_constant (by decide))
  | .name name _, hreadable, _, f, hf => .pure (name_reads hf hreadable)
  | .binary left op right _, hreadable, hgrouped, f, hf => by
    simp only [Expr.isReadable, Bool.and_eq_true] at hreadable
    simp only [Expr.isGrouped, Bool.and_eq_true] at hgrouped
    obtain ⟨o, ho⟩ := Option.isSome_iff_exists.mp hreadable.1.1
    rw [ho, Option.all_some, Bool.and_eq_true] at hgrouped
    refine (emitExpr_reads left hreadable.1.2 hgrouped.1.2 hf).bind fun l t hl => ?_
    refine (emitExpr_reads right hreadable.2 hgrouped.2 hf).bind fun r u hr => ?_
    rw [operationTree, ho]
    refine .pure ?_
    have hread := (ReadAs.operation ho (readAs_of_isAt hl hgrouped.1.1.1)
      (readAs_of_isAt hr hgrouped.1.1.2)).parens
    rw [hf.wordwise.binaryText (hf.wordwise.blank op (blank_of_operator ho))]
    simpa only [Expr.level, Expr.isDotted, String.append_assoc] using hread
  | .unary op operand _, hreadable, hgrouped, f, hf => by
    simp only [Expr.isReadable, Bool.and_eq_true, beq_iff_eq] at hreadable
    simp only [Expr.isGrouped, Bool.and_eq_true] at hgrouped
    obtain ⟨rfl, hoperand⟩ := hreadable
    refine (emitExpr_reads operand hoperand hgrouped.2 hf).bind fun code t hcode => .pure ?_
    have hread := (readAs_of_isAt hcode hgrouped.1).neg.parens
    rw [hf.wordwise.unaryText (hf.wordwise.blank "-" (by decide)) (by decide)]
    simpa only [Expr.level, Expr.isDotted, String.append_assoc] using hread
  | .call callee args _, hreadable, hgrouped, f, hf => by
    simp only [Expr.isReadable, Bool.and_eq_true] at hreadable
    simp only [Expr.isGrouped, Bool.and_eq_true] at hgrouped
    obtain ⟨⟨htakes, hcallee⟩, hargs⟩ := hgrouped
    have hcodes := emitExprs_reads args hreadable.2 hargs hf
    by_cases hnamed : ∃ name span?, callee = .name name span?
    · obtain ⟨name, span?, rfl⟩ := hnamed
      rw [emitExpr, exprTree]
      refine hcodes.bind fun codes trees heach n n' code hrun => ?_
      -- A template is filled, or the name stands in front of its arguments.
      obtain ⟨hbuiltin, hother, rfl⟩ := of_namedCallCode hrun
      refine ⟨callTree f name trees, rfl, ?_⟩
      show ReadAs (callLevel name) (name != "is_empty") _ _
      cases hfind : Builtin.find? name with
      | some b => exact filled_reads heach hf (filled_of_fill hfind (hbuiltin b hfind)) htakes
      | none =>
        rw [hother hfind]
        exact named_reads hf heach hreadable.1 hfind
    · obtain ⟨hlevel, hdotted⟩ := level_call_of_ne hnamed args _
      rw [takes_of_ne hnamed] at htakes
      rw [emitExpr_call_of_ne hnamed, exprTree_call_of_ne f hnamed, hlevel, hdotted]
      refine (emitExpr_reads callee hreadable.1 hcallee hf).bind fun code t hcode => ?_
      refine hcodes.bind fun codes trees heach => .pure ?_
      rw [hf.wordwise.callText]
      exact (readAs_of_isAt hcode htakes).call heach.whole
  | .field object field _, hreadable, hgrouped, f, hf => by
    simp only [Expr.isReadable, Bool.and_eq_true, Bool.not_eq_true'] at hreadable
    simp only [Expr.isGrouped, Bool.and_eq_true] at hgrouped
    obtain ⟨⟨hfield, hnumber⟩, hobject⟩ := hreadable
    refine (emitExpr_reads object hobject hgrouped.2 hf).bind fun code t hcode => .pure ?_
    rw [isDotted_of_primary hnumber hgrouped.1] at hcode
    rw [hf.wordwise.between _ (by decide)]
    exact (readAs_of_isAt hcode hgrouped.1).fields (hf.path field hfield)
  | .propagate operand _, hreadable, hgrouped, f, hf => by
    rw [Expr.isReadable] at hreadable
    rw [Expr.isGrouped] at hgrouped
    refine (emitExpr_reads operand hreadable hgrouped hf).bind fun code t hcode => .pure ?_
    have htext : f ("(" ++ code ++ ").value") = "(" ++ f code ++ ")" ++ "." ++ f "value" := by
      have hlast : ").value" = ")." ++ "value" := rfl
      have hpoint : ")." = ")" ++ "." := rfl
      rw [hlast, ← String.append_assoc, hf.wordwise.between _ (by decide),
        hf.wordwise.shut_append _ _ (by decide), hf.wordwise.blank "(" (by decide), hpoint]
      simp only [String.append_assoc]
    rw [htext]
    exact hcode.parens.fields (hf.path "value" (by decide))
  | .list elements _, hreadable, hgrouped, f, hf => by
    rw [Expr.isReadable] at hreadable
    rw [Expr.isGrouped] at hgrouped
    refine (emitExprs_reads elements hreadable hgrouped hf).bind fun codes trees heach => .pure ?_
    rw [hf.wordwise.listText]
    exact .list heach.whole
  | .matching subject arms _, hreadable, hgrouped, f, hf => by
    simp only [Expr.isReadable, Bool.and_eq_true] at hreadable
    simp only [Expr.isGrouped, Bool.and_eq_true] at hgrouped
    refine (emitExpr_reads subject hreadable.1 hgrouped.1 hf).bind fun code t hcode => ?_
    refine (Pairs.refl fresh).bind fun number _ hsame => ?_
    subst hsame
    refine (emitArms_reads number arms hreadable.2 hgrouped.2 hf).bind fun choice u hu => .pure ?_
    have hread := ((ReadAs.lambda (isIdentifier_matchName number) hu).parens.call
      (.cons hcode.whole .nil)).parens
    have hfirst : "((lambda " = "(" ++ "(" ++ "lambda " := rfl
    have hmiddle : ")(" = ")" ++ "(" := rfl
    have hlast : "))" = ")" ++ ")" := rfl
    rw [hf.wordwise.matchText (hf.of_words (by decide +kernel)), hf.matchName, hfirst, hmiddle,
      hlast]
    simpa only [Expr.level, Expr.isDotted, commaList_singleton, String.append_assoc] using hread
  | .stmt _, _, _, _, _ | .unknown, _, _, _, _ => .fail _

theorem emitExprs_reads : ∀ (es : List Expr), exprsReadable es = true → exprsGrouped es = true →
    ∀ {f : String → String}, Renaming f →
    Pairs (emitExprs es) (exprsTree f es) fun codes trees => ReadsEach f es codes trees
  | [], _, _, f, hf => .pure .nil
  | e :: es, hreadable, hgrouped, f, hf => by
    rw [exprsReadable, Bool.and_eq_true] at hreadable
    rw [exprsGrouped, Bool.and_eq_true] at hgrouped
    refine (emitExpr_reads e hreadable.1 hgrouped.1 hf).bind fun code t hcode => ?_
    exact (emitExprs_reads es hreadable.2 hgrouped.2 hf).bind fun codes trees heach =>
      .pure (.cons hcode heach)

theorem emitArms_reads (number : Nat) : ∀ (arms : List Arm), armsReadable arms = true →
    armsGrouped arms = true → ∀ {f : String → String}, Renaming f →
    Pairs (emitArms ("__match_" ++ toString number) arms)
      (armsTree f ("__match_" ++ toString number) arms) fun text t => ReadAs .whole false (f text) t
  | [], _, _, f, hf => by
    refine .pure ?_
    rw [hf.fixed "None" (by decide) (by decide)]
    exact (ReadAs.name (lexes_constant (by decide))).whole
  | [⟨pattern, body, _⟩], hreadable, hgrouped, f, hf => by
    simp only [armsReadable, Bool.and_eq_true] at hreadable
    simp only [armsGrouped, Bool.and_eq_true] at hgrouped
    intro n n' text hrun
    rw [emitArms_singleton] at hrun
    obtain ⟨code, k, hbody, hrun⟩ := of_bind_eq_ok hrun
    cases hrun
    -- What the arm makes of its value is one more change of words.
    obtain ⟨t, ht, hread⟩ := emitExpr_reads body hreadable.1.2 hgrouped.1
      (hf.bind hreadable.1.1 number) n n' code hbody
    exact ⟨t, by rw [armsTree, ht], hread.whole⟩
  | ⟨pattern, body, _⟩ :: arm :: arms, hreadable, hgrouped, f, hf => by
    rw [armsReadable, Bool.and_eq_true, Bool.and_eq_true] at hreadable
    rw [armsGrouped, Bool.and_eq_true] at hgrouped
    simp only [emitArms]
    rw [armsTree_cons]
    refine (emitExpr_reads body hreadable.1.2 hgrouped.1 (hf.bind hreadable.1.1 number)).bind
      fun code t hcode => ?_
    refine (emitArms_reads number (arm :: arms) hreadable.2 hgrouped.2 hf).bind
      fun rest v hrest => .pure ?_
    have hchoose := (ReadAs.choose (readAs_of_isAt hcode (isAt_conjunction body))
      (test_reads hf pattern number) hrest).parens.whole
    rw [hf.wordwise.choiceText (hf.of_words (by decide +kernel)) (hf.of_words (by decide +kernel))]
    simpa only [String.append_assoc] using hchoose

end

/-- **Values keep their grouping.**  Where each operand binds tightly enough for the place where it
is written, what is emitted for an expression is read as the tree of the expression: each call of a
built-in function is one operand of what it stands in. -/
theorem emit_grouped (e : Expr) (hreadable : e.isReadable = true) (hgrouped : e.isGrouped = true)
    (n n' : Nat) (text : String) (hrun : emitExpr e n = (.ok text, n')) :
    ∃ t, exprTree (fun s => s) e n = (.ok t, n') ∧ Target.read text = some t := by
  obtain ⟨t, ht, hread⟩ := emitExpr_reads e hreadable hgrouped .id n n' text hrun
  exact ⟨t, ht, hread.read_eq⟩

/-- Lists that grow twice, a sign in front of a call, and an index behind another one. -/
theorem emit_grouped_comparison :
    emitExpr (.binary (.call (.name "push" none) [.call (.name "push" none)
        [.name "xs" none, .int 1 none] none, .unary "-" (.call (.name "len" none)
          [.name "xs" none] none) none] none) "==" (.call (.name "get" none)
        [.call (.name "get" none) [.name "xs" none, .int 0 none] none, .int 1 none] none) none) 0 =
        (.ok "(xs + [1] + [(-len(xs))] == xs[0][1])", 0) ∧
      Target.read "(xs + [1] + [(-len(xs))] == xs[0][1])" = some (.compare
        (.binary .add (.binary .add (.name "xs") (.list [.number "1"]))
          (.list [.neg (.call (.name "len") [.name "xs"])]))
        [(.eq, .index (.index (.name "xs") (.number "0")) (.number "1"))]) := by
  have hrun : emitExpr (.binary (.call (.name "push" none) [.call (.name "push" none)
        [.name "xs" none, .int 1 none] none, .unary "-" (.call (.name "len" none)
          [.name "xs" none] none) none] none) "==" (.call (.name "get" none)
        [.call (.name "get" none) [.name "xs" none, .int 0 none] none, .int 1 none] none) none) 0 =
      (.ok "(xs + [1] + [(-len(xs))] == xs[0][1])", 0) := by rfl
  refine ⟨hrun, ?_⟩
  obtain ⟨t, ht, hread⟩ := emit_grouped _ (by rfl) (by rfl) 0 0 _ hrun
  have htree : t = .compare
      (.binary .add (.binary .add (.name "xs") (.list [.number "1"]))
        (.list [.neg (.call (.name "len") [.name "xs"])]))
      [(.eq, .index (.index (.name "xs") (.number "0")) (.number "1"))] := by
    cases ht
    rfl
  rw [hread, htree]

/-- An index takes hold of the list that is added, and not of the sum. -/
theorem emit_ungrouped :
    (compile false "let x = get(push(xs, 1), 0)").toOption = some "x = xs + [1][0]" ∧
      emitExpr (.call (.name "get" none) [.call (.name "push" none)
        [.name "xs" none, .int 1 none] none, .int 0 none] none) 0 = (.ok "xs + [1][0]", 0) ∧
      exprTree (fun s => s) (.call (.name "get" none) [.call (.name "push" none)
        [.name "xs" none, .int 1 none] none, .int 0 none] none) 0 =
        (.ok (.index (.binary .add (.name "xs") (.list [.number "1"])) (.number "0")), 0) ∧
      Target.read "xs + [1][0]" =
        some (.binary .add (.name "xs") (.index (.list [.number "1"]) (.number "0"))) ∧
      Target.read "xs + [1][0]" ≠
        some (.index (.binary .add (.name "xs") (.list [.number "1"])) (.number "0")) := by
  have hread : Target.read "xs + [1][0]" =
      some (.binary .add (.name "xs") (.index (.list [.number "1"]) (.number "0"))) := by rfl
  refine ⟨?_, by rfl, by rfl, hread, ?_⟩
  · rw [compile_of_toList String.toList_ofList]
    decide +kernel
  · rw [hread]
    intro heq
    cases heq

end Owl
