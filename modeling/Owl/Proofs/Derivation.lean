/-
How trees come from tokens.

Whatever tokens there are, a tree that is read from them is built in few ways, its
span is drawn from the spans of its parts and of some of its tokens, and it is
written with the words of all of them.  Reading always ends, and never behind the end
mark.  This is said once, of the grammars; what holds of all readings then follows
from it.

* `Parser.Consumes file n d k p post` — reading in the file, `p` takes at least `k`
  tokens, and `post` holds of what it reads, of some of these and of the words of all
  of them; or, if with `d` others there are fewer than `n`, it fails at a token that it
  has come to, or stops at a numeral that cannot be read;
* `expr_read`, `statement_read`, `item_read` — this holds of the grammars, for every
  `n` that is smaller than their bound.
-/
import Owl.Proofs.Recovery.Ending
import Owl.Proofs.Writing

namespace Owl

open Owl.Parser

variable {us ts : List Token} {j : Nat} {r : Reading} {isOp : TokenKind → Bool}

/-! ### Trees and tokens -/

/-- Values one after another, each with tokens of its own. -/
inductive Parser.Parts {α : Type} (P : α → List Token → Prop) : List α → List Token → Prop
  | nil : Parts P [] []
  | cons {a : α} {as : List α} {us vs : List Token} (first : P a us) (more : Parts P as vs) :
      Parts P (a :: as) (us ++ vs)

/-- A written type none of whose parts has a place. -/
inductive TypeExpr.Unplaced : TypeExpr → Prop
  | mk (name : String) {params : List TypeExpr} (hparams : ∀ ty ∈ params, ty.Unplaced) :
      Unplaced (.mk name params none)

/-- A parameter without a place, as its type is. -/
structure Param.Unplaced (param : Param) : Prop where
  span? : param.span? = none
  type? : ∀ ty ∈ param.type?, ty.Unplaced

/-- An import without a place. -/
inductive Import.Unplaced : Import → Prop
  | whole (module : String) (alias? : Option String) : Unplaced (.whole module alias? none)
  | names (module : String) (pairs : List (String × Option String)) :
      Unplaced (.names module pairs none)

mutual

/-- How an expression is built from tokens. -/
inductive Expr.Read (file : String) : Expr → List Token → Prop
  | int (value : Int) (t : Token) : Expr.Read file (.int value (some (t.span file))) [t]
  | float (value : Binary64) (t : Token) : Expr.Read file (.float value (some (t.span file))) [t]
  | string (t : Token) : Expr.Read file (.string t.text (some (t.span file))) [t]
  | bool (value : Bool) (t : Token) : Expr.Read file (.bool value (some (t.span file))) [t]
  | name (t : Token) : Expr.Read file (.name t.text (some (t.span file))) [t]
  | binary {left right : Expr} {us vs : List Token} (hleft : Expr.Read file left us) (op : Token)
      (hright : Expr.Read file right vs) :
      Expr.Read file (.binary left op.text right (mergeSpans? left.span? right.span?)) (us ++ vs)
  | unary {operand : Expr} {us : List Token} (op : Token) (hoperand : Expr.Read file operand us) :
      Expr.Read file (.unary op.text operand (some (extend (op.span file) operand.span?)))
        (op :: us)
  | call {callee : Expr} {args : List Expr} {us vs : List Token}
      (hcallee : Expr.Read file callee us) (opening : Token)
      (hargs : Parts (Expr.Read file) args vs) (closing : Token) :
      Expr.Read file (.call callee args
        (some ((callee.span?.getD (opening.span file)).merge (closing.span file))))
        (us ++ vs ++ [closing])
  | field {object : Expr} {us : List Token} (hobject : Expr.Read file object us) (name : Token) :
      Expr.Read file (.field object name.text
        (some ((object.span?.map (·.merge (name.span file))).getD (name.span file))))
        (us ++ [name])
  | propagate {operand : Expr} {us : List Token} (hoperand : Expr.Read file operand us)
      (mark : Token) :
      Expr.Read file (.propagate operand
        (some ((operand.span?.map (·.merge (mark.span file))).getD (mark.span file))))
        (us ++ [mark])
  | list {elements : List Expr} {us : List Token} (opening : Token)
      (helements : Parts (Expr.Read file) elements us) (closing : Token) :
      Expr.Read file (.list elements (some ((opening.span file).merge (closing.span file))))
        (opening :: (us ++ [closing]))
  | matching {subject : Expr} {arms : List Arm} {us vs : List Token} (keyword : Token)
      (hsubject : Expr.Read file subject us) (harms : Parts (Arm.Read file) arms vs) :
      Expr.Read file (.matching subject arms (some (keyword.span Span.unknownFile)))
        (keyword :: (us ++ vs))

/-- How an arm of a match is built from tokens, the first of which is the pattern's name. -/
inductive Arm.Read (file : String) : Arm → List Token → Prop
  | mk {pattern : Pattern} {body : Expr} {us : List Token} (name : Token)
      (hpattern : pattern.span? = some (name.span Span.unknownFile))
      (hbody : Expr.Read file body us) : Arm.Read file ⟨pattern, body, none⟩ (name :: us)

end

/-- How a statement is built from tokens. -/
inductive Stmt.Read (file : String) : Stmt → List Token → Prop
  | letVar {value : Expr} {type? : Option TypeExpr} {us : List Token} (keyword name : Token)
      (isMutable : Bool) (htype : ∀ ty ∈ type?, ty.Unplaced) (hvalue : value.Read file us) :
      Read file (.letVar name.text value type? isMutable
        (some (extend (keyword.span file) value.span?))) (keyword :: name :: us)
  | assign {value : Expr} {us : List Token} (name : Token) (hvalue : value.Read file us) :
      Read file (.assign name.text value (some (extend (name.span file) value.span?)))
        (name :: us)
  | expr {e : Expr} {us : List Token} (he : e.Read file us) : Read file (.expr e e.span?) us
  | ret (keyword : Token) : Read file (.ret none (some (keyword.span file))) [keyword]
  | retValue {value : Expr} {us : List Token} (keyword : Token) (hvalue : value.Read file us) :
      Read file (.ret (some value) (some (extend (keyword.span file) value.span?)))
        (keyword :: us)
  | whileLoop {condition : Expr} {body : List Stmt} {us vs : List Token} (keyword : Token)
      (hcondition : condition.Read file us) (hbody : Parts (Stmt.Read file) body vs) :
      Read file (.whileLoop condition body (some (keyword.span file))) (keyword :: (us ++ vs))
  | forLoop {collection : Expr} {body : List Stmt} {us vs : List Token} (keyword item : Token)
      (hcollection : collection.Read file us) (hbody : Parts (Stmt.Read file) body vs) :
      Read file (.forLoop item.text collection body (some (keyword.span file)))
        (keyword :: item :: (us ++ vs))
  | loop {body : List Stmt} {us : List Token} (keyword : Token)
      (hbody : Parts (Stmt.Read file) body us) :
      Read file (.loop body (some (keyword.span file))) (keyword :: us)
  | breakLoop (keyword : Token) : Read file (.breakLoop (some (keyword.span file))) [keyword]
  | continueLoop (keyword : Token) : Read file (.continueLoop (some (keyword.span file))) [keyword]
  | ifThen {condition : Expr} {thenBody : List Stmt} {us vs : List Token} (keyword : Token)
      (hcondition : condition.Read file us) (hthen : Parts (Stmt.Read file) thenBody vs) :
      Read file (.ifElse condition thenBody none (some (keyword.span file)))
        (keyword :: (us ++ vs))
  | ifElse {condition : Expr} {thenBody elseBody : List Stmt} {us vs ws : List Token}
      (keyword : Token) (hcondition : condition.Read file us)
      (hthen : Parts (Stmt.Read file) thenBody vs) (helse : Parts (Stmt.Read file) elseBody ws) :
      Read file (.ifElse condition thenBody (some elseBody) (some (keyword.span file)))
        (keyword :: (us ++ (vs ++ ws)))

/-- How a function is built from tokens. -/
inductive FnDecl.Read (file : String) : FnDecl → List Token → Prop
  | mk {params : List Param} {body : List Stmt} {returns? : Option TypeExpr} {us : List Token}
      (keyword name : Token) (hparams : ∀ param ∈ params, param.Unplaced)
      (hreturns : ∀ ty ∈ returns?, ty.Unplaced) (hbody : Parts (Stmt.Read file) body us) :
      FnDecl.Read file ⟨name.text, params, body, returns?, some (keyword.span file)⟩
        (keyword :: name :: us)

/-- How an item is built from tokens.  A fault is no item of a program. -/
inductive Item.Read (file : String) : Item → List Token → Prop
  | importing {i : Import} (hi : i.Unplaced) : Item.Read file (.importing i) []
  | function {fn : FnDecl} {us : List Token} (hfn : fn.Read file us) :
      Item.Read file (.function fn) us
  | stmt {s : Stmt} {us : List Token} (hs : s.Read file us) : Item.Read file (.stmt s) us

/-! ### Parsers in a file -/

namespace Parser

variable {α β : Type} {file : String} {next : Token} {n d k : Nat}
  {post : β → List Token → List Word → Prop}

/-- The words of the tokens are `ws`, if each token is spelled as its kind asks. -/
def Spells (ts : List Token) (ws : List Word) : Prop :=
  (∀ t ∈ ts, t.Spelled) → words ts = ws

theorem Spells.append {ws vs : List Word} (h : Spells ts ws) (h' : Spells us vs) :
    Spells (ts ++ us) (ws ++ vs) := by
  intro hspelled
  obtain ⟨hts, hus⟩ := List.forall_mem_append.mp hspelled
  rw [words_append, h hts, h' hus]

/-- No end mark is of these kinds, and each token that is spells the words that `write` gives. -/
structure Written (isKind : TokenKind → Bool) (write : Token → List Word) : Prop where
  eof : isKind .eof = false
  spells : ∀ t : Token, isKind t.kind → Spells [t] (write t)

theorem Written.kind_ne {isKind : TokenKind → Bool} {write : Token → List Word}
    (hk : Written isKind write) {t : Token} (ht : isKind t.kind) : t.kind ≠ .eof := by
  intro h
  rw [h, hk.eof] at ht
  cases ht

/-- A mark spells itself. -/
theorem Written.mark {kind : TokenKind} (hmark : kind.isMark) :
    Written (· == kind) fun _ => [.mark kind] where
  eof := beq_eq_false_iff_ne.mpr (by rintro rfl; exact absurd hmark (by decide))
  spells t ht hspelled := by
    obtain rfl : t.kind = kind := eq_of_beq ht
    exact words_mark (hspelled t (List.mem_singleton_self t)) hmark

/-- Parentheses and commas group words and are none. -/
theorem Written.grouping {kind : TokenKind} (h : kind.isGrouping) :
    Written (· == kind) fun _ => [] where
  eof := beq_eq_false_iff_ne.mpr (by rintro rfl; exact absurd h (by decide))
  spells t ht _ := words_grouping (by rwa [eq_of_beq ht])

theorem Written.name : Written (· == .ident) fun t => [.name t.text] where
  eof := rfl
  spells _ ht _ := words_name (eq_of_beq ht)

theorem Written.operator (hop : ∀ kind, isOp kind → kind ∈ operatorKinds) :
    Written isOp fun t => [.operator t.text] where
  eof := by
    by_contra h
    exact absurd (hop .eof (by simpa using h)) (by decide)
  spells t ht hspelled := by
    have hmem := hop t.kind ht
    have hsilent : ∀ kind ∈ operatorKinds, kind.isSilent = false := by decide
    rw [words_singleton (hsilent _ hmem),
      t.word_operator (hspelled t (List.mem_singleton_self t)) hmem]

/-- How a reading of `ts` may end.  Where something is read, `k` tokens or more were taken, and
`post` holds of what is read, of some of these in their order, and of the words of all of them.
Otherwise, if with `d` that were taken before fewer than `n` tokens stand in front of an end mark, a
token shows a fault, which is not in front of the last one that was taken, or a numeral cannot be
read. -/
inductive Ended (n d k : Nat) (post : α → List Token → List Word → Prop) (ts : List Token) :
    Parsed α → Prop
  | ok {a : α} {taken us rest : List Token} {ws : List Word} (split : ts = taken ++ rest)
      (inner : ∀ t ∈ taken, t.kind ≠ .eof) (enough : k ≤ taken.length) (kept : us.Sublist taken)
      (spells : Spells taken ws) (holds : post a us ws) : Ended n d k post ts (.ok a rest)
  | fail {e : ParseError} {rest : List Token} (h : HasEnd ts → firstEnd ts + d < n →
      Took 0 ts rest ∧ e.ShownIn ts ∧ rest.length ≤ e.left) : Ended n d k post ts (.fail e rest)
  | stop {cause : ParseStop} (h : HasEnd ts → firstEnd ts + d < n → ∃ t ∈ ts, t.Unreadable cause) :
      Ended n d k post ts (.stop cause)

/-- A reading that begins behind tokens that were taken ends as it does without them. -/
theorem Ended.behind {taken rest : List Token} {ws : List Word} {r : Parsed β}
    (inner : ∀ t ∈ taken, t.kind ≠ .eof) (enough : j ≤ taken.length) (kept : us.Sublist taken)
    (spells : Spells taken ws)
    (h : Ended n (d + j) (k - j) (fun b vs ws' => post b (us ++ vs) (ws ++ ws')) rest r) :
    Ended n d k post (taken ++ rest) r := by
  have took : Took j (taken ++ rest) rest := ⟨taken, rfl, inner, enough⟩
  have hmeasure := took.firstEnd_le
  cases h with
  | @ok _ taken' _ _ _ split inner' enough' kept' spells' holds =>
    subst split
    refine .ok (List.append_assoc ..).symm ?_ ?_ (kept.append kept') (spells.append spells') holds
    · exact List.forall_mem_append.mpr ⟨inner, inner'⟩
    · rw [List.length_append]
      omega
  | fail h =>
    refine .fail fun hend hfirst => ?_
    obtain ⟨took', shown, reached⟩ := h (took.hasEnd hend) (by omega)
    exact ⟨(took.trans took').mono (Nat.zero_le _), shown.behind took, reached⟩
  | stop h =>
    refine .stop fun hend hfirst => ?_
    obtain ⟨t, ht, hunreadable⟩ := h (took.hasEnd hend) (by omega)
    exact ⟨t, List.mem_append_right _ ht, hunreadable⟩

/-- Any reading of tokens of the file, the first of which is `next`, ends in this way. -/
def ConsumesAt (file : String) (next : Token) (n d k : Nat) (p : Parser α)
    (post : α → List Token → List Word → Prop) : Prop :=
  ∀ ⦃last : Token⦄ ⦃ts : List Token⦄, ts.headD last = next → Ended n d k post ts (p ⟨file, last⟩ ts)

def Consumes (file : String) (n d k : Nat) (p : Parser α)
    (post : α → List Token → List Word → Prop) : Prop :=
  ∀ next, ConsumesAt file next n d k p post

/-- The same where `t` was just taken. -/
def ConsumesBehind (file : String) (t : Token) (n d k : Nat) (p : Parser α)
    (post : α → List Token → List Word → Prop) : Prop :=
  ∀ ⦃last : Token⦄ ⦃rest : List Token⦄, Ended n d k post (t :: rest) (p ⟨file, last⟩ rest)

/-- What is read is built from some of the tokens as `P` says, and written with the words of all of
them. -/
def Gives (file : String) (n d k : Nat) (p : Parser α) (P : α → List Token → Prop)
    (write : α → List Word) : Prop :=
  Consumes file n d k p fun a us ws => P a us ∧ ws = write a

/-- What is read is built from none of the tokens, and written with their words. -/
def Skips (file : String) (n d k : Nat) (p : Parser α) (P : α → Prop) (write : α → List Word) :
    Prop :=
  Gives file n d k p (fun a us => P a ∧ us = []) write

namespace Consumes

/-- What is known of a value that was read. -/
theorem of_ok {p : Parser β} (h : Consumes file n d k p post) {last : Token} {rest : List Token}
    {b : β} (hrun : p ⟨file, last⟩ ts = .ok b rest) :
    ∃ taken us ws, ts = taken ++ rest ∧ us.Sublist taken ∧ Spells taken ws ∧ post b us ws := by
  have hended := @h _ last ts rfl
  rw [hrun] at hended
  cases hended with
  | ok split _ _ kept spells holds => exact ⟨_, _, _, split, kept, spells, holds⟩

theorem pure {b : β} (h : post b [] []) : Consumes file n d 0 (Pure.pure b) post := by
  intro next last ts _
  exact .ok (List.nil_append ts).symm (List.forall_mem_nil _) (Nat.zero_le _) (.refl []) (fun _ => rfl) h

/-- Where all rounds are taken up, so are the tokens. -/
theorem stop (h : n ≤ 0 + d) (cause : ParseStop) : Consumes file n d k (stop cause) post :=
  fun _ _ _ _ => .stop fun _ hfirst => absurd hfirst (by omega)

/-- The fault is at the next token, and no token was taken. -/
theorem failHere (fault : GrammarFault) : Consumes file n d k (failHere fault) post := by
  intro next last ts _
  refine .fail fun hend _ => ?_
  obtain ⟨t, rest, rfl⟩ := hend.exists_cons
  exact ⟨.refl _, ⟨[], rest, rfl, rfl⟩, Nat.le_refl _⟩

end Consumes

/-- The tokens of both parts are taken one behind the other. -/
theorem ConsumesAt.bind {p : Parser α} {f : α → Parser β}
    {mid : α → List Token → List Word → Prop} (hp : ConsumesAt file next n d j p mid)
    (hf : ∀ a us ws, mid a us ws →
      Consumes file n (d + j) (k - j) (f a) fun b vs ws' => post b (us ++ vs) (ws ++ ws')) :
    ConsumesAt file next n d k (p >>= f) post := by
  intro last ts hnext
  have hended := hp hnext
  show Ended n d k post ts (Parser.bind p f _ ts)
  rw [Parser.bind]
  generalize p ⟨file, last⟩ ts = outcome at hended ⊢
  cases hended with
  | ok split inner enough kept spells holds =>
    subst split
    exact .behind inner enough kept spells (hf _ _ _ holds _ rfl)
  | fail h => exact .fail h
  | stop h => exact .stop h

/-- Less may be asked, fewer tokens may be kept, and what is said of the words may rest on the
spelling of those that were. -/
theorem Consumes.weaken {d' k' : Nat} {p : Parser β} {weak : β → List Token → List Word → Prop}
    (hp : Consumes file n d k p post) (hd : d ≤ d') (hk : k' ≤ k)
    (h : ∀ b us ws, post b us ws → ∃ vs ws', vs.Sublist us ∧
      ((∀ t ∈ us, t.Spelled) → ws = ws') ∧ weak b vs ws') : Consumes file n d' k' p weak := by
  intro next last ts hnext
  have hended := hp next hnext
  generalize p ⟨file, last⟩ ts = outcome at hended ⊢
  cases hended with
  | ok split inner enough kept spells holds =>
    obtain ⟨vs, ws', hvs, heq, hweak⟩ := h _ _ _ holds
    refine .ok split inner (hk.trans enough) (hvs.trans kept) (fun hspelled => ?_) hweak
    rw [spells hspelled, heq fun t ht => hspelled t (kept.subset ht)]
  | fail h => exact .fail fun hend hfirst => h hend (by omega)
  | stop h => exact .stop fun hend hfirst => h hend (by omega)

/-- More tokens may have been taken before. -/
theorem Gives.later {e : Nat} {p : Parser α} {P : α → List Token → Prop} {write : α → List Word}
    (hp : Gives file n d k p P write) (hd : d ≤ e) : Gives file n e k p P write :=
  hp.weaken hd (Nat.le_refl k) fun _ us ws h => ⟨us, ws, .refl us, fun _ => rfl, h⟩

theorem Consumes.bind {p : Parser α} {f : α → Parser β} {mid : α → List Token → List Word → Prop}
    (hp : Consumes file n d j p mid)
    (hf : ∀ a us ws, mid a us ws →
      Consumes file n (d + j) (k - j) (f a) fun b vs ws' => post b (us ++ vs) (ws ++ ws')) :
    Consumes file n d k (p >>= f) post :=
  fun next => (hp next).bind hf

theorem Gives.bind {p : Parser α} {f : α → Parser β} {P : α → List Token → Prop}
    {write : α → List Word} (hp : Gives file n d j p P write)
    (hf : ∀ a us, P a us →
      Consumes file n (d + j) (k - j) (f a) fun b vs ws => post b (us ++ vs) (write a ++ ws)) :
    Consumes file n d k (p >>= f) post := by
  refine Consumes.bind hp ?_
  rintro a us _ ⟨ha, rfl⟩
  exact hf a us ha

theorem Skips.bind {p : Parser α} {f : α → Parser β} {P : α → Prop} {write : α → List Word}
    (hp : Skips file n d j p P write)
    (hf : ∀ a, P a →
      Consumes file n (d + j) (k - j) (f a) fun b us ws => post b us (write a ++ ws)) :
    Consumes file n d k (p >>= f) post := by
  refine Gives.bind hp ?_
  rintro a _ ⟨ha, rfl⟩
  exact hf a ha

/-! ### Single tokens -/

/-- Looking at a token takes none. -/
theorem Consumes.peek_bind {f : Token → Parser β} (h : ∀ t, ConsumesAt file t n d k (f t) post) :
    Consumes file n d k (peek >>= f) post := by
  intro next last ts hnext
  show Ended n d k post ts (f (ts.headD last) ⟨file, last⟩ ts)
  rw [hnext]
  exact h next hnext

theorem Consumes.isNext_bind {kind : TokenKind} {f : Bool → Parser β}
    (h : ∀ b, Consumes file n d k (f b) post) : Consumes file n d k (isNext kind >>= f) post :=
  .peek_bind fun t => h (t.kind == kind) t

theorem Consumes.isSecond_bind {kind : TokenKind} {f : Bool → Parser β}
    (h : ∀ b, Consumes file n d k (f b) post) : Consumes file n d k (isSecond kind >>= f) post :=
  fun next _ _ hnext => h _ next hnext

theorem Consumes.spanOf_bind {t : Token} {f : Span → Parser β}
    (h : Consumes file n d k (f (t.span file)) post) : Consumes file n d k (spanOf t >>= f) post :=
  fun next _ _ hnext => h next hnext

namespace ConsumesBehind

variable {t : Token} {p : Parser β} {ws : List Word}

/-- A token that what is read is built from. -/
theorem keep (hkind : t.kind ≠ .eof) (hws : Spells [t] ws)
    (h : Consumes file n (d + 1) (k - 1) p fun b us ws' => post b (t :: us) (ws ++ ws')) :
    ConsumesBehind file t n d k p post :=
  fun _ _ => .behind (List.forall_mem_singleton.mpr hkind) (Nat.le_refl 1) (.refl [t]) hws (h _ rfl)

/-- A token that leaves no trace in what is read. -/
theorem skip (hkind : t.kind ≠ .eof) (hws : Spells [t] ws)
    (h : Consumes file n (d + 1) (k - 1) p fun b us ws' => post b us (ws ++ ws')) :
    ConsumesBehind file t n d k p post :=
  fun _ _ =>
    .behind (List.forall_mem_singleton.mpr hkind) (Nat.le_refl 1) (List.nil_sublist [t]) hws
    (h _ rfl)

/-- A token that is at fault, though it was taken. -/
theorem failAt (hkind : t.kind ≠ .eof) (fault : GrammarFault) :
    ConsumesBehind file t n d k (failAt t fault) post := by
  intro last rest
  refine .fail fun _ _ => ⟨?_, ⟨[], rest, rfl, rfl⟩, Nat.le_succ _⟩
  exact (Took.cons hkind rest).mono (Nat.zero_le 1)

/-- A numeral behind which reading goes on, or stops since it has no value. -/
theorem numeral_bind {value : Except NumeralFault α} {f : α → Parser β}
    (hfault : ∀ fault, value = .error fault → t.Unreadable (.numeral fault))
    (h : ∀ a, value = .ok a → ConsumesBehind file t n d k (f a) post) :
    ConsumesBehind file t n d k (numeral value >>= f) post := by
  cases value with
  | error fault =>
    exact fun _ _ => .stop fun _ _ => ⟨t, List.mem_cons_self .., hfault fault rfl⟩
  | ok a => exact h a rfl

end ConsumesBehind

theorem not_hasEnd_nil : ¬ HasEnd [] := fun ⟨_, h, _⟩ => List.not_mem_nil h

/-- The next token is taken, unless it is the end mark. -/
theorem ConsumesAt.advance_bind {f : Token → Parser β} (hkind : next.kind ≠ .eof)
    (h : ConsumesBehind file next n d k (f next) post) :
    ConsumesAt file next n d k (advance >>= f) post := by
  intro last ts hnext
  cases ts with
  | nil => exact .stop fun hend => absurd hend not_hasEnd_nil
  | cons t ts =>
    obtain rfl : t = next := hnext
    rw [bind_ok (advance_cons hkind)]
    exact @h last ts

theorem ConsumesAt.advance_mark {kind : TokenKind} {f : Token → Parser β} (hkind : next.kind = kind)
    (hmark : kind.isMark) (h : Consumes file n (d + 1) (k - 1) (f next) fun b us ws =>
      post b (next :: us) ([.mark kind] ++ ws)) :
    ConsumesAt file next n d k (advance >>= f) post := by
  have hk := Written.mark hmark
  have hne := hk.kind_ne (beq_of_eq hkind)
  exact .advance_bind hne (.keep hne (hk.spells next (beq_of_eq hkind)) h)

section OneToken

variable {isKind : TokenKind → Bool} {kind : TokenKind} {write : Token → List Word} {what : String}
  {ws : List Word}

/-- A token is taken if it is of the kind that is looked for. -/
theorem Consumes.accept?_behind {f : Option Token → Parser β} (hk : Written isKind write)
    (hnone : Consumes file n d k (f none) post)
    (hsome : ∀ t, isKind t.kind → ConsumesBehind file t n d k (f (some t)) post) :
    Consumes file n d k (accept? isKind >>= f) post := by
  intro next last ts hnext
  by_cases hkind : isKind next.kind
  · have hrun : (accept? isKind >>= f) ⟨file, last⟩ ts =
        (advance >>= fun t => f (some t)) ⟨file, last⟩ ts := by
      show Parser.bind (if isKind (ts.headD last).kind then some <$> advance else _) f _ ts = _
      rw [hnext, if_pos hkind]
      cases ts <;> rfl
    rw [hrun]
    exact ConsumesAt.advance_bind (hk.kind_ne hkind) (hsome next hkind) hnext
  · show Ended n d k post ts
      (Parser.bind (if isKind (ts.headD last).kind then some <$> advance else _) f _ ts)
    rw [hnext, if_neg hkind]
    exact hnone next hnext

theorem Consumes.accept?_bind {f : Option Token → Parser β} (hk : Written isKind write)
    (hnone : Consumes file n d k (f none) post)
    (hsome : ∀ t, Consumes file n (d + 1) (k - 1) (f (some t)) fun b us ws =>
      post b (t :: us) (write t ++ ws)) :
    Consumes file n d k (accept? isKind >>= f) post :=
  .accept?_behind hk hnone fun t ht => .keep (hk.kind_ne ht) (hk.spells t ht) (hsome t)

theorem Consumes.accept?_skip {f : Option Token → Parser β} (hk : Written isKind write)
    (hnone : Consumes file n d k (f none) post)
    (hsome : ∀ t, Consumes file n (d + 1) (k - 1) (f (some t)) fun b us ws =>
      post b us (write t ++ ws)) :
    Consumes file n d k (accept? isKind >>= f) post :=
  .accept?_behind hk hnone fun t ht => .skip (hk.kind_ne ht) (hk.spells t ht) (hsome t)

theorem accept_skips (hk : Written (· == kind) fun _ => ws) :
    Skips file n d 0 (accept kind) (fun _ => True) fun b => if b then ws else [] :=
  .accept?_skip hk (.pure ⟨⟨trivial, rfl⟩, rfl⟩) fun _ => .pure ⟨⟨trivial, rfl⟩, List.append_nil ws⟩

theorem Consumes.accept_bind {f : Bool → Parser β} (hk : Written (· == kind) fun _ => ws)
    (hfalse : Consumes file n d k (f false) post)
    (htrue : Consumes file n (d + 1) (k - 1) (f true) fun b us ws' => post b us (ws ++ ws')) :
    Consumes file n d k (accept kind >>= f) post := by
  have hrun : (accept kind >>= f) = accept? (· == kind) >>= fun t? => f t?.isSome := by
    funext src ts
    show Parser.bind (Parser.bind _ _) f src ts = Parser.bind _ _ src ts
    simp only [Parser.bind]
    cases accept? (· == kind) src ts <;> rfl
  rw [hrun]
  exact .accept?_skip hk hfalse fun _ => htrue

theorem Consumes.expect_behind {f : Token → Parser β} (hk : Written (· == kind) write)
    (h : ∀ t, t.kind = kind → ConsumesBehind file t n d k (f t) post) :
    Consumes file n d k (expect kind what >>= f) post := by
  intro next last ts hnext
  show Ended n d k post ts
    (Parser.bind (if (ts.headD last).kind == kind then advance else Parser.failHere _) f _ ts)
  rw [hnext]
  by_cases hkind : next.kind == kind
  · rw [if_pos hkind]
    exact ConsumesAt.advance_bind (hk.kind_ne hkind) (h next (eq_of_beq hkind)) hnext
  · rw [if_neg hkind]
    exact (Consumes.failHere _ : Consumes file n d k _ post) next hnext

theorem Consumes.expect_bind {f : Token → Parser β} (hk : Written (· == kind) write)
    (h : ∀ t, Consumes file n (d + 1) (k - 1) (f t) fun b us ws =>
      post b (t :: us) (write t ++ ws)) :
    Consumes file n d k (expect kind what >>= f) post :=
  .expect_behind hk fun t ht =>
    .keep (hk.kind_ne (beq_of_eq ht)) (hk.spells t (beq_of_eq ht)) (h t)

theorem Consumes.expect_skip {f : Token → Parser β} (hk : Written (· == kind) write)
    (h : ∀ t, Consumes file n (d + 1) (k - 1) (f t) fun b us ws => post b us (write t ++ ws)) :
    Consumes file n d k (expect kind what >>= f) post :=
  .expect_behind hk fun t ht =>
    .skip (hk.kind_ne (beq_of_eq ht)) (hk.spells t (beq_of_eq ht)) (h t)

end OneToken

/-! ### Repetitions -/

theorem Parts.singleton {P : α → List Token → Prop} {a : α} (h : P a us) : Parts P [a] us := by
  have hparts := Parts.cons h (Parts.nil (P := P))
  rwa [List.append_nil] at hparts

theorem Parts.exists_of_mem {P : α → List Token → Prop} {as : List α} (h : Parts P as us) :
    ∀ a ∈ as, ∃ vs, P a vs := by
  induction h with
  | nil => exact List.forall_mem_nil _
  | cons hfirst _ ih => exact List.forall_mem_cons.mpr ⟨⟨_, hfirst⟩, ih⟩

theorem Parts.of_forall {P : α → List Token → Prop} {as : List α} (h : ∀ a ∈ as, ∃ us, P a us) :
    ∃ us, Parts P as us := by
  induction as with
  | nil => exact ⟨[], .nil⟩
  | cons a as ih =>
    obtain ⟨⟨us, hfirst⟩, hmore⟩ := List.forall_mem_cons.mp h
    obtain ⟨vs, hmore⟩ := ih hmore
    exact ⟨us ++ vs, .cons hfirst hmore⟩

section Repetitions

variable {item : Parser α} {P : α → List Token → Prop} {write : α → List Word} {rounds : Nat}

/-- Every round takes a token, so as many rounds as there are tokens are enough. -/
theorem commaSeparated_gives (hitem : Gives file n d 1 item P write) (hn : n ≤ rounds + d) :
    Gives file n d 1 (commaSeparated item rounds) (fun as us => as ≠ [] ∧ Parts P as us)
      fun as => as.flatMap write := by
  induction rounds generalizing d with
  | zero => exact .stop hn _
  | succ rounds ih =>
    refine hitem.bind fun first us hfirst => .accept_bind (.grouping rfl) ?_ ?_
    · refine .pure ⟨⟨List.cons_ne_nil _ _, ?_⟩, by simp⟩
      rw [List.append_nil]
      exact .singleton hfirst
    · refine (ih (hitem.later (by omega)) (by omega)).bind fun rest vs hrest => ?_
      refine .pure ⟨⟨List.cons_ne_nil _ _, ?_⟩, by simp⟩
      rw [List.append_nil]
      exact .cons hfirst hrest.2

/-- Here too every round takes a token. -/
theorem manyUntil_gives (isClosing : TokenKind → Bool) (hitem : Gives file n d 1 item P write)
    (hn : n ≤ rounds + d) :
    Gives file n d 0 (manyUntil isClosing item rounds) (Parts P) fun as => as.flatMap write := by
  induction rounds generalizing d with
  | zero => exact .stop hn _
  | succ rounds ih =>
    refine .peek_bind fun t => ?_
    split
    · refine Consumes.pure ?_ t
      exact ⟨.nil, rfl⟩
    · refine (hitem.bind fun first us hfirst => ?_) t
      refine (ih (hitem.later (by omega)) (by omega)).bind fun rest vs hrest => .pure ⟨?_, by simp⟩
      rw [List.append_nil]
      exact .cons hfirst hrest

theorem commaSeparated_skips {P : α → Prop} (hitem : Skips file n d 1 item P write)
    (hn : n ≤ rounds + d) :
    Skips file n d 1 (commaSeparated item rounds) (fun as => as ≠ [] ∧ ∀ a ∈ as, P a)
      fun as => as.flatMap write := by
  refine (commaSeparated_gives hitem hn).weaken (Nat.le_refl d) (Nat.le_refl 1) ?_
  rintro as us ws ⟨⟨hne, hparts⟩, hws⟩
  refine ⟨[], _, List.nil_sublist us, fun _ => hws, ⟨⟨hne, fun a ha => ?_⟩, rfl⟩, rfl⟩
  obtain ⟨_, h, -⟩ := hparts.exists_of_mem a ha
  exact h

end Repetitions

end Parser

/-! ### Small grammars -/

variable {file : String} {n d rounds : Nat}

theorem typeExpr_skips (hn : n ≤ rounds + d) :
    Skips file n d 1 (typeExpr rounds) TypeExpr.Unplaced TypeExpr.words := by
  induction rounds generalizing d with
  | zero => exact .stop hn _
  | succ rounds ih =>
    refine .expect_skip .name fun name => .accept_bind (.mark rfl) ?_ ?_
    · exact .pure ⟨⟨.mk _ (List.forall_mem_nil _), rfl⟩, by rw [TypeExpr.words]; rfl⟩
    · refine (commaSeparated_skips (ih (by omega)) (by omega)).bind fun params hparams => ?_
      refine .expect_skip (.mark rfl) fun _ => .pure ⟨⟨.mk _ hparams.2, rfl⟩, ?_⟩
      cases params with
      | nil => exact absurd rfl hparams.1
      | cons p ps => simp [TypeExpr.words, typesWords_eq_flatMap]

theorem typeAfter?_skips {mark : TokenKind} (hmark : mark.isMark) (hn : n ≤ rounds + d) :
    Skips file n d 0 (typeAfter? mark rounds) (fun type? => ∀ ty ∈ type?, ty.Unplaced)
      (ascription mark) := by
  refine .accept_bind (.mark hmark) (.pure ⟨⟨by simp, rfl⟩, by simp [ascription]⟩) ?_
  refine (typeExpr_skips (by omega)).bind fun ty hty => .pure ⟨⟨?_, rfl⟩, by simp [ascription]⟩
  intro ty' hty'
  obtain rfl := Option.some.inj hty'
  exact hty

theorem params_skips (hn : n ≤ rounds + d) :
    Skips file n d 0 (params rounds) (fun ps => ∀ param ∈ ps, param.Unplaced)
      fun ps => ps.flatMap Param.words := by
  have hparam : Skips file n d 1 (param rounds) Param.Unplaced Param.words := by
    refine .expect_skip .name fun name => ?_
    refine (typeAfter?_skips rfl (by omega)).bind fun type? htype => ?_
    exact .pure ⟨⟨⟨rfl, htype⟩, rfl⟩, by simp [Param.words]⟩
  refine .isNext_bind fun b => ?_
  cases b
  · refine (commaSeparated_skips hparam hn).weaken (Nat.le_refl d) (Nat.zero_le 1) ?_
    exact fun ps us ws h => ⟨us, ws, .refl us, fun _ => rfl, ⟨h.1.1.2, h.1.2⟩, h.2⟩
  · exact .pure ⟨⟨List.forall_mem_nil _, rfl⟩, rfl⟩

/-- The dots of a path, each with a name behind it. -/
theorem pathParts_gives (hn : n ≤ rounds + d) :
    Gives file n d 0 (pathParts rounds)
      (fun parts us => parts = us.map Token.text ∧ ∀ t ∈ us, t.kind = .ident) pathWords := by
  induction rounds generalizing d with
  | zero => exact .stop hn _
  | succ rounds ih =>
    refine .accept_bind (.mark rfl) (.pure ⟨⟨rfl, List.forall_mem_nil _⟩, rfl⟩) ?_
    refine .expect_behind .name fun part hkind => ?_
    refine .keep (by simp [hkind]) (fun _ => words_name hkind) ((ih (by omega)).bind ?_)
    rintro _ us ⟨rfl, hus⟩
    refine .pure ⟨⟨?_, ?_⟩, by simp [pathWords]⟩
    · simp
    · rw [List.append_nil]
      exact List.forall_mem_cons.mpr ⟨hkind, hus⟩

theorem alias?_skips (what : String) :
    Skips file n d 0 (alias? what) (fun _ => True) aliasWords := by
  refine .accept_bind (.mark rfl) (.pure ⟨⟨trivial, rfl⟩, rfl⟩) ?_
  exact .expect_skip .name fun _ => .pure ⟨⟨trivial, rfl⟩, by simp [aliasWords]⟩

theorem importDecl_skips (hn : n ≤ rounds + d) :
    Skips file n d 1 (importDecl rounds) Import.Unplaced Import.words := by
  have hname {d : Nat} : Skips file n d 1 importedName (fun _ => True)
      fun pair => .name pair.1 :: aliasWords pair.2 :=
    .expect_skip .name fun _ =>
      (alias?_skips _).bind fun _ _ => .pure ⟨⟨trivial, rfl⟩, by simp⟩
  -- that the path is cut at its points again rests on the spelling of its names
  have hpath : Consumes file n d 1 (importDecl rounds) fun i us ws =>
      i.Unplaced ∧ ((∀ t ∈ us, t.Spelled) → ws = i.words) := by
    refine .expect_skip (.mark rfl) fun _ => .expect_skip (.mark rfl) fun _ => ?_
    refine (pathParts_gives (by omega)).bind ?_
    rintro _ us ⟨rfl, hus⟩
    refine .expect_skip (.mark rfl) fun _ => ?_
    split
    · next hparts =>
      refine .expect_skip .name fun _ => (alias?_skips _).bind fun _ _ => .pure ⟨.whole _ _, ?_⟩
      rw [List.isEmpty_iff.mp hparts]
      simp [Import.words, pathWords]
    · next hparts =>
      refine (commaSeparated_skips hname (by omega)).bind fun names _ => .pure ⟨.names _ _, ?_⟩
      intro hspelled
      rw [List.append_nil] at hspelled
      rw [Import.words, moduleParts_intercalate (by simpa using hparts)]
      · simp
      · intro part hpart
        obtain ⟨t, ht, rfl⟩ := List.mem_map.mp hpart
        exact (hspelled t ht).no_dot (hus t ht)
  refine hpath.weaken (Nat.le_refl d) (Nat.le_refl 1) fun i us ws h => ?_
  exact ⟨[], i.words, List.nil_sublist us, h.2, ⟨h.1, rfl⟩, rfl⟩

/-- A pattern takes its span from its name. -/
theorem pattern_gives : Gives file n d 1 pattern
    (fun pattern us =>
      ∃ name : Token, pattern.span? = some (name.span Span.unknownFile) ∧ us = [name])
    Pattern.words := by
  have hbinding : ∀ name, Skips file n (d + 1) 0 (patternBinding name) (fun _ => True)
      fun binding => [.name binding] := fun name =>
    .expect_skip (.grouping rfl) fun _ => .expect_skip .name fun _ =>
      .expect_skip (.grouping rfl) fun _ => .pure ⟨⟨trivial, rfl⟩, by simp⟩
  refine .expect_behind .name fun name hkind => ?_
  have hne : name.kind ≠ .eof := by simp [hkind]
  have hword : Spells [name] [.name name.text] := fun _ => words_name hkind
  split
  · next hname =>
    exact .keep hne hword (.pure ⟨⟨name, rfl, rfl⟩, by rw [hname, Pattern.words]; rfl⟩)
  iterate 3
    · next hname =>
      refine .keep hne hword ((hbinding _).bind fun _ _ => .pure ⟨⟨name, rfl, rfl⟩, ?_⟩)
      simp [hname, Pattern.words]
  · exact .failAt hne _

/-! ### Expressions -/

section Expressions

variable {expr : Parser Expr}

section Operands

variable (hexpr : Gives file n d 1 expr (Expr.Read file) Expr.words)
include hexpr

/-- Operators of one level bind to the left. -/
theorem binaryRest_read (hn : n ≤ rounds + d) (hop : ∀ kind, isOp kind → kind ∈ operatorKinds)
    {left : Expr} (hleft : left.Read file us) :
    Consumes file n d 0 (binaryRest isOp expr rounds left) fun e vs ws =>
      e.Read file (us ++ vs) ∧ left.words ++ ws = e.words := by
  -- what was read so far becomes the left operand, so its tokens and words stay in front
  induction rounds generalizing d left us with
  | zero => exact .stop hn _
  | succ rounds ih =>
    refine .accept?_skip (.operator hop) (.pure (by simpa using hleft)) fun op => ?_
    refine (hexpr.later (by omega)).bind fun right vs hright => ?_
    have hmore := ih (hexpr.later (e := d + 1 + 1) (by omega)) (by omega) (.binary hleft op hright)
    simpa [List.append_assoc] using hmore

theorem binaryLevel_read (hn : n ≤ rounds + d + 1)
    (hop : ∀ kind, isOp kind → kind ∈ operatorKinds) :
    Gives file n d 1 (binaryLevel isOp rounds expr) (Expr.Read file) Expr.words :=
  hexpr.bind fun _ _ hleft => binaryRest_read (hexpr.later (by omega)) (by omega) hop hleft

theorem unaryLevel_read (hn : n ≤ rounds + d) :
    Gives file n d 1 (unaryLevel expr rounds) (Expr.Read file) Expr.words := by
  induction rounds generalizing d with
  | zero => exact .stop hn _
  | succ rounds ih =>
    have hop (kind : TokenKind) (h : kind == .minus) : kind ∈ operatorKinds := by
      rw [eq_of_beq h]
      decide
    refine .accept?_bind (.operator hop) hexpr fun op => ?_
    refine (ih (hexpr.later (by omega)) (by omega)).bind fun operand us hoperand => ?_
    refine .spanOf_bind (.pure ⟨?_, by simp⟩)
    rw [List.append_nil]
    exact .unary op hoperand

theorem arguments_read (hn : n ≤ rounds + d) :
    Gives file n d 0 (arguments expr rounds) (Parts (Expr.Read file))
      fun es => es.flatMap Expr.words := by
  refine .isNext_bind fun b => ?_
  cases b
  · refine (commaSeparated_gives hexpr hn).weaken (Nat.le_refl d) (Nat.zero_le 1) ?_
    exact fun es us ws h => ⟨us, ws, .refl us, fun _ => rfl, h.1.2, h.2⟩
  · exact .pure ⟨.nil, rfl⟩

theorem moreElements_read (hn : n ≤ rounds + d) :
    Gives file n d 0 (moreElements expr rounds) (Parts (Expr.Read file))
      fun es => es.flatMap Expr.words := by
  induction rounds generalizing d with
  | zero => exact .stop hn _
  | succ rounds ih =>
    refine .accept_bind (.grouping rfl) (.pure ⟨.nil, rfl⟩) (.isNext_bind fun b => ?_)
    cases b
    · refine (hexpr.later (by omega)).bind fun first us hfirst => ?_
      refine (ih (hexpr.later (by omega)) (by omega)).bind fun more vs hmore => .pure ⟨?_, by simp⟩
      rw [List.append_nil]
      exact .cons hfirst hmore
    · exact .pure ⟨.nil, rfl⟩

theorem elements_read (hn : n ≤ rounds + d) :
    Gives file n d 0 (elements expr rounds) (Parts (Expr.Read file))
      fun es => es.flatMap Expr.words := by
  refine .isNext_bind fun b => ?_
  cases b
  · refine hexpr.bind fun first us hfirst => ?_
    refine (moreElements_read (hexpr.later (by omega)) (by omega)).bind fun more vs hmore => ?_
    refine .pure ⟨?_, by simp⟩
    rw [List.append_nil]
    exact .cons hfirst hmore
  · exact .pure ⟨.nil, rfl⟩

theorem listLiteral_read (hn : n ≤ rounds + d) (opening : Token) :
    Consumes file n d 0 (listLiteral expr rounds opening) fun e us ws =>
      e.Read file (opening :: us) ∧ .mark .lbracket :: ws = e.words := by
  refine (elements_read hexpr hn).bind fun elements us helements => ?_
  refine .expect_bind (.mark rfl) fun closing => .spanOf_bind (.spanOf_bind (.pure ⟨?_, ?_⟩))
  · exact .list opening helements closing
  · simp [exprsWords_eq_flatMap]

theorem matchArm_read : Gives file n d 1 (matchArm expr) (Arm.Read file) Arm.words := by
  refine pattern_gives.bind ?_
  rintro pattern _ ⟨name, hpattern, rfl⟩
  refine .expect_skip (.mark rfl) fun _ => ?_
  refine (hexpr.later (by omega)).bind fun body us hbody => ?_
  refine (accept_skips (.grouping rfl)).bind fun b _ => .pure ⟨?_, by cases b <;> simp [Arm.words]⟩
  rw [List.append_nil]
  exact .mk name hpattern hbody

theorem matchExpr_read (hn : n ≤ rounds + d) (keyword : Token) :
    Consumes file n d 0 (matchExpr expr rounds keyword) fun e us ws =>
      e.Read file (keyword :: us) ∧ .mark .kwMatch :: ws = e.words := by
  refine hexpr.bind fun subject us hsubject => .expect_skip (.mark rfl) fun _ => ?_
  have harm := matchArm_read (hexpr.later (e := d + 1 + 1) (by omega))
  refine (manyUntil_gives _ harm (by omega)).bind fun arms vs harms => ?_
  refine .expect_skip (.mark rfl) fun _ => .pure ⟨?_, by simp [armsWords_eq_flatMap]⟩
  rw [List.append_nil]
  exact .matching keyword hsubject harms

end Operands

-- The nested expressions stand behind a token, so less is asked of them.
variable (hexpr : Gives file n (d + 1) 1 expr (Expr.Read file) Expr.words)
include hexpr

/-- Whatever is read behind a base is built around it. -/
theorem suffixes_read (hn : n ≤ rounds + d) {base : Expr} (hbase : base.Read file us) :
    Consumes file n d 0 (suffixes expr rounds base) fun e vs ws =>
      e.Read file (us ++ vs) ∧ base.words ++ ws = e.words := by
  induction rounds generalizing d base us with
  | zero => exact .stop hn _
  | succ rounds ih =>
    refine .accept?_skip (.grouping rfl) (.accept_bind (.mark rfl) ?_ ?_) fun opening => ?_
    · refine .accept?_bind (.mark rfl) (.pure (by simpa using hbase)) fun mark => .spanOf_bind ?_
      have hmore := ih (hexpr.later (e := d + 1 + 1) (by omega)) (by omega) (.propagate hbase mark)
      simpa [List.append_assoc] using hmore
    · refine .expect_bind .name fun name => .spanOf_bind ?_
      have hmore := ih (hexpr.later (e := d + 1 + 1 + 1) (by omega)) (by omega)
        (.field hbase name)
      simpa [List.append_assoc] using hmore
    · refine (arguments_read hexpr (by omega)).bind fun args vs hargs => ?_
      refine .expect_bind (.grouping rfl) fun closing => .spanOf_bind (.spanOf_bind ?_)
      have hmore := ih (hexpr.later (e := d + 1 + 1 + 1) (by omega)) (by omega)
        (.call hbase opening hargs closing)
      simpa [List.append_assoc, exprsWords_eq_flatMap] using hmore

/-- One case for each token that an expression can start with. -/
theorem primary_read (hn : n ≤ rounds + d + 1) :
    Gives file n d 1 (primary expr rounds) (Expr.Read file) Expr.words := by
  refine .peek_bind fun next => ?_
  split
  case h_1 hkind =>
    have hne : next.kind ≠ .eof := by simp [hkind]
    refine .advance_bind hne (.numeral_bind ?_ fun value hvalue => .keep hne (fun _ => rfl) ?_)
    · exact fun fault hfault => ⟨fault, rfl, .inl ⟨hkind, hfault⟩⟩
    · exact .spanOf_bind (.pure ⟨.int value next, by simp [words_int hkind hvalue]⟩)
  case h_2 hkind =>
    have hne : next.kind ≠ .eof := by simp [hkind]
    refine .advance_bind hne (.numeral_bind ?_ fun value hvalue => .keep hne (fun _ => rfl) ?_)
    · exact fun fault hfault => ⟨fault, rfl, .inr ⟨hkind, hfault⟩⟩
    · exact .spanOf_bind (.pure ⟨.float value next, by simp [words_float hkind hvalue]⟩)
  case h_3 hkind =>
    refine .advance_bind (by simp [hkind]) ?_
    refine .keep (by simp [hkind]) (fun _ => words_string hkind) ?_
    exact .spanOf_bind (.pure ⟨.string next, by simp⟩)
  case h_4 hkind =>
    exact .advance_mark hkind rfl (.spanOf_bind (.pure ⟨.bool true next, by simp⟩))
  case h_5 hkind =>
    exact .advance_mark hkind rfl (.spanOf_bind (.pure ⟨.bool false next, by simp⟩))
  case h_6 hkind => exact .advance_mark hkind rfl (matchExpr_read hexpr (by omega) next)
  case h_7 hkind => exact .advance_mark hkind rfl (listLiteral_read hexpr (by omega) next)
  case h_8 hkind =>
    refine .advance_bind (by simp [hkind]) (.keep (by simp [hkind]) (fun _ => words_name hkind) ?_)
    exact .spanOf_bind (.pure ⟨.name next, by simp⟩)
  case h_9 hkind =>
    have hsilent : Spells [next] [] := fun _ => words_grouping (by rw [hkind]; rfl)
    refine .advance_bind (by simp [hkind]) (.skip (by simp [hkind]) hsilent ?_)
    refine hexpr.bind fun inner us hinner => .expect_skip (.grouping rfl) fun _ => ?_
    exact .pure ⟨by rwa [List.append_nil], by simp⟩
  case h_10 => exact Consumes.failHere _ next

theorem postfixExpr_read (hn : n ≤ rounds + d + 1) :
    Gives file n d 1 (postfixExpr expr rounds) (Expr.Read file) Expr.words :=
  (primary_read hexpr hn).bind fun _ _ hbase =>
    suffixes_read (hexpr.later (by omega)) (by omega) hbase

end Expressions

theorem isComparison_mem (kind : TokenKind) (h : isComparison kind) : kind ∈ operatorKinds := by
  cases kind <;> first | decide | cases h

theorem isAdditive_mem (kind : TokenKind) (h : isAdditive kind) : kind ∈ operatorKinds := by
  cases kind <;> first | decide | cases h

theorem isMultiplicative_mem (kind : TokenKind) (h : isMultiplicative kind) :
    kind ∈ operatorKinds := by
  cases kind <;> first | decide | cases h

/-- Each round of nesting takes a token, so the bound is not reached. -/
theorem expr_read (hn : n + 1 ≤ rounds + d) :
    Gives file n d 1 (expr rounds) (Expr.Read file) Expr.words := by
  induction rounds generalizing d with
  | zero => exact .stop (by omega) _
  | succ rounds ih =>
    -- the levels share a round; the next one is taken up inside of brackets
    refine binaryLevel_read ?_ (by omega) isComparison_mem
    refine binaryLevel_read ?_ (by omega) isAdditive_mem
    refine binaryLevel_read ?_ (by omega) isMultiplicative_mem
    exact unaryLevel_read (postfixExpr_read (ih (by omega)) (by omega)) (by omega)

/-! ### Statements -/

def blockWords (body : List Stmt) : List Word :=
  [Word.mark .lbrace] ++ stmtsWords body ++ [Word.mark .rbrace]

section Statements

variable {expr : Parser Expr} {block : Parser (List Stmt)}
  (hexpr : Gives file n d 1 expr (Expr.Read file) Expr.words)
  (hblock : Gives file n d 1 block (Parts (Stmt.Read file)) blockWords)

theorem block_read {statement : Parser Stmt}
    (hstatement : Gives file n (d + 1) 1 statement (Stmt.Read file) Stmt.words)
    (hn : n ≤ rounds + d + 1) :
    Gives file n d 1 (Owl.block statement rounds) (Parts (Stmt.Read file)) blockWords := by
  refine .expect_skip (.mark rfl) fun _ => ?_
  refine (manyUntil_gives _ hstatement (by omega)).bind fun body us hbody => ?_
  refine .expect_skip (.mark rfl) fun _ => .pure ⟨?_, ?_⟩
  · rwa [List.append_nil]
  · simp [blockWords, stmtsWords_eq_flatMap]

include hexpr

theorem letStmt_read (hn : n ≤ rounds + d) :
    Gives file n d 1 (letStmt expr rounds) (Stmt.Read file) Stmt.words := by
  refine .expect_bind (.mark rfl) fun keyword => ?_
  refine (accept_skips (.mark rfl)).bind fun isMutable _ => ?_
  refine .expect_bind .name fun name => ?_
  refine (typeAfter?_skips rfl (by omega)).bind fun type? htype => ?_
  refine .expect_skip (.mark rfl) fun _ => (hexpr.later (by omega)).bind fun value us hvalue => ?_
  refine .spanOf_bind (.pure ⟨?_, by simp⟩)
  rw [List.append_nil]
  exact .letVar keyword name isMutable htype hvalue

theorem assignStmt_read : Gives file n d 1 (assignStmt expr) (Stmt.Read file) Stmt.words := by
  refine .expect_bind .name fun name => .expect_skip (.mark rfl) fun _ => ?_
  refine (hexpr.later (by omega)).bind fun value us hvalue => .spanOf_bind (.pure ⟨?_, by simp⟩)
  rw [List.append_nil]
  exact .assign name hvalue

theorem returnStmt_read : Gives file n d 1 (returnStmt expr) (Stmt.Read file) Stmt.words := by
  refine .expect_bind (.mark rfl) fun keyword => .spanOf_bind (.isNext_bind fun b => ?_)
  cases b
  · refine (hexpr.later (by omega)).bind fun value us hvalue => .pure ⟨?_, by simp⟩
    rw [List.append_nil]
    exact .retValue keyword hvalue
  · exact .pure ⟨.ret keyword, by simp⟩

theorem exprStmt_read : Gives file n d 1 (exprStmt expr) (Stmt.Read file) Stmt.words := by
  refine hexpr.bind fun e us he => .pure ⟨?_, by simp⟩
  rw [List.append_nil]
  exact .expr he

include hblock

theorem whileStmt_read : Gives file n d 1 (whileStmt expr block) (Stmt.Read file) Stmt.words := by
  refine .expect_bind (.mark rfl) fun keyword => ?_
  refine (hexpr.later (by omega)).bind fun condition us hcondition => ?_
  refine (hblock.later (by omega)).bind fun body vs hbody => ?_
  refine .spanOf_bind (.pure ⟨?_, by simp [blockWords]⟩)
  rw [List.append_nil]
  exact .whileLoop keyword hcondition hbody

theorem forStmt_read : Gives file n d 1 (forStmt expr block) (Stmt.Read file) Stmt.words := by
  refine .expect_bind (.mark rfl) fun keyword => .expect_bind .name fun item => ?_
  refine .expect_skip (.mark rfl) fun _ => ?_
  refine (hexpr.later (by omega)).bind fun collection us hcollection => ?_
  refine (hblock.later (by omega)).bind fun body vs hbody => ?_
  refine .spanOf_bind (.pure ⟨?_, by simp [blockWords]⟩)
  rw [List.append_nil]
  exact .forLoop keyword item hcollection hbody

omit hexpr in
theorem loopStmt_read : Gives file n d 1 (loopStmt block) (Stmt.Read file) Stmt.words := by
  refine .expect_bind (.mark rfl) fun keyword => ?_
  refine (hblock.later (by omega)).bind fun body us hbody => ?_
  refine .spanOf_bind (.pure ⟨?_, by simp [blockWords]⟩)
  rw [List.append_nil]
  exact .loop keyword hbody

theorem ifStmt_read : Gives file n d 1 (ifStmt expr block) (Stmt.Read file) Stmt.words := by
  refine .expect_bind (.mark rfl) fun keyword => ?_
  refine (hexpr.later (by omega)).bind fun condition us hcondition => ?_
  refine (hblock.later (by omega)).bind fun thenBody vs hthen => ?_
  have helse : Consumes file n (d + 1 + 1 + 1) 0 (elseBlock? block) fun body? us ws =>
      body? = none ∧ us = [] ∧ ws = [] ∨ ∃ body, body? = some body ∧
        Parts (Stmt.Read file) body us ∧ ws = .mark .kwElse :: blockWords body := by
    refine .accept_bind (.mark rfl) (.pure (.inl ⟨rfl, rfl, rfl⟩)) ?_
    refine (hblock.later (by omega)).bind fun body us hbody => .pure (.inr ⟨body, rfl, ?_, by simp⟩)
    rwa [List.append_nil]
  refine helse.bind ?_
  rintro elseBody? us ws (⟨rfl, rfl, rfl⟩ | ⟨elseBody, rfl, helse, rfl⟩)
  · refine .spanOf_bind (.pure ⟨?_, by simp [blockWords]⟩)
    rw [List.append_nil, List.append_nil]
    exact .ifThen keyword hcondition hthen
  · refine .spanOf_bind (.pure ⟨?_, by simp [blockWords]⟩)
    rw [List.append_nil]
    exact .ifElse keyword hcondition hthen helse

end Statements

/-- As for expressions; blocks take up rounds of their own. -/
theorem statement_read (hn : n + 1 ≤ rounds + d) :
    Gives file n d 1 (statement rounds) (Stmt.Read file) Stmt.words := by
  induction rounds generalizing d with
  | zero => exact .stop (by omega) _
  | succ rounds ih =>
    have hexpr : Gives file n d 1 (expr (rounds + 1)) (Expr.Read file) Expr.words := expr_read hn
    have hblock : Gives file n d 1 (block (statement rounds) rounds) _ _ :=
      block_read (ih (by omega)) (by omega)
    refine .peek_bind fun next => ?_
    split
    case h_1 => exact letStmt_read hexpr (by omega) next
    case h_2 => exact returnStmt_read hexpr next
    case h_3 => exact ifStmt_read hexpr hblock next
    case h_4 => exact whileStmt_read hexpr hblock next
    case h_5 => exact forStmt_read hexpr hblock next
    case h_6 => exact loopStmt_read hblock next
    case h_7 hkind =>
      exact .advance_mark hkind rfl (.spanOf_bind (.pure ⟨.breakLoop next, by simp⟩))
    case h_8 hkind =>
      exact .advance_mark hkind rfl (.spanOf_bind (.pure ⟨.continueLoop next, by simp⟩))
    case h_9 =>
      refine Consumes.isSecond_bind (fun b => ?_) next
      cases b
      · exact exprStmt_read hexpr
      · exact assignStmt_read hexpr
    case h_10 => exact exprStmt_read hexpr next

theorem fnDecl_read (hn : n ≤ rounds + d) :
    Gives file n d 1 (fnDecl rounds) (FnDecl.Read file) FnDecl.words := by
  refine .expect_bind (.mark rfl) fun keyword => .expect_bind .name fun name => ?_
  refine .expect_skip (.grouping rfl) fun _ => ?_
  refine (params_skips (by omega)).bind fun params hparams => ?_
  refine .expect_skip (.grouping rfl) fun _ => ?_
  refine (typeAfter?_skips rfl (by omega)).bind fun returns? hreturns => ?_
  refine (block_read (statement_read (by omega)) (by omega)).bind fun body us hbody => ?_
  refine .spanOf_bind (.pure ⟨?_, by simp [blockWords]⟩)
  rw [List.append_nil]
  exact .mk keyword name hparams hreturns hbody

/-! ### Programs -/

def Item.words : Item → List Word
  | .importing i => i.words
  | .function f => f.words
  | .stmt s => s.words
  | .fault _ => []

def Item.isFault : Item → Bool
  | .fault _ => true
  | _ => false

theorem item_read (hn : n + 1 ≤ rounds + d) :
    Gives file n d 1 (item rounds) (Item.Read file) Item.words := by
  refine .peek_bind fun next => ?_
  split
  · refine ((importDecl_skips (by omega)).bind fun i hi => .pure ?_) next
    exact ⟨.importing hi, List.append_nil _⟩
  · refine ((fnDecl_read (by omega)).bind fun fn us hfn => .pure ⟨?_, List.append_nil _⟩) next
    rw [List.append_nil]
    exact .function hfn
  · refine ((statement_read hn).bind fun s us hs => .pure ⟨?_, List.append_nil _⟩) next
    rw [List.append_nil]
    exact .stmt hs

namespace Reading

/-- Where reading goes through without a fault, the items are built from the tokens in front of what
is left and written with their words; and unless reading stops, it comes to an end mark. -/
theorem itemsFrom_read {last : Token} {bound : Nat} (rounds : Nat) (ts : List Token)
    (hfault : ∀ i ∈ (itemsFrom ⟨file, last⟩ bound rounds ts).items, i.isFault = false) :
    ∃ taken us rest, ts = taken ++ rest ∧ us.Sublist taken ∧
      Parts (Item.Read file) (itemsFrom ⟨file, last⟩ bound rounds ts).items us ∧
      Spells taken ((itemsFrom ⟨file, last⟩ bound rounds ts).items.flatMap Item.words) ∧
      ((itemsFrom ⟨file, last⟩ bound rounds ts).stop? = none → (rest.headD last).kind = .eof) := by
  induction rounds generalizing ts with
  | zero => exact ⟨[], [], ts, rfl, List.nil_sublist [], .nil, fun _ => rfl, by simp [itemsFrom]⟩
  | succ rounds ih =>
    rw [itemsFrom] at hfault ⊢
    split at hfault
    · next hend =>
      rw [if_pos hend]
      exact ⟨[], [], ts, rfl, List.nil_sublist [], .nil, fun _ => rfl, fun _ => eq_of_beq hend⟩
    · next hend =>
      rw [if_neg hend]
      cases hitem : item bound ⟨file, last⟩ ts with
      | stop cause => exact ⟨[], [], ts, rfl, List.nil_sublist [], .nil, fun _ => rfl, by simp⟩
      | fail e left =>
        -- every way on from a fault records it
        simp only [hitem] at hfault
        cases hrecover : recover ⟨file, last⟩ left <;> simp [hrecover, Item.isFault] at hfault
      | ok i left =>
        simp only [hitem] at hfault
        obtain ⟨taken, us, _, rfl, hus, hws, hread, rfl⟩ :=
          (item_read (n := 0) (d := 1) (Nat.le_add_left 1 bound)).of_ok hitem
        obtain ⟨taken', vs, rest, rfl, hvs, hmore, hws', hend'⟩ :=
          ih left fun j hj => hfault j (List.mem_cons_of_mem _ hj)
        exact ⟨taken ++ taken', us ++ vs, rest, (List.append_assoc ..).symm, hus.append hvs,
          .cons hread hmore, hws.append hws', hend'⟩

/-- Without a recorded fault there is none: the first one is always recorded. -/
theorem isFault_of_recorded {items : List Item} (h : recorded false items = []) :
    ∀ i ∈ items, i.isFault = false := by
  induction items with
  | nil => simp
  | cons i items ih =>
    cases i <;> simp_all [recorded, Item.isFault]

/-- Where a program is the result, reading did not stop and no item is a fault. -/
theorem result_eq_ok {p : Program} (h : r.result = .ok p) :
    r.stop? = none ∧ (∀ i ∈ r.items, i.isFault = false) ∧ p = r.program := by
  rw [result] at h
  split at h
  · cases h
  · cases h
  · next hstop herrors => exact ⟨hstop, isFault_of_recorded herrors, (Except.ok.inj h).symm⟩

/-- The parts of a program are its items of the same kind. -/
theorem mem_imports {i : Import} : i ∈ r.program.imports ↔ .importing i ∈ r.items := by
  rw [program, List.mem_filterMap]
  refine ⟨?_, fun h => ⟨_, h, rfl⟩⟩
  rintro ⟨item, hitem, hi⟩
  cases item with
  | importing i' =>
    cases hi
    exact hitem
  | _ => cases hi

theorem mem_functions {f : FnDecl} : f ∈ r.program.functions ↔ .function f ∈ r.items := by
  rw [program, List.mem_filterMap]
  refine ⟨?_, fun h => ⟨_, h, rfl⟩⟩
  rintro ⟨i, hi, hf⟩
  cases i with
  | function f' =>
    cases hf
    exact hi
  | _ => cases hf

theorem mem_statements {s : Stmt} : s ∈ r.program.statements ↔ .stmt s ∈ r.items := by
  rw [program, List.mem_filterMap]
  refine ⟨?_, fun h => ⟨_, h, rfl⟩⟩
  rintro ⟨i, hi, hs⟩
  cases i with
  | stmt s' =>
    cases hs
    exact hi
  | _ => cases hs

end Reading

/-- A program is made of items that are built from its tokens, one behind the other. -/
theorem parse_read {p : Program} (h : parse file ts = .ok p) :
    ∃ us, us.Sublist ts ∧ Parts (Item.Read file) (Reading.ofTokens file ts).items us ∧
      p = (Reading.ofTokens file ts).program := by
  obtain ⟨-, hfault, rfl⟩ := Reading.result_eq_ok h
  rw [Reading.ofTokens] at hfault ⊢
  split
  · exact ⟨[], List.nil_sublist ts, .nil, rfl⟩
  · next last hlast =>
    rw [hlast] at hfault
    obtain ⟨taken, us, rest, hts, hus, hread, -⟩ := Reading.itemsFrom_read _ ts hfault
    refine ⟨us, ?_, hread, rfl⟩
    rw [hts]
    exact hus.trans (List.sublist_append_left taken rest)

/-- The parts of a program are built from tokens. -/
structure Program.Read (file : String) (p : Program) : Prop where
  imports : ∀ i ∈ p.imports, i.Unplaced
  functions : ∀ fn ∈ p.functions, ∃ us, fn.Read file us
  statements : ∃ us, Parts (Stmt.Read file) p.statements us

theorem Program.read_of_parse {p : Program} (h : parse file ts = .ok p) : p.Read file := by
  obtain ⟨us, -, hitems, rfl⟩ := parse_read h
  refine ⟨fun i hi => ?_, fun fn hfn => ?_, Parts.of_forall fun s hs => ?_⟩
  · obtain ⟨_, hitem⟩ := hitems.exists_of_mem _ (Reading.mem_imports.mp hi)
    cases hitem with
    | importing hread => exact hread
  · obtain ⟨vs, hitem⟩ := hitems.exists_of_mem _ (Reading.mem_functions.mp hfn)
    cases hitem with
    | function hread => exact ⟨vs, hread⟩
  · obtain ⟨vs, hitem⟩ := hitems.exists_of_mem _ (Reading.mem_statements.mp hs)
    cases hitem with
    | stmt hread => exact ⟨vs, hread⟩

end Owl
