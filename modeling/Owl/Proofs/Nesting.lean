/-
Spans nest.

The span of a node that is read from a text covers the spans of its direct parts.  For
most nodes this is because their span is merged from those of the parts.  The span of
a call is merged from those of its callee and of its closing parenthesis, and that of
a list from those of its brackets; what is between is covered because the tokens of a
text come one behind the other, both where they start and where their spans end.
-/
import Owl.Proofs.Standing
import Owl.Proofs.Visiting.Coverage

namespace Owl

open Owl.Parser

variable {us tokens : List Token} {t : Token} {p q : Position} {file : String} {s : Stmt}

/-! ### Order -/

namespace Position

/-- Reading order, in which a place is not behind itself. -/
instance : LE Position := ⟨fun p q => q.before p = false⟩

theorem before_iff :
    p.before q = true ↔ p.line < q.line ∨ p.line = q.line ∧ p.column < q.column := by
  rw [before]
  split
  · next hline =>
    rw [bne_iff_ne] at hline
    rw [decide_eq_true_iff]
    omega
  · next hline =>
    rw [bne_iff_ne, not_not] at hline
    rw [decide_eq_true_iff]
    omega

theorem le_iff : p ≤ q ↔ p.line < q.line ∨ p.line = q.line ∧ p.column ≤ q.column := by
  show q.before p = false ↔ _
  rw [← Bool.not_eq_true, before_iff]
  omega

theorem le_refl (p : Position) : p ≤ p := by
  rw [le_iff]
  omega

theorem le_trans {r : Position} (h : p ≤ q) (h' : q ≤ r) : p ≤ r := by
  rw [le_iff] at *
  omega

theorem le_of_before (h : p.before q = true) : p ≤ q := by
  rw [before_iff] at h
  rw [le_iff]
  omega

theorem le_after (p : Position) (c : Char) : p ≤ p.after c := by
  rw [le_iff, after]
  split
  · exact .inl (Int.lt_add_one_of_le (Int.le_refl p.line))
  · exact .inr ⟨rfl, Int.le_add_one (Int.le_refl p.column)⟩

theorem le_afterAll (p : Position) (cs : List Char) : p ≤ p.afterAll cs := by
  induction cs generalizing p with
  | nil => exact le_refl p
  | cons c cs ih => exact le_trans (le_after p c) (ih _)

/-- Without a line feed, the columns go on by one for each character. -/
theorem afterAll_line_or_column (p : Position) (cs : List Char) :
    p.line < (p.afterAll cs).line ∨
      (p.afterAll cs).line = p.line ∧ (p.afterAll cs).column = p.column + cs.length := by
  induction cs generalizing p with
  | nil => simp
  | cons c cs ih =>
    rw [afterAll_cons, List.length_cons]
    have hrest := ih (p.after c)
    rw [after] at hrest ⊢
    split at hrest
    · -- A line feed: the columns start again, but the line stays behind the first one.
      next hc =>
      rw [if_pos hc]
      simp only at hrest
      omega
    · next hc =>
      rw [if_neg hc]
      simp only at hrest
      omega

theorem behind_le_append (cs ds : List Char) : behind cs ≤ behind (cs ++ ds) := by
  rw [← afterAll_behind]
  exact le_afterAll _ ds

end Position

/-! ### Tokens in order -/

def Token.stop (t : Token) : Position := ⟨t.pos.line, t.pos.column + t.text.length - 1⟩

/-- A token does not come behind another one: it neither starts nor ends behind it. -/
def Token.Precedes (t u : Token) : Prop := t.pos ≤ u.pos ∧ t.stop ≤ u.stop

/-- Tokens that come one behind the other. -/
def InOrder (ts : List Token) : Prop := ts.Pairwise Token.Precedes

theorem InOrder.sublist {vs : List Token} (h : InOrder vs) (hsub : us.Sublist vs) : InOrder us :=
  List.Pairwise.sublist hsub h

theorem StringBody.length_le {body value : List Char} (h : StringBody body value) :
    value.length ≤ body.length := by
  induction h <;> simp only [List.length_cons, List.length_nil] <;> omega

/-- A token stands for no more characters than it is written with. -/
theorem Lexeme.length_le {kind : TokenKind} {text : String} {lexeme : List Char}
    (h : Lexeme kind text lexeme) : text.length ≤ lexeme.length := by
  cases h with
  | fixed => exact Nat.le_of_eq String.length_toList.symm
  | name | int | float => exact Nat.le_of_eq String.length_ofList
  | string isBody =>
    have hvalue := isBody.length_le
    rw [String.length_ofList, List.length_cons, List.length_append]
    omega

/-- A token precedes all that stands behind its lexeme, over however many lines that runs. -/
theorem Token.precedes_of_le {u : Token} {lexeme : List Char}
    (hlexeme : Lexeme t.kind t.text lexeme) (h : t.pos.afterAll lexeme ≤ u.pos) : t.Precedes u := by
  refine ⟨Position.le_trans (t.pos.le_afterAll lexeme) h, ?_⟩
  have hlength := hlexeme.length_le
  have hbehind := t.pos.afterAll_line_or_column lexeme
  rw [Position.le_iff] at h ⊢
  -- The span of a token may be empty, but then it ends just in front of the token.
  simp only [stop]
  omega

theorem Tiled.behind_le {before text rest : List Char} (h : Tiled before text rest tokens) :
    ∀ t ∈ tokens, Position.behind before ≤ t.pos := by
  intro t ht
  obtain ⟨front, back, -, -, hpos⟩ := h.pos_eq t ht
  rw [hpos]
  exact Position.behind_le_append before front

theorem Tiled.inOrder {before text rest : List Char} (h : Tiled before text rest tokens)
    {last : Token} (hlast : Position.behind (before ++ text) ≤ last.pos) :
    InOrder (tokens ++ [last]) := by
  induction h with
  | gap => exact List.pairwise_singleton _ _
  | @token before gap lexeme text rest t tokens isGap isLexeme place more ih =>
    have hend : Position.behind (before ++ gap ++ lexeme ++ text) ≤ last.pos := by
      simpa using hlast
    refine List.pairwise_cons.mpr ⟨?_, ih hend⟩
    intro u hu
    -- All other tokens, and the last one, start where the lexeme has been read or later.
    refine Token.precedes_of_le isLexeme ?_
    rw [place, Position.afterAll_behind]
    rcases List.mem_append.mp hu with hu | hu
    · exact more.behind_le u hu
    · rw [List.mem_singleton.mp hu]
      exact Position.le_trans (Position.behind_le_append _ text) hend

/-- The tokens of a text come one behind the other. -/
theorem tokens_inOrder {source : String} (h : tokenize source = .ok tokens) : InOrder tokens := by
  have htiles := lex_tiles source
  rw [h] at htiles
  obtain ⟨body, rfl, htiled⟩ := htiles
  exact htiled.inOrder (Position.le_refl _)

/-! ### Spans -/

/-- A span neither starts behind another one nor ends before it. -/
def Span.Covers (outer inner : Span) : Prop :=
  outer.start ≤ inner.start ∧ inner.stop ≤ outer.stop

theorem Span.merge_start (a b : Span) :
    (a.merge b).start = if a.start.before b.start then a.start else b.start := rfl

theorem Span.merge_stop (a b : Span) :
    (a.merge b).stop = if a.stop.before b.stop then b.stop else a.stop := rfl

theorem Span.merge_start_le (a b : Span) :
    (a.merge b).start ≤ a.start ∧ (a.merge b).start ≤ b.start := by
  rw [merge_start]
  split
  · next h => exact ⟨Position.le_refl _, Position.le_of_before h⟩
  · next h => exact ⟨(Bool.not_eq_true _).mp h, Position.le_refl _⟩

theorem Span.le_merge_stop (a b : Span) :
    a.stop ≤ (a.merge b).stop ∧ b.stop ≤ (a.merge b).stop := by
  rw [merge_stop]
  split
  · next h => exact ⟨Position.le_of_before h, Position.le_refl _⟩
  · next h => exact ⟨Position.le_refl _, (Bool.not_eq_true _).mp h⟩

theorem Span.merge_covers_left (a b : Span) : (a.merge b).Covers a :=
  ⟨(a.merge_start_le b).1, (a.le_merge_stop b).1⟩

theorem Span.merge_covers_right (a b : Span) : (a.merge b).Covers b :=
  ⟨(a.merge_start_le b).2, (a.le_merge_stop b).2⟩

/-- A span starts where one of the tokens does, and ends where one of them does. -/
structure Span.DrawnFrom (s : Span) (us : List Token) : Prop where
  starts : ∃ t ∈ us, s.start = t.pos
  stops : ∃ t ∈ us, s.stop = t.stop

namespace Span.DrawnFrom

variable {a b s : Span} {us vs ws : List Token}

theorem token (file : String) (h : t ∈ us) : (t.span file).DrawnFrom us :=
  ⟨⟨t, h, rfl⟩, ⟨t, h, rfl⟩⟩

theorem subset (h : s.DrawnFrom us) (hsub : us ⊆ vs) : s.DrawnFrom vs := by
  obtain ⟨⟨t, ht, hstart⟩, ⟨u, hu, hstop⟩⟩ := h
  exact ⟨⟨t, hsub ht, hstart⟩, ⟨u, hsub hu, hstop⟩⟩

theorem merge (ha : a.DrawnFrom us) (hb : b.DrawnFrom us) : (a.merge b).DrawnFrom us := by
  constructor
  · rw [merge_start]
    split
    · exact ha.starts
    · exact hb.starts
  · rw [merge_stop]
    split
    · exact hb.stops
    · exact ha.stops

/-- What is drawn from tokens between those of two spans is covered by both of them together. -/
theorem covers_between (ha : a.DrawnFrom us) (hs : s.DrawnFrom vs) (hb : b.DrawnFrom ws)
    (horder : InOrder (us ++ vs ++ ws)) : (a.merge b).Covers s := by
  -- Of the outer spans only the start of the first one and the end of the second one count.
  obtain ⟨⟨t, ht, hstart⟩, -⟩ := ha
  obtain ⟨⟨u, hu, hstart'⟩, ⟨u', hu', hstop'⟩⟩ := hs
  obtain ⟨-, ⟨w, hw, hstop⟩⟩ := hb
  obtain ⟨hfirst, -, hsecond⟩ := List.pairwise_append.mp horder
  have hbefore : t.Precedes u := (List.pairwise_append.mp hfirst).2.2 t ht u hu
  have hbehind : u'.Precedes w := hsecond u' (List.mem_append_right _ hu') w hw
  constructor
  · rw [hstart']
    exact Position.le_trans (a.merge_start_le b).1 (hstart ▸ hbefore.1)
  · rw [hstop']
    exact Position.le_trans hbehind.2 (hstop ▸ (a.le_merge_stop b).2)

end Span.DrawnFrom

/-! ### Nesting -/

/-- The direct parts that the span of an expression has to cover.  A match has the span of its
keyword, which covers none. -/
def Expr.parts : Expr → List Expr
  | .binary left _ right _ => [left, right]
  | .unary _ operand _ => [operand]
  | .call callee args _ => callee :: args
  | .field object _ _ => [object]
  | .propagate operand _ => [operand]
  | .list elements _ => elements
  | .int .. | .float .. | .string .. | .bool .. | .name .. => []
  | .matching .. | .stmt .. | .unknown => []

def Expr.Nests (e : Expr) : Prop :=
  ∃ span, e.span? = some span ∧
    ∀ part ∈ e.parts, ∃ inner, part.span? = some inner ∧ span.Covers inner

def Expr.NestsThroughout (e : Expr) : Prop :=
  ∀ around dropped, ∀ spot ∈ e.spots around dropped, spot.expr.Nests

def Expr.children : Expr → List Expr
  | .matching subject arms _ => subject :: arms.map Arm.body
  | e => e.parts

theorem exprsSpots_nest {es : List Expr} (h : ∀ e ∈ es, e.NestsThroughout) (around : List Pattern)
    (dropped : Bool) (room? : Option Nat) :
    ∀ spot ∈ exprsSpots around dropped room? es, spot.expr.Nests := by
  induction es generalizing room? with
  | nil => exact List.forall_mem_nil _
  | cons e es ih =>
    rw [List.forall_mem_cons] at h
    rw [exprsSpots, List.forall_mem_append]
    exact ⟨h.1 around _, ih h.2 _⟩

theorem armsSpots_nest {arms : List Arm} (h : ∀ arm ∈ arms, arm.body.NestsThroughout)
    (around : List Pattern) (dropped : Bool) :
    ∀ spot ∈ armsSpots around dropped arms, spot.expr.Nests := by
  induction arms with
  | nil => exact List.forall_mem_nil _
  | cons arm arms ih =>
    obtain ⟨pattern, body, span?⟩ := arm
    rw [List.forall_mem_cons] at h
    rw [armsSpots, List.forall_mem_append]
    exact ⟨h.1 (pattern :: around) dropped, ih h.2⟩

/-- The spots of an expression are its own and those of its children. -/
theorem Expr.NestsThroughout.of_children {e : Expr} (h : e.Nests)
    (hchildren : ∀ child ∈ e.children, child.NestsThroughout) : e.NestsThroughout := by
  intro around dropped
  cases e with
  | int | float | string | bool | name | stmt | unknown => exact List.forall_mem_singleton.mpr h
  | binary left op right span? =>
    simp only [children, parts, List.forall_mem_cons] at hchildren
    rw [spots, List.forall_mem_cons, List.forall_mem_append]
    exact ⟨h, hchildren.1 around dropped, hchildren.2.1 around dropped⟩
  | unary | field | propagate =>
    simp only [children, parts, List.forall_mem_singleton] at hchildren
    rw [spots, List.forall_mem_cons]
    exact ⟨h, hchildren around dropped⟩
  | call callee args span? =>
    simp only [children, parts, List.forall_mem_cons] at hchildren
    by_cases hname : ∃ name span?, callee = .name name span?
    · -- The name in a call by name is no spot, but its span is covered as that of a part.
      obtain ⟨name, nameSpan?, rfl⟩ := hname
      rw [spots, List.forall_mem_cons]
      exact ⟨h, exprsSpots_nest hchildren.2 around dropped _⟩
    · rw [Expr.spots_call_of_ne hname, List.forall_mem_cons, List.forall_mem_append]
      exact ⟨h, hchildren.1 around dropped, exprsSpots_nest hchildren.2 around dropped none⟩
  | list elements span? =>
    rw [spots, List.forall_mem_cons]
    exact ⟨h, exprsSpots_nest hchildren around dropped none⟩
  | matching subject arms span? =>
    simp only [children, List.forall_mem_cons, List.forall_mem_map] at hchildren
    rw [spots, List.forall_mem_cons, List.forall_mem_append]
    exact ⟨h, hchildren.1 around dropped, armsSpots_nest hchildren.2 around dropped⟩

/-! ### Expressions -/

theorem InOrder.of_append {vs : List Token} (h : InOrder (us ++ vs)) : InOrder us ∧ InOrder vs :=
  ⟨h.sublist (List.sublist_append_left us vs), h.sublist (List.sublist_append_right us vs)⟩

/-- The span of an expression is drawn from the tokens, and if these are in order, all spans in the
expression nest. -/
structure Expr.Drawn (e : Expr) (us : List Token) : Prop where
  drawn : ∃ span, e.span? = some span ∧ span.DrawnFrom us
  nests : InOrder us → e.NestsThroughout

namespace Expr.Drawn

variable {e base : Expr} {us vs : List Token}

theorem sublist (h : e.Drawn us) (hsub : us.Sublist vs) : e.Drawn vs := by
  obtain ⟨⟨span, hspan, hdrawn⟩, hnests⟩ := h
  exact ⟨⟨span, hspan, hdrawn.subset hsub.subset⟩, fun horder => hnests (horder.sublist hsub)⟩

theorem of_children {span : Span} (hspan : e.span? = some span) (hdrawn : span.DrawnFrom us)
    (hparts : InOrder us → ∀ part ∈ e.parts, ∃ inner, part.span? = some inner ∧ span.Covers inner)
    (hchildren : ∀ child ∈ e.children, child.Drawn us) : e.Drawn us := by
  refine ⟨⟨span, hspan, hdrawn⟩, fun horder => ?_⟩
  exact .of_children ⟨span, hspan, hparts horder⟩ fun child h => (hchildren child h).nests horder

/-- An expression that is one token. -/
theorem leaf (hspan : e.span? = some (t.span file)) (hparts : e.parts = [])
    (hchildren : e.children = []) : e.Drawn [t] := by
  refine of_children hspan (.token file (List.mem_singleton_self t)) (fun _ => ?_) ?_
  · rw [hparts]
    exact List.forall_mem_nil _
  · rw [hchildren]
    exact List.forall_mem_nil _

theorem binary {left right : Expr} (h : left.Drawn us) (h' : right.Drawn vs) (op : String) :
    (Expr.binary left op right (mergeSpans? left.span? right.span?)).Drawn (us ++ vs) := by
  have hl := h.sublist (List.sublist_append_left us vs)
  have hr := h'.sublist (List.sublist_append_right us vs)
  obtain ⟨a, ha, hleft⟩ := hl.drawn
  obtain ⟨b, hb, hright⟩ := hr.drawn
  rw [ha, hb, mergeSpans?]
  refine of_children rfl (hleft.merge hright) (fun _ => ?_) ?_
  · simp only [parts, List.forall_mem_cons]
    exact ⟨⟨a, ha, a.merge_covers_left b⟩, ⟨b, hb, a.merge_covers_right b⟩, List.forall_mem_nil _⟩
  · simp only [children, parts, List.forall_mem_cons]
    exact ⟨hl, hr, List.forall_mem_nil _⟩

/-- An expression whose one part stands behind a token. -/
theorem extended (h : base.Drawn us) (hspan : e.span? = some (extend (t.span file) base.span?))
    (hparts : e.parts = [base]) (hchildren : e.children = [base]) : e.Drawn (t :: us) := by
  have hbase := h.sublist (List.sublist_cons_self t us)
  obtain ⟨b, hb, hdrawn⟩ := hbase.drawn
  rw [hb, extend] at hspan
  have htoken : (t.span file).DrawnFrom (t :: us) := .token file (List.mem_cons_self ..)
  refine of_children hspan (htoken.merge hdrawn) (fun _ => ?_) ?_
  · rw [hparts, List.forall_mem_singleton]
    exact ⟨b, hb, Span.merge_covers_right _ b⟩
  · rw [hchildren, List.forall_mem_singleton]
    exact hbase

/-- An expression whose one part stands in front of a token. -/
theorem suffixed (h : base.Drawn us)
    (hspan : e.span? = some ((base.span?.map (·.merge (t.span file))).getD (t.span file)))
    (hparts : e.parts = [base]) (hchildren : e.children = [base]) : e.Drawn (us ++ [t]) := by
  have hbase := h.sublist (List.sublist_append_left us [t])
  obtain ⟨a, ha, hdrawn⟩ := hbase.drawn
  rw [ha, Option.map_some, Option.getD_some] at hspan
  have htoken : (t.span file).DrawnFrom (us ++ [t]) := .token file List.mem_concat_self
  refine of_children hspan (hdrawn.merge htoken) (fun _ => ?_) ?_
  · rw [hparts, List.forall_mem_singleton]
    exact ⟨a, ha, Span.merge_covers_left a _⟩
  · rw [hchildren, List.forall_mem_singleton]
    exact hbase

/-- The arguments of a call stand between the callee and the closing parenthesis. -/
theorem call {args : List Expr} (h : base.Drawn us) (hargs : ∀ arg ∈ args, arg.Drawn vs)
    (first : Span) (closing : Token) (file : String) :
    (Expr.call base args (some ((base.span?.getD first).merge (closing.span file)))).Drawn
      (us ++ vs ++ [closing]) := by
  obtain ⟨a, ha, hdrawn⟩ := h.drawn
  have hclosing : (closing.span file).DrawnFrom [closing] := .token file (List.mem_singleton_self _)
  rw [ha, Option.getD_some]
  refine of_children rfl (.merge (hdrawn.subset ?_) (hclosing.subset ?_)) (fun horder => ?_) ?_
  · simp
  · simp
  · rw [parts, List.forall_mem_cons]
    refine ⟨⟨a, ha, a.merge_covers_left _⟩, fun arg harg => ?_⟩
    obtain ⟨inner, hinner, hbetween⟩ := (hargs arg harg).drawn
    exact ⟨inner, hinner, hdrawn.covers_between hbetween hclosing horder⟩
  · simp only [children, parts, List.forall_mem_cons]
    have hfront : (us ++ vs).Sublist (us ++ vs ++ [closing]) := List.sublist_append_left _ _
    refine ⟨h.sublist ((List.sublist_append_left us vs).trans hfront), fun arg harg => ?_⟩
    exact (hargs arg harg).sublist ((List.sublist_append_right us vs).trans hfront)

theorem list {elements : List Expr} (h : ∀ e ∈ elements, e.Drawn us) (opening closing : Token)
    (file file' : String) :
    (Expr.list elements (some ((opening.span file).merge (closing.span file')))).Drawn
      (opening :: (us ++ [closing])) := by
  have hopening : (opening.span file).DrawnFrom [opening] := .token file (List.mem_singleton_self _)
  have hclosing : (closing.span file').DrawnFrom [closing] :=
    .token file' (List.mem_singleton_self _)
  refine of_children rfl (.merge (hopening.subset ?_) (hclosing.subset ?_)) (fun horder => ?_) ?_
  · simp
  · simp
  · intro part hpart
    obtain ⟨inner, hinner, hbetween⟩ := (h part hpart).drawn
    exact ⟨inner, hinner, hopening.covers_between hbetween hclosing horder⟩
  · intro child hchild
    exact (h child hchild).sublist (List.Sublist.cons _ (List.sublist_append_left us _))

theorem matching {subject : Expr} {arms : List Arm} (h : subject.Drawn us)
    (harms : ∀ arm ∈ arms, arm.body.Drawn vs) (keyword : Token) (file : String) :
    (Expr.matching subject arms (some (keyword.span file))).Drawn (keyword :: (us ++ vs)) := by
  refine of_children rfl (.token file (List.mem_cons_self ..)) (fun _ => List.forall_mem_nil _) ?_
  rw [children, List.forall_mem_cons, List.forall_mem_map]
  refine ⟨h.sublist ?_, fun arm harm => (harms arm harm).sublist ?_⟩
  · exact .cons _ (List.sublist_append_left us vs)
  · exact .cons _ (List.sublist_append_right us vs)

end Expr.Drawn

variable {file : String}

mutual

theorem Expr.Read.drawn : ∀ {e : Expr} {us : List Token}, e.Read file us → e.Drawn us
  | _, _, .int .. | _, _, .float .. | _, _, .string .. | _, _, .bool .. | _, _, .name .. =>
    .leaf rfl rfl rfl
  | _, _, .binary hleft op hright => hleft.drawn.binary hright.drawn op.text
  | _, _, .unary _ hoperand => hoperand.drawn.extended rfl rfl rfl
  | _, _, .call hcallee opening hargs closing =>
    hcallee.drawn.call (exprs_drawn hargs) (opening.span file) closing file
  | _, _, .field hobject _ => hobject.drawn.suffixed rfl rfl rfl
  | _, _, .propagate hoperand _ => hoperand.drawn.suffixed rfl rfl rfl
  | _, _, .list opening helements closing => .list (exprs_drawn helements) opening closing file file
  | _, _, .matching keyword hsubject harms =>
    hsubject.drawn.matching (arms_drawn harms) keyword Span.unknownFile

theorem exprs_drawn : ∀ {es : List Expr} {us : List Token}, Parts (Expr.Read file) es us →
    ∀ e ∈ es, e.Drawn us
  | _, _, .nil => List.forall_mem_nil _
  | _, _, .cons hfirst hmore =>
    List.forall_mem_cons.mpr ⟨hfirst.drawn.sublist (List.sublist_append_left _ _),
      fun e he => (exprs_drawn hmore e he).sublist (List.sublist_append_right _ _)⟩

theorem arms_drawn : ∀ {arms : List Arm} {us : List Token}, Parts (Arm.Read file) arms us →
    ∀ arm ∈ arms, arm.body.Drawn us
  | _, _, .nil => List.forall_mem_nil _
  | _, _, .cons (.mk name _ hbody) hmore =>
    List.forall_mem_cons.mpr
      ⟨hbody.drawn.sublist (.trans (List.sublist_cons_self name _) (List.sublist_append_left _ _)),
        fun arm harm => (arms_drawn hmore arm harm).sublist (List.sublist_append_right _ _)⟩

end

/-! ### Statements -/

/-- The value that the span of a statement has to cover. -/
def Stmt.value? : Stmt → Option Expr
  | .letVar _ value _ _ _ => some value
  | .assign _ value _ => some value
  | .ret value? _ => value?
  | .expr .. | .whileLoop .. | .forLoop .. | .loop .. | .breakLoop .. | .continueLoop ..
  | .ifElse .. | .fn .. | .bare .. | .unknown => none

def Stmt.Nests (s : Stmt) : Prop :=
  ∀ value, s.value? = some value →
    ∃ span inner, s.span? = some span ∧ value.span? = some inner ∧ span.Covers inner

theorem Stmt.nests_of_none (h : s.value? = none) : s.Nests := by
  intro value hvalue
  rw [h] at hvalue
  cases hvalue

mutual

/-- A statement and those that stand in its blocks. -/
def Stmt.within : Stmt → List Stmt
  | .whileLoop condition body span? => .whileLoop condition body span? :: stmtsWithin body
  | .forLoop item collection body span? => .forLoop item collection body span? :: stmtsWithin body
  | .loop body span? => .loop body span? :: stmtsWithin body
  | .ifElse condition thenBody none span? =>
    .ifElse condition thenBody none span? :: stmtsWithin thenBody
  | .ifElse condition thenBody (some elseBody) span? =>
    .ifElse condition thenBody (some elseBody) span? ::
      (stmtsWithin thenBody ++ stmtsWithin elseBody)
  | s => [s]

def stmtsWithin : List Stmt → List Stmt
  | [] => []
  | s :: rest => s.within ++ stmtsWithin rest

end

def Program.stmts (p : Program) : List Stmt :=
  p.functions.flatMap (fun fn => stmtsWithin fn.body) ++ stmtsWithin p.statements

/-- All expressions and statements that stand in a statement nest. -/
structure Stmt.NestsThroughout (s : Stmt) : Prop where
  exprs : ∀ spot ∈ s.spots, spot.expr.Nests
  stmts : ∀ inner ∈ s.within, inner.Nests

theorem stmtsSpots_nest {ss : List Stmt} (h : ∀ s ∈ ss, s.NestsThroughout) :
    ∀ spot ∈ stmtsSpots ss, spot.expr.Nests := by
  induction ss with
  | nil => exact List.forall_mem_nil _
  | cons s ss ih =>
    rw [List.forall_mem_cons] at h
    rw [stmtsSpots, List.forall_mem_append]
    exact ⟨h.1.exprs, ih h.2⟩

theorem stmtsWithin_nest {ss : List Stmt} (h : ∀ s ∈ ss, s.NestsThroughout) :
    ∀ s ∈ stmtsWithin ss, s.Nests := by
  induction ss with
  | nil => exact List.forall_mem_nil _
  | cons s ss ih =>
    rw [List.forall_mem_cons] at h
    rw [stmtsWithin, List.forall_mem_append]
    exact ⟨h.1.stmts, ih h.2⟩

/-- A statement with a value that its span was drawn out to cover. -/
theorem Stmt.NestsThroughout.of_value {value : Expr} {a : Span} (hvalue : value.Drawn us)
    (horder : InOrder us) (hspots : s.spots = value.spots [] false) (hwithin : s.within = [s])
    (hown : s.value? = some value) (hspan : s.span? = some (extend a value.span?)) :
    s.NestsThroughout := by
  obtain ⟨inner, hinner, -⟩ := hvalue.drawn
  rw [hinner, extend] at hspan
  constructor
  · rw [hspots]
    exact hvalue.nests horder [] false
  · rw [hwithin, List.forall_mem_singleton]
    intro value' hvalue'
    obtain rfl : value = value' := Option.some.inj (hown.symm.trans hvalue')
    exact ⟨_, inner, hspan, hinner, a.merge_covers_right inner⟩

/-- A statement without a value of its own and without blocks. -/
theorem Stmt.NestsThroughout.of_bare (hspots : ∀ spot ∈ s.spots, spot.expr.Nests)
    (hwithin : s.within = [s]) (hown : s.value? = none) : s.NestsThroughout := by
  refine ⟨hspots, ?_⟩
  rw [hwithin, List.forall_mem_singleton]
  exact Stmt.nests_of_none hown

theorem Stmt.NestsThroughout.of_block {own : List Spot} {body : List Stmt}
    (hown : ∀ spot ∈ own, spot.expr.Nests) (hbody : ∀ s ∈ body, s.NestsThroughout)
    (hspots : s.spots = own ++ stmtsSpots body) (hwithin : s.within = s :: stmtsWithin body)
    (hvalue : s.value? = none) : s.NestsThroughout := by
  constructor
  · rw [hspots, List.forall_mem_append]
    exact ⟨hown, stmtsSpots_nest hbody⟩
  · rw [hwithin, List.forall_mem_cons]
    exact ⟨Stmt.nests_of_none hvalue, stmtsWithin_nest hbody⟩

/-- The tokens behind the first one are in order. -/
theorem InOrder.tail (h : InOrder (t :: us)) : InOrder us :=
  h.sublist (List.sublist_cons_self t us)

mutual

theorem Stmt.Read.nest : ∀ {s : Stmt} {us : List Token}, s.Read file us → InOrder us →
    s.NestsThroughout
  | _, _, .letVar _ _ _ _ hvalue, horder => .of_value hvalue.drawn horder.tail.tail rfl rfl rfl rfl
  | _, _, .assign _ hvalue, horder | _, _, .retValue _ hvalue, horder =>
    .of_value hvalue.drawn horder.tail rfl rfl rfl rfl
  | _, _, .expr he, horder => .of_bare (he.drawn.nests horder [] false) rfl rfl
  | _, _, .ret _, _ | _, _, .breakLoop _, _ | _, _, .continueLoop _, _ =>
    .of_bare (List.forall_mem_nil _) rfl rfl
  | _, _, .whileLoop _ hvalue hbody, horder | _, _, .ifThen _ hvalue hbody, horder => by
    obtain ⟨hus, hvs⟩ := horder.tail.of_append
    exact .of_block (hvalue.drawn.nests hus [] false) (stmts_nest hbody hvs) rfl rfl rfl
  | _, _, .forLoop _ _ hvalue hbody, horder => by
    obtain ⟨hus, hvs⟩ := horder.tail.tail.of_append
    exact .of_block (hvalue.drawn.nests hus [] false) (stmts_nest hbody hvs) rfl rfl rfl
  | _, _, .loop _ hbody, horder =>
    .of_block (List.forall_mem_nil _) (stmts_nest hbody horder.tail) rfl rfl rfl
  | _, _, .ifElse _ hcondition hthen helse, horder => by
    obtain ⟨hus, hrest⟩ := horder.tail.of_append
    obtain ⟨hvs, hws⟩ := hrest.of_append
    have hthen' := stmts_nest hthen hvs
    have helse' := stmts_nest helse hws
    constructor
    · rw [Stmt.spots, List.forall_mem_append, List.forall_mem_append]
      exact ⟨hcondition.drawn.nests hus [] false, stmtsSpots_nest hthen', stmtsSpots_nest helse'⟩
    · rw [Stmt.within, List.forall_mem_cons, List.forall_mem_append]
      exact ⟨Stmt.nests_of_none rfl, stmtsWithin_nest hthen', stmtsWithin_nest helse'⟩

theorem stmts_nest : ∀ {ss : List Stmt} {us : List Token}, Parts (Stmt.Read file) ss us →
    InOrder us → ∀ s ∈ ss, s.NestsThroughout
  | _, _, .nil, _ => List.forall_mem_nil _
  | _, _, .cons hfirst hmore, horder =>
    List.forall_mem_cons.mpr
      ⟨hfirst.nest horder.of_append.1, stmts_nest hmore horder.of_append.2⟩

end

/-! ### Programs -/

def Item.Nests : Item → Prop
  | .function fn => ∀ s ∈ fn.body, s.NestsThroughout
  | .stmt s => s.NestsThroughout
  | .importing _ | .fault _ => True

theorem Item.Read.nest {i : Item} (h : i.Read file us) (horder : InOrder us) : i.Nests := by
  cases h with
  | importing _ => exact trivial
  | stmt hs => exact hs.nest horder
  | function hfn =>
    obtain ⟨keyword, name, _, _, hbody⟩ := hfn
    exact stmts_nest hbody horder.tail.tail

theorem items_nest {items : List Item} (h : Parts (Item.Read file) items us) (horder : InOrder us) :
    ∀ i ∈ items, i.Nests := by
  induction h with
  | nil => exact List.forall_mem_nil _
  | cons hfirst _ ih =>
    obtain ⟨hus, hvs⟩ := horder.of_append
    exact List.forall_mem_cons.mpr ⟨hfirst.nest hus, ih hvs⟩

theorem parse_nests {source : String} {p : Program} (h : tokenize source = .ok tokens)
    (hp : parse file tokens = .ok p) :
    (∀ fn ∈ p.functions, ∀ s ∈ fn.body, s.NestsThroughout) ∧
      ∀ s ∈ p.statements, s.NestsThroughout := by
  obtain ⟨us, hus, hread, rfl⟩ := parse_read hp
  have hitems := items_nest hread ((tokens_inOrder h).sublist hus)
  exact ⟨fun fn hfn => hitems _ (Reading.mem_functions.mp hfn),
    fun s hs => hitems _ (Reading.mem_statements.mp hs)⟩

/-- **Spans nest.**  In a program that is read from a text, every expression has a span, and it
covers the span of each of its direct parts; and the span of every statement that has a value covers
that of the value. -/
theorem spans_nest {source file : String} {p : Program} (h : readProgram file source = .ok p) :
    (∀ spot ∈ p.spots, spot.expr.Nests) ∧ ∀ s ∈ p.stmts, s.Nests := by
  obtain ⟨tokens, htokens, hp⟩ := of_readProgram_eq_ok h
  obtain ⟨hfns, hstatements⟩ := parse_nests htokens hp
  constructor
  · rw [Program.spots, List.forall_mem_append, List.forall_mem_flatMap]
    exact ⟨fun fn hfn => stmtsSpots_nest (hfns fn hfn), stmtsSpots_nest hstatements⟩
  · rw [Program.stmts, List.forall_mem_append, List.forall_mem_flatMap]
    exact ⟨fun fn hfn => stmtsWithin_nest (hfns fn hfn), stmtsWithin_nest hstatements⟩

/-- An empty string, whose span ends before it starts, and a string that is written over two lines
and has a span on the first one, both between the brackets of a list. -/
theorem spans_nest_strings :
    ∃ p, readProgram "" "let a = f([\"\", \"b\\\nc\"], -x.y?)\nreturn a + 1" = .ok p ∧
      (p.spots.take 4).filterMap (·.expr.span?.map Span.start) =
        [⟨1, 9⟩, ⟨1, 11⟩, ⟨1, 12⟩, ⟨1, 16⟩] ∧
      (p.spots.take 4).filterMap (·.expr.span?.map Span.stop) =
        [⟨2, 11⟩, ⟨2, 3⟩, ⟨1, 11⟩, ⟨1, 18⟩] ∧
      (∀ spot ∈ p.spots, spot.expr.Nests) ∧ ∀ s ∈ p.stmts, s.Nests := by
  refine exists_program (P := fun p =>
      (p.spots.take 4).filterMap (·.expr.span?.map Span.start) =
        [⟨1, 9⟩, ⟨1, 11⟩, ⟨1, 12⟩, ⟨1, 16⟩] ∧
      (p.spots.take 4).filterMap (·.expr.span?.map Span.stop) =
        [⟨2, 11⟩, ⟨2, 3⟩, ⟨1, 11⟩, ⟨1, 18⟩])
    String.toList_ofList (by decide +kernel) ?_
  rintro p hp ⟨hstarts, hstops⟩
  exact ⟨hstarts, hstops, spans_nest hp⟩

end Owl
