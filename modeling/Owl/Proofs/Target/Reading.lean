/-
Reading expressions of the target.

A call, an index or a field binds tighter than a sign, a sign tighter than `*`, `/`
and `%`, these tighter than `+` and `-`, these tighter than a comparison, a comparison
tighter than `and`, and that tighter than a choice.  Operators of one rank group to the
left; comparisons that stand side by side are one chain.

* `Reads.add`, `Reads.compare`, … — how symbols are put together.
-/
import Owl.Proofs.Target.Symbols

namespace Owl.Target

/-- An expression of the target. -/
inductive Tree
  | name (s : String)
  | number (s : String)
  | string (s : String)
  | list (items : List Tree)
  | call (callee : Tree) (args : List Tree)
  | index (object place : Tree)
  | field (object : Tree) (name : String)
  | neg (operand : Tree)
  | binary (op : Op) (left right : Tree)
  /-- A chain of comparisons. -/
  | compare (first : Tree) (rest : List (Op × Tree))
  | both (left right : Tree)
  | choose (value test other : Tree)
  | lambda (param : String) (body : Tree)
deriving Repr

/-! ### Reading symbols -/

abbrev Reader (α : Type) := List Symbol → Option (α × List Symbol)

variable {rest ts : List Symbol} {t u : Tree} {s close : Symbol} {operand : Reader Tree} {o : Op}
  {tss : List (List Symbol)} {trees : List Tree}

def expect (symbol : Symbol) : List Symbol → Option (List Symbol)
  | [] => none
  | s :: ts => if s = symbol then some ts else none

section Grammar

variable (inner : Reader Tree)

/-- One or more expressions with commas between them, and the bracket behind them. -/
def items (close : Symbol) : Nat → Reader (List Tree)
  | 0, _ => none
  | rounds + 1, ts => do
    let (t, ts) ← inner ts
    if ts.head? = some .comma then
      let (more, ts) ← items close rounds (ts.drop 1)
      return (t :: more, ts)
    else
      return ([t], ← expect close ts)

/-- Any number of expressions with commas between them, and the bracket behind them. -/
def listing (close : Symbol) : Reader (List Tree) := fun ts =>
  if ts.head? = some close then some ([], ts.drop 1) else items inner close (ts.length + 1) ts

/-- A name, a number, a string, a list, or an expression in brackets. -/
def atom : Reader Tree
  | .name s :: ts => some (.name s, ts)
  | .number s :: ts => some (.number s, ts)
  | .string s :: ts => some (.string s, ts)
  | .lparen :: ts => do
    let (t, ts) ← inner ts
    return (t, ← expect .rparen ts)
  | .lbracket :: ts => do
    let (values, ts) ← listing inner .rbracket ts
    return (.list values, ts)
  | _ => none

/-- The fields, calls and indices behind an expression. -/
def trailers : Nat → Tree → Reader Tree
  | rounds + 1, t, .dot :: .name s :: ts => trailers rounds (.field t s) ts
  | rounds + 1, t, .lparen :: ts => do
    let (args, ts) ← listing inner .rparen ts
    trailers rounds (.call t args) ts
  | rounds + 1, t, .lbracket :: ts => do
    let (place, ts) ← inner ts
    trailers rounds (.index t place) (← expect .rbracket ts)
  | _, t, ts => some (t, ts)

def primary : Reader Tree := fun ts => do
  let (t, ts) ← atom inner ts
  trailers inner (ts.length + 1) t ts

def unary : Reader Tree
  | .op .sub :: ts => do
    let (t, ts) ← unary ts
    return (.neg t, ts)
  | ts => primary inner ts

end Grammar

def Op.rank : Op → Nat
  | .mul | .div | .mod => 5
  | .add | .sub => 4
  | .eq | .ne | .lt | .gt | .le | .ge | .is | .isNot => 3

/-- How tightly a symbol binds what stands in front of it. -/
def Symbol.rank : Symbol → Nat
  | .dot | .lparen | .lbracket => 6
  | .op o => o.rank
  | .kwIs => 3
  | .kwAnd => 2
  | .kwIf => 1
  | _ => 0

def joins (rank : Nat) : Symbol → Option (Tree → Tree → Tree)
  | .op o => if o.rank = rank then some (.binary o) else none
  | .kwAnd => if rank = 2 then some .both else none
  | _ => none

section Chains

variable (operand : Reader Tree)

/-- The operators of a rank that follow an expression, with what is behind them. -/
def chain (rank : Nat) : Nat → Tree → Reader Tree
  | rounds + 1, t, s :: ts =>
    match joins rank s with
    | none => some (t, s :: ts)
    | some join => do
      let (u, ts) ← operand ts
      chain rank rounds (join t u) ts
  | _, t, ts => some (t, ts)

def leftward (rank : Nat) : Reader Tree := fun ts => do
  let (t, ts) ← operand ts
  chain operand rank (ts.length + 1) t ts

/-- A comparison, which may take two words. -/
def comparing? : Reader Op
  | .kwIs :: .kwNot :: ts => some (.isNot, ts)
  | .kwIs :: ts => some (.is, ts)
  | .op o :: ts => if o.rank = 3 then some (o, ts) else none
  | _ => none

def comparisons : Nat → Reader (List (Op × Tree))
  | rounds + 1, ts =>
    match comparing? ts with
    | none => some ([], ts)
    | some (o, ts) => do
      let (u, ts) ← operand ts
      let (more, ts) ← comparisons rounds ts
      return ((o, u) :: more, ts)
  | 0, ts => some ([], ts)

def compared : Reader Tree := fun ts => do
  let (t, ts) ← operand ts
  let (more, ts) ← comparisons operand (ts.length + 1) ts
  return (if more.isEmpty then t else .compare t more, ts)

end Chains

/-- Products, sums, comparisons and `and`, each made of what comes before it. -/
def product (inner : Reader Tree) : Reader Tree := leftward (unary inner) 5

@[inherit_doc product]
def sum (inner : Reader Tree) : Reader Tree := leftward (product inner) 4

@[inherit_doc product]
def comparison (inner : Reader Tree) : Reader Tree := compared (sum inner)

@[inherit_doc product]
def conjunction (inner : Reader Tree) : Reader Tree := leftward (comparison inner) 2

/-- An expression; the number bounds how deep brackets are nested. -/
def whole : Nat → Reader Tree
  | 0, _ => none
  | depth + 1, .kwLambda :: .name s :: .colon :: ts => do
    let (body, ts) ← whole depth ts
    return (.lambda s body, ts)
  | depth + 1, ts => do
    let (t, ts) ← conjunction (whole depth) ts
    if ts.head? = some .kwIf then
      let (test, ts) ← conjunction (whole depth) (ts.drop 1)
      let (other, ts) ← whole depth (← expect .kwElse ts)
      return (.choose t test other, ts)
    else
      return (t, ts)

/-- The tree of a text, if it is an expression. -/
def read (s : String) : Option Tree := do
  let ts ← lex s
  match whole (ts.length + 1) ts with
  | some (t, []) => some t
  | _ => none

/-! ### Symbols that are read as a tree -/

/-- The kinds of expressions, by what they can be an operand of. -/
inductive Level
  | primary
  | unary
  | product
  | sum
  | comparison
  | conjunction
  | whole
deriving DecidableEq, Repr

/-- How many kinds of expressions a kind is part of. -/
def Level.order : Level → Nat
  | .primary => 6
  | .unary => 5
  | .product => 4
  | .sum => 3
  | .comparison => 2
  | .conjunction => 1
  | .whole => 0

/-- The first rank of symbols that cannot follow.  More sums can follow a sum, and anything can
follow a primary expression: they group to the left. -/
def Level.limit : Level → Nat
  | .primary => 7
  | .unary => 6
  | .product => 5
  | .sum => 5
  | .comparison => 3
  | .conjunction => 2
  | .whole => 1

def Stops (rank : Nat) (rest : List Symbol) : Prop := ∀ s, rest.head? = some s → s.rank < rank

/-- Symbols are read as a tree, whatever follows.  Where more of the same kind can follow, reading
goes on with the tree. -/
def Reads (level : Level) (ts : List Symbol) (t : Tree) : Prop :=
  ∀ depth rest, ts.length ≤ depth → Stops level.limit rest →
    match level with
    | .primary => ∃ rounds, rest.length < rounds ∧
        primary (whole depth) (ts ++ rest) = trailers (whole depth) rounds t rest
    | .unary => unary (whole depth) (ts ++ rest) = some (t, rest)
    | .product => product (whole depth) (ts ++ rest) = some (t, rest)
    | .sum => ∃ rounds, rest.length < rounds ∧
        sum (whole depth) (ts ++ rest) = chain (product (whole depth)) 4 rounds t rest
    | .comparison => comparison (whole depth) (ts ++ rest) = some (t, rest)
    | .conjunction => conjunction (whole depth) (ts ++ rest) = some (t, rest)
    | .whole => whole (depth + 1) (ts ++ rest) = some (t, rest)

theorem Stops.mono {a b : Nat} (h : Stops a rest) (hle : a ≤ b) : Stops b rest := by
  intro s hs
  have := h s hs
  omega

theorem Stops.cons {rank : Nat} (h : s.rank < rank) (rest : List Symbol) :
    Stops rank (s :: rest) := by
  intro s' hs
  cases hs
  exact h

/-! ### What binds tightly can stand wherever something looser can -/

theorem trailers_stop (inner : Reader Tree) (rounds : Nat) (t : Tree) (h : Stops 6 rest) :
    trailers inner rounds t rest = some (t, rest) := by
  unfold trailers
  split
  · exact absurd (h _ rfl) (by decide)
  · exact absurd (h _ rfl) (by decide)
  · exact absurd (h _ rfl) (by decide)
  · rfl

theorem joins_of_rank {rank : Nat} (h : s.rank < rank) : joins rank s = none := by
  unfold joins
  split
  · rw [if_neg]
    exact Nat.ne_of_lt h
  · rw [if_neg]
    exact Ne.symm (Nat.ne_of_lt h)
  · rfl

theorem chain_stop (operand : Reader Tree) {rank : Nat} (rounds : Nat) (t : Tree)
    (h : Stops rank rest) : chain operand rank rounds t rest = some (t, rest) := by
  cases rounds with
  | zero => rw [chain]; simp
  | succ rounds =>
    cases rest with
    | nil => rw [chain]; simp
    | cons s rest => rw [chain, joins_of_rank (h s rfl)]

theorem chain_step (operand : Reader Tree) {rank rounds : Nat} {join : Tree → Tree → Tree}
    (hjoin : joins rank s = some join) (h : operand ts = some (u, rest)) :
    chain operand rank (rounds + 1) t (s :: ts) = chain operand rank rounds (join t u) rest := by
  rw [chain, hjoin]
  show (do
    let (u, ts) ← operand ts
    chain operand rank rounds (join t u) ts) = _
  rw [h]
  rfl

theorem leftward_open {rank : Nat} (h : operand ts = some (t, rest)) :
    leftward operand rank ts = chain operand rank (rest.length + 1) t rest := by
  rw [leftward, h]
  rfl

theorem leftward_stop {rank : Nat} (h : operand ts = some (t, rest)) (hstop : Stops rank rest) :
    leftward operand rank ts = some (t, rest) := by
  rw [leftward_open h, chain_stop _ _ _ hstop]

theorem comparing?_stop (h : Stops 3 rest) : comparing? rest = none := by
  unfold comparing?
  split
  · exact absurd (h _ rfl) (by decide)
  · exact absurd (h _ rfl) (by decide)
  · rw [if_neg]
    exact Nat.ne_of_lt (h _ rfl)
  · rfl

theorem comparisons_stop (operand : Reader Tree) (rounds : Nat) (h : Stops 3 rest) :
    comparisons operand rounds rest = some ([], rest) := by
  cases rounds with
  | zero => rfl
  | succ rounds => rw [comparisons, comparing?_stop h]

theorem compared_stop (h : operand ts = some (t, rest)) (hstop : Stops 3 rest) :
    compared operand ts = some (t, rest) := by
  rw [compared, h]
  show (do
    let (more, ts) ← comparisons operand (rest.length + 1) rest
    return (if more.isEmpty then t else .compare t more, ts)) = _
  rw [comparisons_stop _ _ hstop]
  rfl

theorem compared_one {us vs : List Symbol} (hleft : operand ts = some (t, us))
    (ho : comparing? us = some (o, vs)) (hright : operand vs = some (u, rest))
    (hstop : Stops 3 rest) : compared operand ts = some (.compare t [(o, u)], rest) := by
  have hmore : comparisons operand (us.length + 1) us = some ([(o, u)], rest) := by
    rw [comparisons, ho]
    simp only [hright, comparisons_stop _ _ hstop, Option.bind_eq_bind, Option.bind_some]
    rfl
  simp only [compared, hleft, hmore, Option.bind_eq_bind, Option.bind_some]
  rfl

theorem unary_of_primary {inner : Reader Tree} {r : Tree × List Symbol}
    (h : primary inner ts = some r) : unary inner ts = some r := by
  unfold unary
  split
  · cases h
  · exact h

theorem whole_of_conjunction {depth : Nat} (h : conjunction (whole depth) ts = some (t, rest))
    (hrest : rest.head? ≠ some .kwIf) : whole (depth + 1) ts = some (t, rest) := by
  have hhead : ∀ s us, ts = .kwLambda :: .name s :: .colon :: us → False := by
    rintro s us rfl
    cases h
  rw [whole, h]
  · show (if rest.head? = some .kwIf then _ else _) = _
    rw [if_neg hrest]
    rfl
  · exact hhead

section Weaken

variable {ts : List Symbol} {t : Tree}

theorem Reads.unary (h : Reads .primary ts t) : Reads .unary ts t := by
  intro depth rest hdepth hstop
  obtain ⟨rounds, -, hread⟩ := h depth rest hdepth (hstop.mono (by decide))
  -- Nothing follows that binds as tightly, so reading stops there.
  rw [trailers_stop _ _ _ hstop] at hread
  exact unary_of_primary hread

theorem Reads.product (h : Reads .unary ts t) : Reads .product ts t := by
  intro depth rest hdepth hstop
  exact leftward_stop (h depth rest hdepth (hstop.mono (by decide))) hstop

theorem Reads.sum (h : Reads .product ts t) : Reads .sum ts t := by
  intro depth rest hdepth hstop
  exact ⟨rest.length + 1, by omega, leftward_open (h depth rest hdepth hstop)⟩

theorem Reads.comparison (h : Reads .sum ts t) : Reads .comparison ts t := by
  intro depth rest hdepth hstop
  obtain ⟨rounds, -, hread⟩ := h depth rest hdepth (hstop.mono (by decide))
  rw [chain_stop _ _ _ (hstop.mono (by decide))] at hread
  exact compared_stop hread hstop

theorem Reads.conjunction (h : Reads .comparison ts t) : Reads .conjunction ts t := by
  intro depth rest hdepth hstop
  exact leftward_stop (h depth rest hdepth (hstop.mono (by decide))) hstop

theorem Reads.whole (h : Reads .conjunction ts t) : Reads .whole ts t := by
  intro depth rest hdepth hstop
  refine whole_of_conjunction (h depth rest hdepth (hstop.mono (by decide))) ?_
  intro hhead
  exact absurd (hstop _ hhead) (by decide)

end Weaken

/-- What binds tightly can stand wherever something looser can. -/
theorem Reads.weaken {a b : Level} (h : Reads a ts t) (hle : b.order ≤ a.order) : Reads b ts t := by
  -- Down from the tighter level, one level at a time.
  have hdown : ∀ k (a : Level), a.order = b.order + k → Reads a ts t → Reads b ts t := by
    intro k
    induction k with
    | zero =>
      intro a horder h
      have hsame : a = b := by
        revert horder
        cases a <;> cases b <;> decide
      exact hsame ▸ h
    | succ k ih =>
      intro a horder h
      cases a with
      | primary => exact ih .unary (by simp only [Level.order] at horder ⊢; omega) h.unary
      | unary => exact ih .product (by simp only [Level.order] at horder ⊢; omega) h.product
      | product => exact ih .sum (by simp only [Level.order] at horder ⊢; omega) h.sum
      | sum => exact ih .comparison (by simp only [Level.order] at horder ⊢; omega) h.comparison
      | comparison =>
        exact ih .conjunction (by simp only [Level.order] at horder ⊢; omega) h.conjunction
      | conjunction => exact ih .whole (by simp only [Level.order] at horder ⊢; omega) h.whole
      | whole =>
        simp only [Level.order] at horder
        omega
  exact hdown (a.order - b.order) a (by omega) h

/-! ### Putting symbols together -/

section Compose

variable {ts us : List Symbol} {t u : Tree}

theorem Reads.inner (h : Reads .whole ts t) {depth : Nat} (hdepth : ts.length < depth)
    (hs : s.rank = 0) (rest : List Symbol) :
    Target.whole depth (ts ++ s :: rest) = some (t, s :: rest) := by
  obtain ⟨depth, rfl⟩ : ∃ k, depth = k + 1 := ⟨depth - 1, by omega⟩
  exact h depth (s :: rest) (by omega) (.cons (by rw [hs]; decide) rest)

theorem Reads.atom (h : ∀ depth rest, ts.length ≤ depth →
    Target.atom (Target.whole depth) (ts ++ rest) = some (t, rest)) : Reads .primary ts t := by
  intro depth rest hdepth _
  refine ⟨rest.length + 1, by omega, ?_⟩
  rw [primary, h depth rest hdepth]
  rfl

theorem Reads.parens (h : Reads .whole ts t) : Reads .primary (.lparen :: ts ++ [Symbol.rparen]) t := by
  refine .atom fun depth rest hdepth => ?_
  rw [List.length_append, List.length_cons, List.length_singleton] at hdepth
  rw [List.append_assoc, List.cons_append, List.singleton_append, Target.atom,
    h.inner (by omega) rfl]
  rfl

theorem Symbol.rank_lt (s : Symbol) : s.rank < 7 := by
  cases s with
  | op o => cases o <;> decide
  | _ => simp [Symbol.rank]

/-- Something behind a primary expression that makes another one of it. -/
theorem Reads.trailer (h : Reads .primary ts t) (hne : us ≠ [])
    (hstep : ∀ depth rounds rest, us.length ≤ depth →
      trailers (Target.whole depth) (rounds + 1) t (us ++ rest) =
        trailers (Target.whole depth) rounds u rest) : Reads .primary (ts ++ us) u := by
  intro depth rest hdepth _
  rw [List.length_append] at hdepth
  -- Reading goes on behind the expression, with a round left for what follows.
  obtain ⟨rounds, hrounds, hread⟩ := h depth (us ++ rest) (by omega) fun s _ => s.rank_lt
  obtain ⟨rounds, rfl⟩ : ∃ k, rounds = k + 1 := ⟨rounds - 1, by omega⟩
  have hlength := List.length_pos_of_ne_nil hne
  rw [List.length_append] at hrounds
  refine ⟨rounds, by omega, ?_⟩
  rw [List.append_assoc, hread, hstep depth rounds rest (by omega)]

theorem Reads.field (h : Reads .primary ts t) (s : String) :
    Reads .primary (ts ++ [Symbol.dot, Symbol.name s]) (.field t s) := by
  refine h.trailer (by simp) fun depth rounds rest _ => ?_
  rw [List.cons_append, List.singleton_append, trailers]

theorem Reads.index (h : Reads .primary ts t) (hu : Reads .whole us u) :
    Reads .primary (ts ++ .lbracket :: us ++ [Symbol.rbracket]) (.index t u) := by
  rw [List.append_assoc]
  refine h.trailer (by simp) fun depth rounds rest hdepth => ?_
  rw [List.length_append, List.length_cons, List.length_singleton] at hdepth
  rw [List.append_assoc, List.cons_append, List.singleton_append, trailers,
    hu.inner (by omega) rfl]
  rfl

theorem Reads.neg (h : Reads .unary ts t) : Reads .unary (.op .sub :: ts) (.neg t) := by
  intro depth rest hdepth hstop
  rw [List.length_cons] at hdepth
  show Target.unary _ (.op .sub :: (ts ++ rest)) = _
  rw [Target.unary, h depth rest (by omega) hstop]
  rfl

theorem leftward_join {rank : Nat} {join : Tree → Tree → Tree} {us : List Symbol}
    (hjoin : joins rank s = some join) (hleft : operand ts = some (t, s :: us))
    (hright : operand us = some (u, rest)) (hstop : Stops rank rest) :
    leftward operand rank ts = some (join t u, rest) := by
  rw [leftward_open hleft, chain_step _ hjoin hright]
  exact chain_stop _ _ _ hstop

theorem Reads.multiply (ho : o.rank = 5) (h : Reads .unary ts t) (hu : Reads .unary us u) :
    Reads .product (ts ++ .op o :: us) (.binary o t u) := by
  intro depth rest hdepth hstop
  rw [List.length_append, List.length_cons] at hdepth
  have hleft := h depth (.op o :: (us ++ rest)) (by omega)
    (.cons (by rw [Symbol.rank, ho]; decide) _)
  have hright := hu depth rest (by omega) (hstop.mono (by decide))
  have hjoin : joins 5 (.op o) = some (.binary o) := if_pos ho
  rw [List.append_assoc, List.cons_append]
  exact leftward_join hjoin hleft hright hstop

/-- Sums group to the left: the right operand is none itself. -/
theorem Reads.add (ho : o.rank = 4) (h : Reads .sum ts t) (hu : Reads .product us u) :
    Reads .sum (ts ++ .op o :: us) (.binary o t u) := by
  intro depth rest hdepth hstop
  rw [List.length_append, List.length_cons] at hdepth
  obtain ⟨rounds, hrounds, hleft⟩ := h depth (.op o :: (us ++ rest)) (by omega)
    (.cons (by rw [Symbol.rank, ho]; decide) _)
  have hright := hu depth rest (by omega) hstop
  have hjoin : joins 4 (.op o) = some (.binary o) := if_pos ho
  obtain ⟨rounds, rfl⟩ : ∃ k, rounds = k + 1 := ⟨rounds - 1, by omega⟩
  rw [List.length_cons, List.length_append] at hrounds
  refine ⟨rounds, by omega, ?_⟩
  rw [List.append_assoc, List.cons_append, hleft, chain_step _ hjoin hright]

/-- A comparison that is not part of a longer chain. -/
theorem Reads.compare {symbols : List Symbol}
    (ho : ∀ rest, comparing? (symbols ++ (us ++ rest)) = some (o, us ++ rest))
    (hrank : ∀ rest, Stops 4 (symbols ++ rest)) (h : Reads .sum ts t) (hu : Reads .sum us u) :
    Reads .comparison (ts ++ symbols ++ us) (.compare t [(o, u)]) := by
  intro depth rest hdepth hstop
  simp only [List.length_append] at hdepth
  obtain ⟨_, -, hleft⟩ := h depth (symbols ++ (us ++ rest)) (by omega)
    ((hrank _).mono (by decide))
  rw [chain_stop _ _ _ (hrank _)] at hleft
  obtain ⟨_, -, hright⟩ := hu depth rest (by omega) (hstop.mono (by decide))
  rw [chain_stop _ _ _ (hstop.mono (by decide))] at hright
  rw [List.append_assoc, List.append_assoc]
  exact compared_one hleft (ho rest) hright hstop

theorem Reads.both (h : Reads .comparison ts t) (hu : Reads .comparison us u) :
    Reads .conjunction (ts ++ .kwAnd :: us) (.both t u) := by
  intro depth rest hdepth hstop
  rw [List.length_append, List.length_cons] at hdepth
  have hleft := h depth (.kwAnd :: (us ++ rest)) (by omega) (.cons (by decide) _)
  have hright := hu depth rest (by omega) (hstop.mono (by decide))
  rw [List.append_assoc, List.cons_append]
  exact leftward_join rfl hleft hright hstop

theorem Reads.choose {vs : List Symbol} {v : Tree} (h : Reads .conjunction ts t)
    (hu : Reads .conjunction us u) (hv : Reads .whole vs v) :
    Reads .whole (ts ++ .kwIf :: us ++ .kwElse :: vs) (.choose t u v) := by
  intro depth rest hdepth hstop
  simp only [List.length_append, List.length_cons] at hdepth
  have hvalue := h depth (.kwIf :: (us ++ .kwElse :: (vs ++ rest))) (by omega) (.cons (by decide) _)
  have htest := hu depth (.kwElse :: (vs ++ rest)) (by omega) (.cons (by decide) _)
  obtain ⟨depth, rfl⟩ : ∃ k, depth = k + 1 := ⟨depth - 1, by omega⟩
  have hother := hv depth rest (by omega) hstop
  have hhead : ∀ s more, ts ++ .kwIf :: (us ++ .kwElse :: (vs ++ rest)) =
      .kwLambda :: .name s :: .colon :: more → False := by
    intro s more heq
    rw [heq] at hvalue
    cases hvalue
  have happend : ts ++ .kwIf :: us ++ .kwElse :: vs ++ rest =
      ts ++ .kwIf :: (us ++ .kwElse :: (vs ++ rest)) := by simp
  rw [happend]
  show Target.whole (depth + 1 + 1) _ = _
  rw [Target.whole, hvalue]
  · show (do
      let (test, ts) ← Target.conjunction (Target.whole (depth + 1))
        (us ++ Symbol.kwElse :: (vs ++ rest))
      let (other, ts) ← Target.whole (depth + 1) (← expect .kwElse ts)
      return (Tree.choose t test other, ts)) = _
    rw [htest]
    show (do
      let (other, ts) ← Target.whole (depth + 1) (vs ++ rest)
      return (Tree.choose t u other, ts)) = _
    rw [hother]
    rfl
  · exact hhead

theorem Reads.lambda (h : Reads .whole ts t) (s : String) :
    Reads .whole (.kwLambda :: .name s :: .colon :: ts) (.lambda s t) := by
  intro depth rest hdepth hstop
  simp only [List.length_cons] at hdepth
  obtain ⟨depth, rfl⟩ : ∃ k, depth = k + 1 := ⟨depth - 1, by omega⟩
  show Target.whole (depth + 1 + 1) (.kwLambda :: .name s :: .colon :: (ts ++ rest)) = _
  rw [Target.whole, h depth rest (by omega) hstop]
  rfl

end Compose

/-! ### Lists and calls -/

theorem Reads.head (h : Reads .whole ts t) (hclose : close = .rparen ∨ close = .rbracket)
    (rest : List Symbol) : (ts ++ rest).head? ≠ some close := by
  have hread := h ts.length [] (Nat.le_refl _) (fun _ hs => nomatch hs)
  rw [List.append_nil] at hread
  cases ts with
  | nil => cases hread
  | cons s ts =>
    intro hs
    rw [List.cons_append, List.head?_cons, Option.some.injEq] at hs
    subst hs
    rcases hclose with rfl | rfl <;> cases hread

/-- Expressions with commas between them, up to a closing bracket. -/
theorem items_reads (hrank : close.rank = 0) (hcomma : close ≠ .comma)
    (h : List.Forall₂ (Reads .whole) tss trees) (hne : tss ≠ []) (depth rounds : Nat)
    (rest : List Symbol) (hdepth : ([Symbol.comma].intercalate tss).length < depth)
    (hrounds : tss.length ≤ rounds) :
    items (whole depth) close rounds ([Symbol.comma].intercalate tss ++ close :: rest) =
      some (trees, rest) := by
  induction h generalizing rounds with
  | nil => exact absurd rfl hne
  | @cons ts t tss trees hfirst hmore ih =>
    obtain ⟨rounds, rfl⟩ : ∃ k, rounds = k + 1 := by
      rw [List.length_cons] at hrounds
      exact ⟨rounds - 1, by omega⟩
    cases hmore with
    | nil =>
      rw [List.intercalate_singleton] at hdepth ⊢
      rw [items, hfirst.inner hdepth hrank]
      show (if some close = some Symbol.comma then _ else _) = _
      rw [if_neg (by simpa using hcomma)]
      show (do return ([t], ← expect close (close :: rest))) = _
      rw [expect, if_pos rfl]
      rfl
    | @cons us u tss trees hsecond hmore =>
      have hjoin : [Symbol.comma].intercalate (ts :: us :: tss) =
          ts ++ .comma :: [Symbol.comma].intercalate (us :: tss) := by
        simp [List.intercalate]
      rw [hjoin, List.length_append, List.length_cons] at hdepth
      have hrest := ih (by simp) rounds (by omega) (by simp at hrounds ⊢; omega)
      rw [hjoin, List.append_assoc, List.cons_append, items, hfirst.inner (by omega) rfl]
      show (do
        let (more, ts) ← items (whole depth) close rounds
          ([Symbol.comma].intercalate (us :: tss) ++ close :: rest)
        return (t :: more, ts)) = _
      rw [hrest]
      rfl

theorem listing_reads (hclose : close = .rparen ∨ close = .rbracket)
    (h : List.Forall₂ (Reads .whole) tss trees) (depth : Nat) (rest : List Symbol)
    (hdepth : ([Symbol.comma].intercalate tss).length < depth) :
    listing (whole depth) close ([Symbol.comma].intercalate tss ++ close :: rest) =
      some (trees, rest) := by
  cases h with
  | nil =>
    exact if_pos rfl
  | @cons ts t tss trees hfirst hmore =>
    -- There is a comma for each expression but the first, so the rounds suffice.
    have hlength : ∀ tss : List (List Symbol),
        tss.length ≤ ([Symbol.comma].intercalate tss).length + 1 := by
      intro tss
      induction tss with
      | nil => simp
      | cons ts tss ih =>
        cases tss with
        | nil => simp
        | cons us tss =>
          simp [List.intercalate] at ih ⊢
          omega
    have hhead : ([Symbol.comma].intercalate (ts :: tss) ++ close :: rest).head? ≠ some close := by
      cases tss with
      | nil =>
        rw [List.intercalate_singleton]
        exact hfirst.head hclose _
      | cons us tss =>
        have hjoin : [Symbol.comma].intercalate (ts :: us :: tss) ++ close :: rest =
            ts ++ (.comma :: [Symbol.comma].intercalate (us :: tss) ++ close :: rest) := by
          simp [List.intercalate]
        rw [hjoin]
        exact hfirst.head hclose _
    rw [listing, if_neg hhead]
    refine items_reads ?_ ?_ (.cons hfirst hmore) (by simp) depth _ rest hdepth ?_
    · rcases hclose with rfl | rfl <;> rfl
    · rcases hclose with rfl | rfl <;> decide
    · have := hlength (ts :: tss)
      rw [List.length_append]
      omega

theorem Reads.list (h : List.Forall₂ (Reads .whole) tss trees) :
    Reads .primary (.lbracket :: [Symbol.comma].intercalate tss ++ [Symbol.rbracket])
      (.list trees) := by
  refine .atom fun depth rest hdepth => ?_
  rw [List.length_append, List.length_cons, List.length_singleton] at hdepth
  rw [List.append_assoc, List.cons_append, List.singleton_append, Target.atom,
    listing_reads (.inr rfl) h depth rest (by omega)]
  rfl

theorem Reads.call (h : Reads .primary ts t) (hargs : List.Forall₂ (Reads .whole) tss trees) :
    Reads .primary (ts ++ .lparen :: [Symbol.comma].intercalate tss ++ [Symbol.rparen])
      (.call t trees) := by
  rw [List.append_assoc]
  refine h.trailer (by simp) fun depth rounds rest hdepth => ?_
  rw [List.length_append, List.length_cons, List.length_singleton] at hdepth
  rw [List.append_assoc, List.cons_append, List.singleton_append, trailers,
    listing_reads (.inl rfl) hargs depth rest (by omega)]
  rfl

/-- A text is read as a tree, if its symbols are. -/
theorem Reads.read_eq {s : String} {dotted : Bool} (h : Reads .whole ts t)
    (hlex : Lexes dotted s ts) : read s = some t := by
  have hread := h ts.length [] (Nat.le_refl _) (fun _ hs => nomatch hs)
  rw [List.append_nil] at hread
  rw [read, hlex.lex_eq]
  show (match Target.whole (ts.length + 1) ts with
    | some (t, []) => some t
    | _ => none) = some t
  rw [hread]

end Owl.Target
