/-
How control leaves a block of code.

A run of a block takes either branch of a choice, and goes round a loop any number of
times; a loop on `True` ends only by a `break` or a `return`.
-/
import Owl.Proofs.Guards

namespace Owl

/-! ### Runs -/

/-- How control leaves a piece of code. -/
inductive Exit
  /-- It goes on behind the code. -/
  | next
  | broke
  | continued
  | returned (value? : Option String)
deriving DecidableEq, Repr

mutual

/-- A statement can be left so. -/
inductive Code.Runs : Code → Exit → Prop
  | assign {name value} : Code.Runs (.assign name value) .next
  | eval {value} : Code.Runs (.eval value) .next
  | pass : Code.Runs .pass .next
  | ret {value?} : Code.Runs (.ret value?) (.returned value?)
  | breakLoop : Code.Runs .breakLoop .broke
  | continueLoop : Code.Runs .continueLoop .continued
  | thenTaken {condition thenBody elseBody x} (hthen : BlockRuns thenBody x) :
    Code.Runs (.branch condition thenBody elseBody) x
  | elseTaken {condition thenBody elseBody x} (helse : BlockRuns elseBody x) :
    Code.Runs (.branch condition thenBody elseBody) x
  | whileLoop {condition body x} (hloop : LoopRuns (condition != "True") body x) :
    Code.Runs (.whileLoop condition body) x
  | forLoop {item collection body x} (hloop : LoopRuns true body x) :
    Code.Runs (.forLoop item collection body) x

/-- A block can be left so. -/
inductive BlockRuns : List Code → Exit → Prop
  | nil : BlockRuns [] .next
  | cons {s rest x} (hfirst : s.Runs .next) (hrest : BlockRuns rest x) : BlockRuns (s :: rest) x
  | left {s rest x} (hfirst : s.Runs x) (hx : x ≠ .next) : BlockRuns (s :: rest) x

/-- A loop with a body can be left so; `ends` says whether it can end by itself. -/
inductive LoopRuns : Bool → List Code → Exit → Prop
  | done {body} : LoopRuns true body .next
  | broke {ends body} (hbody : BlockRuns body .broke) : LoopRuns ends body .next
  | returned {ends body value?} (hbody : BlockRuns body (.returned value?)) :
    LoopRuns ends body (.returned value?)
  | again {ends body x y} (hbody : BlockRuns body x) (hx : x = .next ∨ x = .continued)
    (hloop : LoopRuns ends body y) : LoopRuns ends body y

end

/-! ### Runs that are found -/

/-- How control leaves a loop whose body is left so, if the loop does not go on. -/
def Exit.ofLoop? : Exit → Option Exit
  | .broke => some .next
  | .returned value? => some (.returned value?)
  | .next | .continued => none

mutual

/-- Some of the ways in which a statement can be left: loops go round at most once. -/
def Code.exits : Code → List Exit
  | .assign .. | .eval _ | .pass => [.next]
  | .ret value? => [.returned value?]
  | .breakLoop => [.broke]
  | .continueLoop => [.continued]
  | .branch _ thenBody elseBody => blockExits thenBody ++ blockExits elseBody
  | .whileLoop condition body =>
    (if condition == "True" then [] else [.next]) ++ (blockExits body).filterMap Exit.ofLoop?
  | .forLoop _ _ body => .next :: (blockExits body).filterMap Exit.ofLoop?

/-- Ways to leave a block that some runs take. -/
def blockExits : List Code → List Exit
  | [] => [.next]
  | s :: rest => s.exits.flatMap fun x => if x = .next then blockExits rest else [x]

end

theorem LoopRuns.of_exits {ends : Bool} {body : List Code} {x : Exit}
    (hbody : ∀ y ∈ blockExits body, BlockRuns body y)
    (hx : x ∈ (blockExits body).filterMap Exit.ofLoop?) : LoopRuns ends body x := by
  obtain ⟨y, hy, hloop⟩ := List.mem_filterMap.mp hx
  rw [Exit.ofLoop?.eq_def] at hloop
  split at hloop <;> cases hloop
  · exact .broke (hbody _ hy)
  · exact .returned (hbody _ hy)

mutual

theorem Code.runs_of_exits : ∀ (s : Code) {x : Exit}, x ∈ s.exits → s.Runs x
  | .assign .., _, h | .eval _, _, h | .pass, _, h | .ret _, _, h | .breakLoop, _, h
  | .continueLoop, _, h => by
    rw [Code.exits] at h
    obtain rfl := List.mem_singleton.mp h
    constructor
  | .branch _ thenBody elseBody, _, h => by
    rw [Code.exits] at h
    rcases List.mem_append.mp h with h | h
    · exact .thenTaken (blockRuns_of_exits thenBody h)
    · exact .elseTaken (blockRuns_of_exits elseBody h)
  | .whileLoop condition body, _, h => by
    rw [Code.exits] at h
    refine .whileLoop ?_
    rcases List.mem_append.mp h with h | h
    · split at h
      · cases h
      · next hcondition =>
        obtain rfl := List.mem_singleton.mp h
        rw [bne, Bool.eq_false_iff.mpr hcondition]
        exact .done
    · exact .of_exits (fun _ => blockRuns_of_exits body) h
  | .forLoop _ _ body, _, h => by
    rw [Code.exits] at h
    refine .forLoop ?_
    rcases List.mem_cons.mp h with rfl | h
    · exact .done
    · exact .of_exits (fun _ => blockRuns_of_exits body) h

theorem blockRuns_of_exits : ∀ (body : List Code) {x : Exit}, x ∈ blockExits body → BlockRuns body x
  | [], _, h => by
    rw [blockExits] at h
    obtain rfl := List.mem_singleton.mp h
    exact .nil
  | s :: rest, _, h => by
    rw [blockExits] at h
    obtain ⟨y, hy, h⟩ := List.mem_flatMap.mp h
    split at h
    · next hnext =>
      subst hnext
      exact .cons (s.runs_of_exits hy) (blockRuns_of_exits rest h)
    · next hnext =>
      obtain rfl := List.mem_singleton.mp h
      exact .left (s.runs_of_exits hy) hnext

end

/-! ### A bound -/

/-- Ways in which control can leave a piece of code. -/
structure Ways where
  /-- It can go on behind the code. -/
  falls : Bool
  /-- It can go to a loop around the code. -/
  jumps : Bool
  /-- It can return without a value. -/
  bare : Bool

namespace Ways

/-- A way to leave is among them.  A return with a value always is. -/
def Allows (w : Ways) : Exit → Prop
  | .next => w.falls = true
  | .broke | .continued => w.jumps = true
  | .returned none => w.bare = true
  | .returned (some _) => True

def either (w w' : Ways) : Ways := ⟨w.falls || w'.falls, w.jumps || w'.jumps, w.bare || w'.bare⟩

/-- The ways of two pieces, one behind the other. -/
def andThen (w w' : Ways) : Ways := ⟨w.falls && w'.falls, w.jumps || w'.jumps, w.bare || w'.bare⟩

theorem Allows.either_left {w : Ways} {x : Exit} (h : w.Allows x) (w' : Ways) :
    (w.either w').Allows x := by
  rcases x with _ | _ | _ | _ | _ <;> simp_all [Allows, either]

theorem Allows.either_right {w' : Ways} {x : Exit} (h : w'.Allows x) (w : Ways) :
    (w.either w').Allows x := by
  rcases x with _ | _ | _ | _ | _ <;> simp_all [Allows, either]

theorem Allows.andThen_left {w : Ways} {x : Exit} (h : w.Allows x) (hx : x ≠ .next) (w' : Ways) :
    (w.andThen w').Allows x := by
  rcases x with _ | _ | _ | _ | _ <;> simp_all [Allows, andThen]

theorem Allows.andThen_right {w w' : Ways} {x : Exit} (h : w.falls = true) (h' : w'.Allows x) :
    (w.andThen w').Allows x := by
  rcases x with _ | _ | _ | _ | _ <;> simp_all [Allows, andThen]

end Ways

mutual

@[simp] def Code.ways : Code → Ways
  | .assign .. | .eval _ | .pass => ⟨true, false, false⟩
  | .ret none => ⟨false, false, true⟩
  | .ret (some _) => ⟨false, false, false⟩
  | .breakLoop | .continueLoop => ⟨false, true, false⟩
  | .branch _ thenBody elseBody => (blockWays thenBody).either (blockWays elseBody)
  | .whileLoop _ body | .forLoop _ _ body => ⟨true, false, (blockWays body).bare⟩

/-- A bound on the ways to leave a block. -/
@[simp] def blockWays : List Code → Ways
  | [] => ⟨true, false, false⟩
  | s :: rest => s.ways.andThen (blockWays rest)

end

mutual

/-- Runs of a statement keep to its ways. -/
theorem Code.Runs.allowed : ∀ {s : Code} {x : Exit}, s.Runs x → s.ways.Allows x
  | _, _, .assign | _, _, .eval | _, _, .pass => rfl
  | _, _, @Code.Runs.ret none => rfl
  | _, _, @Code.Runs.ret (some _) => trivial
  | _, _, .breakLoop | _, _, .continueLoop => rfl
  | _, _, .thenTaken hthen => hthen.allowed.either_left _
  | _, _, .elseTaken helse => helse.allowed.either_right _
  | _, _, .whileLoop hloop => hloop.allowed
  | _, _, .forLoop hloop => hloop.allowed

theorem BlockRuns.allowed : ∀ {body : List Code} {x : Exit}, BlockRuns body x →
    (blockWays body).Allows x
  | _, _, .nil => rfl
  | _, _, .cons hfirst hrest => .andThen_right hfirst.allowed hrest.allowed
  | _, _, .left hfirst hx => hfirst.allowed.andThen_left hx _

theorem LoopRuns.allowed : ∀ {ends : Bool} {body : List Code} {x : Exit}, LoopRuns ends body x →
    (⟨true, false, (blockWays body).bare⟩ : Ways).Allows x
  | _, _, _, .done | _, _, _, .broke _ => rfl
  | _, _, _, @LoopRuns.returned _ _ none hbody => hbody.allowed
  | _, _, _, @LoopRuns.returned _ _ (some _) _ => trivial
  | _, _, _, .again _ _ hloop => hloop.allowed

end

theorem blockWays_append (xs ys : List Code) :
    blockWays (xs ++ ys) = (blockWays xs).andThen (blockWays ys) := by
  induction xs with
  | nil => simp [Ways.andThen]
  | cons x xs ih =>
    rw [List.cons_append, blockWays, blockWays, ih]
    simp [Ways.andThen, Bool.and_assoc, Bool.or_assoc]

theorem blockWays_singleton (s : Code) : blockWays [s] = s.ways := by
  simp [Ways.andThen]

theorem blockWays_suite (body : List Code) : blockWays (Code.suite body) = blockWays body := by
  cases body with
  | nil => simp [Code.suite, Ways.andThen]
  | cons s rest => rfl

theorem blockWays_blockCode (use : Use) (body : List Code) :
    blockWays (use.blockCode body) = blockWays body := by
  cases use with
  | effect => rfl
  | value => exact blockWays_suite body

/-! ### Exits that are written -/

mutual

@[simp] def Stmt.jumps : Stmt → Bool
  | .breakLoop _ | .continueLoop _ => true
  | .ifElse _ thenBody none _ => anyJumps thenBody
  | .ifElse _ thenBody (some elseBody) _ => anyJumps thenBody || anyJumps elseBody
  | .letVar .. | .assign .. | .expr .. | .ret .. | .whileLoop .. | .forLoop .. | .loop .. | .fn _
  | .bare _ | .unknown => false

@[simp] def anyJumps : List Stmt → Bool
  | [] => false
  | s :: rest => s.jumps || anyJumps rest

end

mutual

/-- Whether a statement holds a return without a value. -/
@[simp] def Stmt.holdsBare : Stmt → Bool
  | .ret none _ => true
  | .whileLoop _ body _ | .forLoop _ _ body _ | .loop body _ => anyBare body
  | .ifElse _ thenBody none _ => anyBare thenBody
  | .ifElse _ thenBody (some elseBody) _ => anyBare thenBody || anyBare elseBody
  | .letVar .. | .assign .. | .expr .. | .ret (some _) _ | .breakLoop _ | .continueLoop _ | .fn _
  | .bare _ | .unknown => false

@[simp] def anyBare : List Stmt → Bool
  | [] => false
  | s :: rest => s.holdsBare || anyBare rest

end

mutual

/-- Whether a statement that is used for its value has one on every path. -/
@[simp] def Stmt.yields : Stmt → Bool
  | .expr .. => true
  | .ifElse _ thenBody (some elseBody) _ => lastYields thenBody && lastYields elseBody
  | .ifElse _ _ none _ | .letVar .. | .assign .. | .ret .. | .whileLoop .. | .forLoop .. | .loop ..
  | .breakLoop _ | .continueLoop _ | .fn _ | .bare _ | .unknown => false

/-- Whether the last of some statements has a value on every path. -/
@[simp] def lastYields : List Stmt → Bool
  | [] => false
  | [s] => s.yields
  | _ :: s :: rest => lastYields (s :: rest)

end

/-- What is known of the ways to leave code from the statements that it is for. -/
structure Leaves (use : Use) (jumps bare returns yields : Bool) (w : Ways) : Prop where
  jumps : w.jumps = true → jumps = true
  bare : w.bare = true → bare = true
  falls : w.falls = true → returns = false ∧ (use = .value → yields = false)

theorem Leaves.either {use : Use} {jumps bare returns yields jumps' bare' returns' yields' : Bool}
    {w w' : Ways} (h : Leaves use jumps bare returns yields w)
    (h' : Leaves use jumps' bare' returns' yields' w') :
    Leaves use (jumps || jumps') (bare || bare') (returns && returns') (yields && yields')
      (w.either w') := by
  constructor
  · simpa [Ways.either] using Or.imp h.jumps h'.jumps
  · simpa [Ways.either] using Or.imp h.bare h'.bare
  · intro hfalls
    rcases Bool.or_eq_true_iff.mp hfalls with hfalls | hfalls
    · obtain ⟨hreturns, hyields⟩ := h.falls hfalls
      exact ⟨by rw [hreturns, Bool.false_and], fun huse => by rw [hyields huse, Bool.false_and]⟩
    · obtain ⟨hreturns, hyields⟩ := h'.falls hfalls
      exact ⟨by rw [hreturns, Bool.and_false], fun huse => by rw [hyields huse, Bool.and_false]⟩

/-- A guard returns with a value, or goes on. -/
theorem blockWays_guards (gs : List Guard) :
    blockWays (gs.flatMap Guard.code) = ⟨true, false, false⟩ := by
  induction gs with
  | nil => rfl
  | cons g gs ih =>
    rw [List.flatMap_cons, blockWays_append, ih]
    simp [Guard.code, Ways.andThen, Ways.either]

mutual

theorem Stmt.Laid.leaves : ∀ {use : Use} {s : Stmt} {gs : List Guard} {code : List Code},
    s.Laid use gs code → Leaves use s.jumps s.holdsBare s.returns s.yields (blockWays code)
  | _, .letVar .., _, _, .letVar _ | _, .assign .., _, _, .assign _ => by
    rw [blockWays_append, blockWays_guards]
    constructor <;> simp [Ways.andThen, Stmt.returns]
  | _, .expr .., _, _, .value _ | _, .ret (some _) _, _, _, .ret _ => by
    rw [blockWays_append, blockWays_guards]
    constructor <;> simp [Ways.andThen]
  | _, .expr (.propagate ..) _, _, _, @Stmt.Laid.question _ _ _ g _ => by
    have hguard := blockWays_guards [g]
    rw [List.flatMap_singleton] at hguard
    rw [hguard]
    constructor <;> simp [Stmt.returns]
  | _, .expr .., _, _, .effect .. => by
    rw [blockWays_singleton]
    constructor <;> simp [Stmt.returns]
  | _, .whileLoop .., _, _, .whileLoop _ hbody | _, .forLoop .., _, _, .forLoop _ hbody
  | _, .loop .., _, _, .loop hbody => by
    rw [blockWays_singleton, Code.ways, blockWays_suite]
    exact ⟨nofun, by simpa using hbody.leaves.bare, by simp [Stmt.returns]⟩
  | _, .ret none _, _, _, .retNone | _, .breakLoop _, _, _, .breakLoop
  | _, .continueLoop _, _, _, .continueLoop => by
    rw [blockWays_singleton]
    constructor <;> simp
  | _, .ifElse _ _ none _, _, _, .ifThen _ hthen => by
    have hleaves := hthen.leaves
    rw [blockWays_singleton, Code.ways, blockWays_blockCode]
    exact ⟨by simpa [Ways.either] using hleaves.jumps, by simpa [Ways.either] using hleaves.bare,
      by simp [Stmt.returns]⟩
  | _, .ifElse _ _ (some _) _, _, _, .ifElse _ hthen helse => by
    rw [blockWays_singleton, Code.ways, blockWays_blockCode, Stmt.jumps, Stmt.holdsBare,
      Stmt.returns, Stmt.yields]
    exact hthen.leaves.either helse.leaves

/-- The bound for the code of statements: it is left by a jump, or by a return without a value, only
if a statement says so, and it is not run through to its end if a statement returns, or if the last
one gives the value. -/
theorem BlockLaid.leaves : ∀ {use : Use} {ss : List Stmt} {gs : List Guard} {code : List Code},
    BlockLaid use ss gs code →
      Leaves use (anyJumps ss) (anyBare ss) (anyReturns ss) (lastYields ss) (blockWays code)
  | _, [], _, _, .nil => by
    constructor <;> simp [anyReturns]
  | use, s :: rest, _, _, .cons hfirst hrest => by
    have hleaves := hfirst.leaves
    have hleaves' := hrest.leaves
    rw [blockWays_append]
    constructor
    · simpa [Ways.andThen] using Or.imp hleaves.jumps hleaves'.jumps
    · simpa [Ways.andThen] using Or.imp hleaves.bare hleaves'.bare
    · intro hfalls
      obtain ⟨hfalls, hfalls'⟩ := Bool.and_eq_true_iff.mp hfalls
      obtain ⟨hreturns, hyields⟩ := hleaves.falls hfalls
      obtain ⟨hreturns', hyields'⟩ := hleaves'.falls hfalls'
      refine ⟨by rw [anyReturns, hreturns, hreturns', Bool.false_or], fun huse => ?_⟩
      -- Only the last statement of the block is used as the block is.
      cases rest with
      | nil => simpa using hyields huse
      | cons s' rest => simpa using hyields' huse

end

end Owl
