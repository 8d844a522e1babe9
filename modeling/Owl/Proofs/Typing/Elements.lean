/-
Which lists are accepted, and in which order.

The elements of a list are compared with the first one only.  Compatibility is not
transitive, `Any` being compatible with everything, so the first element decides: a
list may be accepted in one order and rejected in another.

* `Ty.fitFirst` — whether types are compatible with the first of them;
* `Checker.accepts_list_perm` — when it is accepted in every order.
-/
import Owl.Proofs.Checking.Accepted
import Owl.Proofs.Checking.Apart
import Owl.Proofs.Typing.Consistency

namespace Owl

open CheckM

namespace Ty

def fitFirst : List Ty → Bool
  | [] => true
  | first :: rest => rest.all first.compatible

def Fit (types : List Ty) : Prop := types.Pairwise fun a b => a.compatible b = true

theorem Fit.fitFirst {types : List Ty} (h : Fit types) : fitFirst types = true := by
  cases types with
  | nil => rfl
  | cons first rest => exact List.all_eq_true.mpr (List.pairwise_cons.mp h).1

theorem Fit.perm {types types' : List Ty} (h : Fit types) (hperm : types.Perm types') :
    Fit types' := by
  refine (hperm.pairwise_iff fun {a b} hab => ?_).mp h
  rwa [compatible_comm]

/-- Things whose types are compatible with that of the first in every order have types that are
compatible with each other: each of two things can be the first. -/
theorem Fit.of_orders {α : Type} {type : α → Ty} {as : List α}
    (h : ∀ as', as.Perm as' → Ty.fitFirst (as'.map type) = true) : Fit (as.map type) := by
  refine List.pairwise_map.mpr (List.pairwise_iff_forall_sublist.mpr fun {a b} hsub => ?_)
  obtain ⟨rest, hperm⟩ := hsub.exists_perm_append
  exact List.all_eq_true.mp (h _ hperm) (type b) (List.mem_cons_self ..)

/-- A first type that is known and has no `Any` in it lets no two types differ. -/
theorem Fit.of_exact {first : Ty} {rest : List Ty} (hexact : first.isExact = true)
    (hknown : first ≠ unknown) (h : Ty.fitFirst (first :: rest) = true) : Fit (first :: rest) := by
  have hrest := List.all_eq_true.mp h
  refine List.pairwise_cons.mpr ⟨hrest, List.pairwise_of_forall_mem_list fun a ha b hb => ?_⟩
  exact compatible_through hexact hknown (hrest a ha) (hrest b hb)

end Ty

namespace Checker

theorem listRule_findings (types : List Ty) (place : Span) (c : Checker) :
    (listRule types place c).2.findings = [] ↔ c.findings = [] ∧ Ty.fitFirst types = true := by
  cases types with
  | nil => exact (and_iff_left rfl).symm
  | cons first rest =>
    rw [listRule, Ty.fitFirst, List.all_eq_true]
    cases hfind : rest.find? fun t => !first.compatible t with
    | none =>
      have hall : ∀ t ∈ rest, first.compatible t = true := by
        simpa using List.find?_eq_none.mp hfind
      exact (and_iff_left hall).symm
    | some t =>
      have hfirst : first.compatible t = false := by simpa using List.find?_some hfind
      refine iff_of_false (findings_addDiagnostic_ne_nil _ _) fun hall => ?_
      rw [hall.2 t (List.mem_of_find?_eq_some hfind)] at hfirst
      cases hfirst

/-- A list is accepted if its elements are, and if their types are compatible with the first. -/
theorem accepts_list {c : Checker} {es : List Expr} (hes : ∀ e ∈ es, e.Ordinary)
    (span? : Option Span) :
    c.accepts (.list es span?) = true ↔
      (∀ e ∈ es, c.accepts e = true) ∧ Ty.fitFirst (es.map c.typeOf) = true := by
  obtain ⟨htypes, hnil⟩ := checkExprs_apart hes (.of_cleared c)
  have hrun : (checkExpr (.list es span?) c.cleared).2 =
      (listRule (checkExprs es c.cleared).1 (span?.getD .dummy) (checkExprs es c.cleared).2).2 := by
    rfl
  rw [accepts_eq_true_iff, hrun, listRule_findings, hnil, htypes]
  exact and_congr_left' (and_iff_right rfl)

/-- **Lists and the order of their elements.**  Let nothing be found in each of some expressions on
its own.  Then their list is accepted if and only if the type of the first is compatible with those
of the others.  It is accepted in every order if and only if the types are compatible with each
other; and they are, if it is accepted in some order with an element in front whose type is known
and has no `Any` in it. -/
theorem accepts_list_perm {c : Checker} {es : List Expr} (hes : ∀ e ∈ es, e.Ordinary)
    (haccepted : ∀ e ∈ es, c.accepts e = true) (span? : Option Span) :
    (∀ first rest, es.Perm (first :: rest) → (c.accepts (.list (first :: rest) span?) = true ↔
      ∀ e ∈ rest, (c.typeOf first).compatible (c.typeOf e) = true)) ∧
    ((∀ es', es.Perm es' → c.accepts (.list es' span?) = true) ↔
      es.Pairwise fun e e' => (c.typeOf e).compatible (c.typeOf e') = true) ∧
    ∀ first rest, es.Perm (first :: rest) → (c.typeOf first).isExact = true →
      c.typeOf first ≠ .unknown → c.accepts (.list (first :: rest) span?) = true →
      es.Pairwise fun e e' => (c.typeOf e).compatible (c.typeOf e') = true := by
  have hlist : ∀ es', es.Perm es' →
      (c.accepts (.list es' span?) = true ↔ Ty.fitFirst (es'.map c.typeOf) = true) := by
    intro es' hperm
    rw [accepts_list fun e he => hes e (hperm.mem_iff.mpr he)]
    exact and_iff_right fun e he => haccepted e (hperm.mem_iff.mpr he)
  have hfit : Ty.Fit (es.map c.typeOf) ↔
      es.Pairwise fun e e' => (c.typeOf e).compatible (c.typeOf e') = true := List.pairwise_map
  refine ⟨fun first rest hperm => ?_, ?_, fun first rest hperm hexact hknown h => ?_⟩
  · rw [hlist _ hperm, List.map_cons, Ty.fitFirst, List.all_eq_true, List.forall_mem_map]
  · rw [← hfit]
    constructor
    · exact fun h => .of_orders fun es' hperm => (hlist es' hperm).mp (h es' hperm)
    · exact fun h es' hperm => (hlist es' hperm).mpr (h.perm (hperm.map _)).fitFirst
  · rw [← hfit]
    have hordered := Ty.Fit.of_exact hexact hknown ((hlist _ hperm).mp h)
    exact hordered.perm (hperm.map c.typeOf).symm

/-- Two lists of numbers and an empty list, whose type has an `Any` in it, may come in every
order. -/
theorem accepts_list_of_lists :
    Checker.new.typeOf (.list [] none) = .list .any ∧
      ∀ es', [Expr.list [.int 1 none] none, .list [] none, .list [.int 2 none] none].Perm es' →
        Checker.new.accepts (.list es' none) = true := by
  refine ⟨rfl, (accepts_list_perm ?_ ?_ none).2.1.mpr ?_⟩
  · simp [Expr.Ordinary, OnlyCalls]
  · decide +kernel
  · decide +kernel

/-- With an empty list in front, a list of numbers and a list of strings are accepted; with the
numbers in front, the same elements are rejected. -/
theorem accepts_list_of_strings_and_numbers :
    let numbers := Expr.list [.int 1 none] none
    let strings := Expr.list [.string "x" none] none
    Checker.new.accepts numbers = true ∧ Checker.new.accepts strings = true ∧
      Checker.new.accepts (.list [.list [] none, numbers, strings] none) = true ∧
      Checker.new.accepts (.list [numbers, .list [] none, strings] none) = false ∧
      (Checker.new.typeOf numbers).compatible (Checker.new.typeOf strings) = false := by
  decide +kernel

end Checker

end Owl
