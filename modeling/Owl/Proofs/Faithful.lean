/-
Reading tokens loses nothing and invents nothing.

What is read from tokens is written with the words of just these tokens: for each
item this is part of how it is built from them.
-/
import Owl.Compile
import Owl.Proofs.Derivation

namespace Owl

open Owl.Parser

/-- A program keeps its imports, its functions and its statements each in the order of the items. -/
theorem Reading.program_interleaved (r : Reading) (hfault : ∀ i ∈ r.items, i.isFault = false) :
    Interleaved r.program.imports r.program.functions r.program.statements
      (r.items.flatMap Item.words) := by
  obtain ⟨items, stop?, rest⟩ := r
  induction items with
  | nil => exact .nil
  | cons i items ih =>
    have hmore := ih fun j hj => hfault j (List.mem_cons_of_mem _ hj)
    cases i with
    | importing i => exact .importing i hmore
    | function f => exact .function f hmore
    | stmt s => exact .stmt s hmore
    | fault e => exact absurd (hfault _ (List.mem_cons_self ..)) (by simp [Item.isFault])

/-- What is left of a list that an end mark closes is silent, if it starts with an end mark. -/
theorem words_of_eof {body taken rest : List Token} {last : Token}
    (hbody : ∀ t ∈ body, t.kind ≠ .eof) (hlast : last.kind = .eof)
    (hsplit : body ++ [last] = taken ++ rest) (hend : (rest.headD last).kind = .eof) :
    words rest = [] := by
  rcases List.append_eq_append_iff.mp hsplit with ⟨front, rfl, hrest⟩ | ⟨front, rfl, rfl⟩
  · -- all of `body` was taken, so at most the end mark is left
    cases rest with
    | nil => rfl
    | cons t rest =>
      have hmem : rest = [] := by
        have := congrArg List.length hrest
        simp at this
        exact List.length_eq_zero_iff.mp (by omega)
      rw [hmem]
      exact words_silent (by rw [show t.kind = .eof from hend]; rfl)
  · -- what is left of `body` would have to start with an end mark
    cases front with
    | nil => exact words_silent (by rw [hlast]; rfl)
    | cons t front => exact absurd hend (hbody t (by simp))

/-- **Reading loses nothing and invents nothing.**  Where a text has tokens and these are read into
a program, the words of the tokens write out the program's imports, functions and statements, each
of the three lists in its order. -/
theorem parse_words (source file : String) (tokens : List Token) (p : Program)
    (h : tokenize source = .ok tokens) (hp : parse file tokens = .ok p) :
    Interleaved p.imports p.functions p.statements (words tokens) := by
  obtain ⟨body, last, rfl, hlast, hbody⟩ := tokenize_spelled h
  obtain ⟨hstop, hfault, rfl⟩ := Reading.result_eq_ok hp
  have hspelled : ∀ t ∈ body ++ [last], t.Spelled := by
    intro t ht
    rcases List.mem_append.mp ht with ht | ht
    · exact .inr (hbody t ht)
    · exact .inl (by rw [List.mem_singleton.mp ht, hlast])
  have hbody' : ∀ t ∈ body, t.kind ≠ .eof := fun t ht => (hbody t ht).choose_spec.kind_ne_eof
  rw [Reading.ofTokens, List.getLast?_concat] at hstop hfault ⊢
  obtain ⟨taken, us, rest, hsplit, -, -, hwords, hend⟩ := Reading.itemsFrom_read _ _ hfault
  have hall : words (body ++ [last]) = words taken := by
    rw [hsplit, words_append, words_of_eof hbody' hlast hsplit (hend hstop), List.append_nil]
  rw [hall, hwords fun t ht => hspelled t (hsplit ▸ List.mem_append_left rest ht)]
  exact Reading.program_interleaved _ hfault

/-- A dotted import with a new name, a function, and a call with two arguments. -/
theorem parse_words_three_items :
    ∃ tokens p,
      tokenize "from python.os import path as p fn f(a: Int) \x7b return (a + 1) \x7d f(x, y)" =
        .ok tokens ∧
      parse "" tokens = .ok p ∧
      Interleaved p.imports p.functions p.statements (words tokens) :=
  exists_parsed (P := fun _ => True) String.toList_ofList (by decide +kernel)
    fun tokens p htokens hp _ => parse_words _ "" tokens p htokens hp

end Owl
