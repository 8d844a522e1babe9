/-
Tokens in front of the end mark.

A parser works on tokens that hold an end mark.  The tokens in front of the first
end mark are its measure: every repetition and every nested grammar takes at least
one of them, so a bound on rounds that is larger than the measure is never
reached.

* `Took k ts rest` — from `ts`, `k` tokens in front of the end mark or more were taken;
* `ParseError.ShownIn`, `Token.Unreadable` — where reading may fail, and where it
  may stop.
-/
import Owl.Tree.Parser

namespace Owl

variable {ts rest : List Token} {k : Nat}

/-! ### Tokens in front of the end mark -/

def HasEnd (ts : List Token) : Prop := ∃ t ∈ ts, t.kind = .eof

theorem HasEnd.exists_cons (h : HasEnd ts) : ∃ t rest, ts = t :: rest := by
  obtain ⟨t, ht, -⟩ := h
  exact List.exists_cons_of_ne_nil (List.ne_nil_of_mem ht)

def firstEnd (ts : List Token) : Nat := ts.findIdx fun t => t.kind == .eof

/-- `Took k ts rest`: without `k` tokens or more at its front, none of them an end mark, `ts` is
`rest`. -/
def Took (k : Nat) (ts rest : List Token) : Prop :=
  ∃ taken : List Token, ts = taken ++ rest ∧ (∀ t ∈ taken, t.kind ≠ .eof) ∧ k ≤ taken.length

theorem Took.refl (ts : List Token) : Took 0 ts ts := ⟨[], rfl, by simp, Nat.le_refl 0⟩

theorem Took.cons {t : Token} (h : t.kind ≠ .eof) (ts : List Token) : Took 1 (t :: ts) ts :=
  ⟨[t], rfl, by simpa using h, Nat.le_refl 1⟩

theorem Took.trans {j : Nat} {mid : List Token} (h : Took j ts mid) (h' : Took k mid rest) :
    Took (j + k) ts rest := by
  obtain ⟨taken, rfl, hkinds, hlength⟩ := h
  obtain ⟨taken', rfl, hkinds', hlength'⟩ := h'
  refine ⟨taken ++ taken', by simp, ?_, by rw [List.length_append]; omega⟩
  intro t ht
  rcases List.mem_append.mp ht with ht | ht
  · exact hkinds t ht
  · exact hkinds' t ht

theorem Took.mono {j : Nat} (h : Took k ts rest) (hjk : j ≤ k) : Took j ts rest := by
  obtain ⟨taken, hts, hkinds, hlength⟩ := h
  exact ⟨taken, hts, hkinds, by omega⟩

theorem Took.length_le (h : Took k ts rest) : rest.length + k ≤ ts.length := by
  obtain ⟨taken, rfl, -, hlength⟩ := h
  rw [List.length_append]
  omega

theorem Took.hasEnd (h : Took k ts rest) (hend : HasEnd ts) : HasEnd rest := by
  obtain ⟨taken, rfl, hkinds, -⟩ := h
  obtain ⟨t, ht, hkind⟩ := hend
  rcases List.mem_append.mp ht with ht | ht
  · exact absurd hkind (hkinds t ht)
  · exact ⟨t, ht, hkind⟩

theorem firstEnd_append {taken : List Token} (h : ∀ t ∈ taken, t.kind ≠ .eof)
    (rest : List Token) : firstEnd (taken ++ rest) = taken.length + firstEnd rest := by
  induction taken with
  | nil => simp
  | cons t taken ih =>
    have hmore := ih fun u hu => h u (List.mem_cons_of_mem _ hu)
    have ht : (t.kind == .eof) = false := by simpa using h t (List.mem_cons_self ..)
    rw [firstEnd] at hmore ⊢
    rw [List.cons_append, List.findIdx_cons, ht, cond_false, hmore, List.length_cons]
    omega

theorem Took.firstEnd_le (h : Took k ts rest) : firstEnd rest + k ≤ firstEnd ts := by
  obtain ⟨taken, rfl, hkinds, hlength⟩ := h
  rw [firstEnd_append hkinds]
  omega

theorem Took.drop_firstEnd (h : Took k ts rest) :
    ts.drop (firstEnd ts) = rest.drop (firstEnd rest) := by
  obtain ⟨taken, rfl, hkinds, -⟩ := h
  rw [firstEnd_append hkinds, List.drop_append]
  simp

def Token.Unreadable (t : Token) (cause : ParseStop) : Prop :=
  ∃ fault, cause = .numeral fault ∧
    (t.kind = .int ∧ Numeral.readInt t.text = .error fault ∨
      t.kind = .float ∧ Numeral.readFloat t.text = .error fault)

def ParseError.ShownIn (e : ParseError) (ts : List Token) : Prop :=
  ∃ front back : List Token, ts = front ++ e.token :: back ∧ e.left = back.length + 1

theorem ParseError.ShownIn.behind {e : ParseError} {mid : List Token} (took : Took k ts mid)
    (h : e.ShownIn mid) : e.ShownIn ts := by
  obtain ⟨taken, rfl, -, -⟩ := took
  obtain ⟨front, back, rfl, hleft⟩ := h
  exact ⟨taken ++ front, back, by simp, hleft⟩

theorem ParseError.ShownIn.left_le {e : ParseError} (h : e.ShownIn ts) : e.left ≤ ts.length := by
  obtain ⟨front, back, rfl, hleft⟩ := h
  rw [List.length_append, List.length_cons]
  omega

end Owl
