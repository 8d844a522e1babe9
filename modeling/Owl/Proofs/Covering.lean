/-
The least span that covers two others.

Spans are compared by where they start and where they end, in reading order.  A merged
span is covered by just those spans that cover both of its parts, and a span is known
by its file and the spans that cover it; the laws of merging follow from these two
facts.  They hold of spans that end before they start, too.

* `Span.covers_merge_iff` — what covers a merged span;
* `Span.eq_of_covers_iff` — a span is known by what covers it;
* `Span.merge_least` — merging gives the least span that covers both.
-/
import Owl.Proofs.Nesting

namespace Owl

theorem Position.le_antisymm {p q : Position} (h : p ≤ q) (h' : q ≤ p) : p = q := by
  rw [le_iff] at h h'
  obtain ⟨pline, pcolumn⟩ := p
  obtain ⟨qline, qcolumn⟩ := q
  simp only [Position.mk.injEq] at h h' ⊢
  omega

namespace Span

variable {a b c : Span}

theorem Covers.refl (a : Span) : a.Covers a := ⟨Position.le_refl _, Position.le_refl _⟩

theorem Covers.trans (h : a.Covers b) (h' : b.Covers c) : a.Covers c :=
  ⟨Position.le_trans h.1 h'.1, Position.le_trans h'.2 h.2⟩

theorem covers_merge_iff : c.Covers (a.merge b) ↔ c.Covers a ∧ c.Covers b := by
  constructor
  · exact fun h => ⟨h.trans (a.merge_covers_left b), h.trans (a.merge_covers_right b)⟩
  · rintro ⟨ha, hb⟩
    -- Each end of a merged span is an end of one of the parts.
    constructor
    · rw [merge_start]
      split
      · exact ha.1
      · exact hb.1
    · rw [merge_stop]
      split
      · exact hb.2
      · exact ha.2

theorem eq_of_covers_iff (hfile : a.file = b.file) (h : ∀ c : Span, c.Covers a ↔ c.Covers b) :
    a = b := by
  have hab : a.Covers b := (h a).mp (.refl a)
  have hba : b.Covers a := (h b).mpr (.refl b)
  obtain ⟨start, stop, file⟩ := a
  obtain rfl : start = b.start := Position.le_antisymm hab.1 hba.1
  obtain rfl : stop = b.stop := Position.le_antisymm hba.2 hab.2
  obtain rfl : file = b.file := hfile
  rfl

/-- **Merging gives the least span that covers both.**  It starts no later and ends no earlier than
either, and whatever covers both covers it.  Merging is associative and idempotent, and the order of
the parts matters for the file alone, which is that of the left one. -/
theorem merge_least (a b c : Span) :
    (a.merge b).Covers a ∧ (a.merge b).Covers b ∧
    (∀ d : Span, d.Covers (a.merge b) ↔ d.Covers a ∧ d.Covers b) ∧
    (a.merge b).merge c = a.merge (b.merge c) ∧
    a.merge a = a ∧
    b.merge a = { a.merge b with file := b.file } ∧
    (a.merge b).file = a.file := by
  refine ⟨a.merge_covers_left b, a.merge_covers_right b, fun _ => covers_merge_iff, ?_, ?_, ?_, rfl⟩
  · refine eq_of_covers_iff rfl fun d => ?_
    simp only [covers_merge_iff, and_assoc]
  · refine eq_of_covers_iff rfl fun d => ?_
    rw [covers_merge_iff, and_self_iff]
  · refine eq_of_covers_iff rfl fun d => ?_
    show d.Covers (b.merge a) ↔ d.Covers (a.merge b)
    rw [covers_merge_iff, covers_merge_iff, and_comm]

end Span

end Owl
