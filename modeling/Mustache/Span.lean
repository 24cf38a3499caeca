import Mustache.Text

/-!
# Spans of a text

A span says where a piece of a text stands: how many bytes come before it and
how many it has. `Span.cut?` reads the piece back; it has an answer exactly when
both ends of the span fall between characters of the text, which is what
`Span.Covers` says without counting.

## Main results

* `covers_of_append` — the piece `b` of `a ++ b ++ c` has the span that begins
  after the bytes of `a`;
* `cut?_eq_some_iff` — reading a span finds the piece that it covers, and fails
  when it covers none.
-/

namespace Mustache

/-- A range of bytes of a text. -/
structure Span where
  /-- How many bytes come before the range. -/
  offset : Nat
  /-- How many bytes the range has. -/
  length : Nat
deriving DecidableEq, Repr

namespace Span

/-- The span is that of one occurrence of `piece` in `source`. -/
def Covers (s : Span) (source piece : Text) : Prop :=
  ∃ before after, source = before ++ piece ++ after ∧
    s.offset = Text.size before ∧ s.length = Text.size piece

theorem covers_of_append (before piece after : Text) :
    Covers ⟨Text.size before, Text.size piece⟩ (before ++ piece ++ after) piece :=
  ⟨before, after, rfl, rfl, rfl⟩

/-- The piece of a text that a span covers, if both of its ends lie between characters. -/
def cut? (s : Span) (source : Text) : Option Text :=
  let (before, rest) := Text.fit s.offset source
  let (piece, _) := Text.fit s.length rest
  if Text.size before = s.offset ∧ Text.size piece = s.length then some piece else none

end Span

namespace Text

/-- The first `size a` bytes of a text that begins with `a` are `a`. -/
theorem fit_size_append (a b : Text) : fit (size a) (a ++ b) = (a, b) := by
  induction a with
  | nil =>
    cases b with
    | nil => rfl
    | cons c r =>
      have := c.utf8Size_pos
      simp [fit_cons, show ¬ c.utf8Size ≤ 0 by omega]
  | cons c r ih =>
    rw [List.cons_append, fit_cons, size_cons, if_pos (by omega), Nat.add_sub_cancel_left, ih]

end Text

namespace Span

theorem cut?_eq_some_iff {s : Span} {source piece : Text} :
    s.cut? source = some piece ↔ s.Covers source piece := by
  constructor
  · intro h
    simp only [cut?] at h
    split at h
    · rename_i hs
      refine ⟨(Text.fit s.offset source).1, (Text.fit s.length (Text.fit s.offset source).2).2,
        ?_, hs.1.symm, ?_⟩
      · obtain rfl := Option.some.inj h
        rw [List.append_assoc, Text.fit_append, Text.fit_append]
      · obtain rfl := Option.some.inj h
        exact hs.2.symm
    · simp at h
  · rintro ⟨before, after, rfl, ho, hl⟩
    simp only [cut?, ho, hl, List.append_assoc, Text.fit_size_append]
    simp

end Span

end Mustache
