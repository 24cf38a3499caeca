import Mustache.Text.Space

/-!
# Delimiters

Every tag stands between an opening and a closing delimiter. A text starts out
with two braces on either side, and a set-delimiter tag puts another pair in
force for the rest of the text.

A delimiter is a text with three properties, which its type records: it is not
empty, so that every tag takes up some of the text and lexing ends; and it holds
neither space nor an equals sign, so that a pair of delimiters can be written
between two equals signs with space in the middle.

## Main results

* `ofText?_eq_some_iff` — a text is a delimiter exactly if it has these
  properties;
* `ofContent?_eq_some_iff` — the content of a set-delimiter tag stands for a
  pair exactly if its words are the two delimiters.
-/

namespace Mustache

/-- Whether a character may stand in a delimiter. -/
def Delimiter.allows (c : Char) : Bool :=
  !Text.isSpace c && c != '='

/-- A text that can open or close a tag. -/
structure Delimiter where
  text : Text
  nonempty : text ≠ []
  allowed : text.all Delimiter.allows = true
deriving DecidableEq

namespace Delimiter

/-- The text as a delimiter, if it can be one. -/
def ofText? (t : Text) : Option Delimiter :=
  if h : t ≠ [] ∧ t.all allows = true then some ⟨t, h.1, h.2⟩ else none

theorem ofText?_eq_some_iff {t : Text} {d : Delimiter} : ofText? t = some d ↔ d.text = t := by
  rw [ofText?]
  split
  · rename_i h
    cases d
    simp [eq_comm]
  · rename_i h
    refine ⟨nofun, ?_⟩
    rintro rfl
    exact absurd ⟨d.nonempty, d.allowed⟩ h

theorem length_pos (d : Delimiter) : 0 < d.text.length :=
  List.length_pos_iff.2 d.nonempty

end Delimiter

/-- The pair of delimiters that tags stand between. -/
structure Delimiters where
  opening : Delimiter
  closing : Delimiter
deriving DecidableEq

namespace Delimiters

/-- Two braces on either side: the pair in force where a text begins. -/
def braces : Delimiters where
  opening := ⟨['{', '{'], by decide, by decide⟩
  closing := ⟨['}', '}'], by decide, by decide⟩

/-- The pair that the content of a set-delimiter tag stands for. -/
def ofContent? (content : Text) : Option Delimiters :=
  match Text.words content with
  | [a, b] => do
    let opening ← Delimiter.ofText? a
    let closing ← Delimiter.ofText? b
    return ⟨opening, closing⟩
  | _ => none

theorem ofContent?_eq_some_iff {content : Text} {d : Delimiters} :
    ofContent? content = some d ↔ Text.words content = [d.opening.text, d.closing.text] := by
  rw [ofContent?]
  split
  · rename_i a b h
    rw [h]
    simp only [Option.bind_eq_bind, Option.bind_eq_some_iff, Delimiter.ofText?_eq_some_iff,
      Option.pure_def, Option.some.injEq, List.cons.injEq, and_true]
    constructor
    · rintro ⟨o, ho, c, hc, rfl⟩
      exact ⟨ho.symm, hc.symm⟩
    · rintro ⟨ho, hc⟩
      exact ⟨d.opening, ho.symm, d.closing, hc.symm, rfl⟩
  · rename_i h
    refine ⟨nofun, fun he => absurd he (h _ _)⟩

end Delimiters

end Mustache
