import Mustache.Proofs.Indentation

/-!
# Indentation line by line

`Text.indent` goes through the lines of a text and puts the indentation in front of
each.  What it does to the text depends on what a line is, and there are several
notions of that: a line feed may end a line or part two lines, and a text that ends
with one may have an empty line after it or none.

`Text.Lined` writes down the notion that is meant, apart from the way the lines are
found: a line feed ends its line, and what comes after the last one is a line if it is
anything at all.  With this notion indentation is only something in front of lines.  It
can be taken off again, and an indentation of an indented text is one indentation by
both.  The one condition is that the indentation has no line feed, since with one it
would make lines of its own.

## Main results

* `Text.lined_iff` — every text has lines, and only these;
* `Text.count_indent`, `Text.unindent?_indent`, `Text.indent_indent` — indentation
  makes no lines, it can be taken off, and two of them come together;
* `Text.indent_linewise` — all this together, for any text.
-/

namespace Mustache.Text

/-! ## The lines of a text -/

/-- The text has these lines: each goes up to a line feed and has it at the end, and what comes
after the last line feed is one more line if it is not empty. -/
inductive Lined : Text → List Text → Prop
  | empty : Lined [] []
  | last {line : Text} : line ≠ [] → '\n' ∉ line → Lined line [line]
  | ended {line t : Text} {more : List Text} : '\n' ∉ line → Lined t more →
    Lined (line ++ '\n' :: t) ((line ++ ['\n']) :: more)

/-- A character that does not end the first line is part of it. -/
theorem Lined.cons {c : Char} (hc : c ≠ '\n') {t line : Text} {more : List Text}
    (h : Lined t (line :: more)) : Lined (c :: t) ((c :: line) :: more) := by
  cases h with
  | last _ hline =>
      exact .last (List.cons_ne_nil _ _) (List.not_mem_cons_of_ne_of_not_mem hc.symm hline)
  | ended hline hmore => exact .ended (List.not_mem_cons_of_ne_of_not_mem hc.symm hline) hmore

theorem lined_lines (t : Text) : Lined t (lines t) := by
  induction t with
  | nil => exact .empty
  | cons c r ih =>
      rw [lines]
      by_cases hc : c = '\n'
      · subst hc
        exact .ended List.not_mem_nil ih
      · rw [if_neg hc]
        cases hlines : lines r with
        | nil =>
            obtain rfl := lines_eq_nil_iff.1 hlines
            exact .last (List.cons_ne_nil c []) (by simpa using Ne.symm hc)
        | cons line more =>
            rw [hlines] at ih
            exact ih.cons hc

theorem lines_of_not_mem {line : Text} (hne : line ≠ []) (h : '\n' ∉ line) :
    lines line = [line] := by
  obtain ⟨front, c, rfl⟩ : ∃ front c, line = front ++ [c] :=
    ⟨_, _, (List.dropLast_concat_getLast hne).symm⟩
  rw [List.mem_append, List.mem_singleton, not_or] at h
  rw [lines_append_of_not_mem h.1 (List.cons_ne_nil c []), lines, if_neg (Ne.symm h.2)]
  rfl

theorem Lined.eq_lines {t : Text} {ls : List Text} (h : Lined t ls) : ls = lines t := by
  induction h with
  | empty => rfl
  | last hne hline => exact (lines_of_not_mem hne hline).symm
  | ended hline _ ih =>
      rw [lines_append_of_not_mem hline (List.cons_ne_nil _ _), lines, if_pos rfl, ih]
      rfl

/-- Every text has lines, and it has no other ones. -/
theorem lined_iff {t : Text} {ls : List Text} : Lined t ls ↔ ls = lines t := by
  constructor
  · exact Lined.eq_lines
  · rintro rfl
    exact lined_lines t

/-! ## Indentation and lines -/

/-- A text with `lead` taken off the front of every line, if every line begins with it. -/
def unindent? (lead t : Text) : Option Text :=
  ((lines t).mapM (strip? lead)).map List.flatten

variable {lead : Text}

/-- Indentation has no line feeds, and puts in none. -/
theorem count_indent (hlead : '\n' ∉ lead) (t : Text) :
    (indent lead t).count '\n' = t.count '\n' := by
  calc (indent lead t).count '\n'
      = ((lines t).map fun line => (lead ++ line).count '\n').sum := List.count_flatMap
    _ = ((lines t).map (List.count '\n')).sum := by
        simp only [List.count_append, List.count_eq_zero_of_not_mem hlead, Nat.zero_add]
    _ = t.count '\n' := by rw [← List.count_flatten, flatten_lines]

theorem mapM_strip?_map (lead : Text) (ls : List Text) :
    (ls.map (lead ++ ·)).mapM (strip? lead) = some ls := by
  induction ls with
  | nil => rfl
  | cons line ls ih =>
      rw [List.map_cons, List.mapM_cons, strip?_eq_some_iff.2 rfl, ih]
      rfl

/-- An indentation can be taken off again. -/
theorem unindent?_indent (hlead : '\n' ∉ lead) (t : Text) :
    unindent? lead (indent lead t) = some t := by
  rw [unindent?, lines_indent hlead, mapM_strip?_map, Option.map_some, flatten_lines]

/-- An indented text is indented by putting the new indentation in front of the old one. -/
theorem indent_indent (hlead : '\n' ∉ lead) (outer t : Text) :
    indent outer (indent lead t) = indent (outer ++ lead) t := by
  show (lines (indent lead t)).flatMap (outer ++ ·) = (lines t).flatMap (outer ++ lead ++ ·)
  rw [lines_indent hlead, List.flatMap_map]
  simp only [List.append_assoc]

/-- Indentation is put in front of lines, and that is all.  An indented text has as many line feeds as
the text, and its lines are those of the text with the indentation in front; taking it off the lines
gives the text back.  Nothing changes where there is no indentation or no text.  A second indentation
comes in front of the first one, as if the text had been indented once by both. -/
theorem indent_linewise (hlead : '\n' ∉ lead) (t : Text) :
    (indent lead t).count '\n' = t.count '\n' ∧
      Lined t (lines t) ∧
      (∀ ls, Lined (indent lead t) ls ↔ ls = (lines t).map (lead ++ ·)) ∧
      unindent? lead (indent lead t) = some t ∧
      (lead = [] ∨ t = [] → indent lead t = t) ∧
      ∀ outer, indent outer (indent lead t) = indent (outer ++ lead) t := by
  refine ⟨count_indent hlead t, lined_lines t, ?_, unindent?_indent hlead t, ?_,
    fun outer => indent_indent hlead outer t⟩
  · intro ls
    rw [lined_iff, lines_indent hlead]
  · rintro (rfl | rfl)
    · exact indent_nil t
    · exact indent_empty lead

/-- A line that ends with two characters, one without characters and one with blanks of its own. -/
theorem indent_linewise_of_three :
    let text : Text := "a\r\n\n b".toList
    '\n' ∉ "> ".toList ∧ indent "> ".toList text = "> a\r\n> \n>  b".toList ∧
      (indent "> ".toList text).count '\n' = 2 ∧
      Lined (indent "> ".toList text) ["> a\r\n".toList, "> \n".toList, ">  b".toList] ∧
      unindent? "> ".toList (indent "> ".toList text) = some text ∧
      indent "\t".toList (indent "> ".toList text) = indent "\t> ".toList text := by
  intro text
  have hlead : '\n' ∉ "> ".toList := by decide
  obtain ⟨hcount, -, hlined, hunindent, -, houter⟩ := indent_linewise hlead text
  exact ⟨hlead, by decide, hcount, (hlined _).2 (by decide), hunindent, houter _⟩

end Mustache.Text
