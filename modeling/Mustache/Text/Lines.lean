import Mustache.Text

/-!
# Lines and their indentation

A line ends with its line feed, which belongs to it; the last line of a text may
have none. So the lines of a text, in order, are the text again, a line feed at
the very end starts no further line, and the empty text has no line at all.

`indent` puts the same text in front of every line. With this notion of a line
the result never ends in a dangling indentation, and indenting by nothing
changes nothing.

## Main results

* `flatten_lines` — a text is its lines, one after the other;
* `indent_nil` — indentation by the empty text does nothing.
-/

namespace Mustache.Text

/-- The lines of a text, each with the line feed that ends it. -/
def lines : Text → List Text
  | [] => []
  | c :: r =>
    if c = '\n' then [c] :: lines r
    else match lines r with
      | [] => [[c]]
      | line :: more => (c :: line) :: more

theorem flatten_lines (t : Text) : (lines t).flatten = t := by
  induction t with
  | nil => rfl
  | cons c r ih =>
    rw [lines]
    split
    · simp [ih]
    · split
      · rename_i h
        simp_all
      · rename_i h
        rw [h] at ih
        simp_all

/-- A text with `lead` in front of every line. -/
def indent (lead t : Text) : Text :=
  (lines t).flatMap (lead ++ ·)

@[simp] theorem indent_nil (t : Text) : indent [] t = t := by
  simp [indent, List.flatMap, flatten_lines]

@[simp] theorem indent_empty (lead : Text) : indent lead [] = [] := rfl

/-- A closing line feed starts no line, and a line without characters is indented too. -/
example : indent ['>'] "a\n\nb\n".toList = ">a\n>\n>b\n".toList := by decide

end Mustache.Text
