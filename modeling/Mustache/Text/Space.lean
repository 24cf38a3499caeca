import Mustache.Text

/-!
# Space, blanks and words

Two classes of characters separate things in a template, and they are not the
same. *Space* is the White_Space property of Unicode: it may surround a tag's
name and it parts the two delimiters of a set-delimiter tag. A *blank* is only a
space character or a tab: nothing else may stand beside a tag that is alone on
its line.

## Main results

* `isSpace_of_isBlank`, `isSpace_of_isWhitespace` — the narrower classes lie
  inside the wider one;
* `mem_words_iff` — the words of a text are its pieces between spaces, without
  the empty ones.
-/

namespace Mustache.Text

/-- The first and last code points of the runs of characters with the property White_Space. -/
def spaceRanges : List (Nat × Nat) :=
  [(0x09, 0x0D), (0x20, 0x20), (0x85, 0x85), (0xA0, 0xA0), (0x1680, 0x1680), (0x2000, 0x200A),
    (0x2028, 0x2029), (0x202F, 0x202F), (0x205F, 0x205F), (0x3000, 0x3000)]

/-- Whether a character has the property White_Space. -/
def isSpace (c : Char) : Bool :=
  spaceRanges.any fun (first, last) => first ≤ c.toNat && c.toNat ≤ last

/-- Whether a character is a space or a tab. -/
def isBlank (c : Char) : Bool :=
  c == ' ' || c == '\t'

theorem isSpace_of_isBlank {c : Char} (h : isBlank c = true) : isSpace c = true := by
  simp only [isBlank, Bool.or_eq_true, beq_iff_eq] at h
  rcases h with rfl | rfl <;> decide

theorem isBlank_eq_false {c : Char} (h : isSpace c = false) : isBlank c = false := by
  cases hblank : isBlank c with
  | false => rfl
  | true =>
    rw [isSpace_of_isBlank hblank] at h
    contradiction

/-- The whitespace of ASCII is space. -/
theorem isSpace_of_isWhitespace {c : Char} (h : c.isWhitespace = true) : isSpace c = true := by
  simp only [Char.isWhitespace, Bool.or_eq_true, decide_eq_true_eq] at h
  rcases h with ((rfl | rfl) | rfl) | rfl <;> decide

/-- There are twenty-five characters of space. -/
example : (spaceRanges.map fun (first, last) => last - first + 1).sum = 25 := by decide

/-- Whether a text begins with space. -/
def beginsWithSpace : Text → Bool
  | [] => false
  | c :: _ => isSpace c

/-- The pieces of a text between its spaces, the empty ones left out. -/
def words (t : Text) : List Text :=
  (t.splitOnP isSpace).filter fun w => !w.isEmpty

theorem mem_words_iff {w t : Text} : w ∈ words t ↔ w ∈ t.splitOnP isSpace ∧ w ≠ [] := by
  simp [words]

end Mustache.Text
