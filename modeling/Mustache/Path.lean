import Mustache.Text

/-!
# Paths

The name in a tag is a path into the data: its segments, separated by full
stops, are looked up one in the other. A full stop alone is the exception. It is
the path of the one segment `.`, which every value answers with itself.

Empty segments are kept, since a map may well have the empty key. So the path
determines the name that it was read from.

## Main results

* `segments_ofName` — which segments a name has;
* `name_ofName` — a path is written as the name that it was read from.
-/

namespace Mustache

/-- A nonempty sequence of segments. -/
structure Path where
  /-- The segment to look up in the values in scope. -/
  head : Text
  /-- The segments to look up in what was found, in this order. -/
  tail : List Text
deriving DecidableEq, Repr

namespace Path

/-- The segments of a path. -/
def segments (p : Path) : List Text :=
  p.head :: p.tail

/-- The path of the value in scope itself. -/
def self : Path :=
  ⟨['.'], []⟩

/-- The path that a name stands for. -/
def ofName (name : Text) : Path :=
  if name = ['.'] then self
  else match h : name.splitOn '.' with
    | head :: tail => ⟨head, tail⟩
    | [] => absurd h (List.splitOnP_ne_nil _ _)

/-- The name that a path is written as. -/
def name (p : Path) : Text :=
  ['.'].intercalate p.segments

theorem segments_ofName (name : Text) :
    (ofName name).segments = if name = ['.'] then [['.']] else name.splitOn '.' := by
  rw [ofName]
  split
  · rfl
  · split
    · rename_i h
      exact h.symm
    · rename_i h
      exact absurd h (List.splitOnP_ne_nil _ _)

theorem name_ofName (n : Text) : (ofName n).name = n := by
  rw [name, segments_ofName]
  split
  · rename_i h
    simp [h]
  · exact List.intercalate_splitOn '.'

end Path

end Mustache
