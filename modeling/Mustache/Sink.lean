import Mustache.Text

/-!
# Where text goes

Rendering writes as it goes along, into a sink. A sink takes a text or refuses
it, and in the second case it may have taken a part of it.

`TextSink` keeps what it takes. With a limit it takes whole characters as long as
the total stays within so many bytes and refuses the rest of the text at the
first one that does not fit.

## Main results

* `text_write_of_room_eq_none` — without a limit everything is taken;
* `text_write_of_room_eq_some` — with one, what fits into the room that is left.
-/

namespace Mustache

/-- A state that text can be written to. -/
class Sink (σ : Type) where
  /-- Takes a text; the answer is whether all of it was taken. -/
  write : Text → StateM σ Bool

/-- A sink that keeps the text that it takes. -/
structure TextSink where
  /-- The characters that were taken, the latest first. -/
  taken : Text
  /-- How many more bytes may be taken, if there is a limit. -/
  room : Option Nat
deriving DecidableEq, Repr

namespace TextSink

/-- An empty sink that takes text up to so many bytes, if a limit is given. -/
def empty (limit : Option Nat) : TextSink :=
  ⟨[], limit⟩

/-- The text in a sink. -/
def text (s : TextSink) : Text :=
  s.taken.reverse

instance : Sink TextSink where
  write t s :=
    match s.room with
    | none => (true, { s with taken := t.reverse ++ s.taken })
    | some room =>
      let (fitting, rest) := Text.fit room t
      (rest.isEmpty, ⟨fitting.reverse ++ s.taken, some (room - Text.size fitting)⟩)

theorem text_write_of_room_eq_none {s : TextSink} (h : s.room = none) (t : Text) :
    (Sink.write t s).1 = true ∧ (Sink.write t s).2.text = s.text ++ t := by
  simp [Sink.write, h, text]

theorem text_write_of_room_eq_some {s : TextSink} {room : Nat} (h : s.room = some room) (t : Text) :
    (Sink.write t s).2.text = s.text ++ (Text.fit room t).1 := by
  simp [Sink.write, h, text]

end TextSink

end Mustache
