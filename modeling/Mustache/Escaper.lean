import Mustache.Span
import Mustache.Text.Entity

/-!
# Escapers

What an interpolation writes goes through an escaper first. An escaper is asked
about every piece of the value's text by itself; it answers with the pieces to
write instead, and it may refuse to go on after that.

The escaper for HTML goes through the bytes of a text. It remembers up to where the
text has been written, and whenever it comes to a special character it writes what
stands before that since then, and the entity; at the end it writes the rest. The
pieces that it cuts out of the text begin and end between characters, because every
special character is a single byte.

## Main results

* `Escaper.slice_append` — the part of a text between two bytes, where these are
  ends of characters;
* `Escaper.text_html` — what the escaper for HTML writes is the encoding of the
  text.
-/

namespace Mustache

/-- What an escaper makes of a piece of text. -/
structure Escaped where
  /-- The pieces to write, one after the other. -/
  pieces : List Text
  /-- Whether the rest of the output may follow. -/
  accepted : Bool
deriving DecidableEq, Repr

/-- The text that is written. -/
def Escaped.text (e : Escaped) : Text :=
  e.pieces.flatten

/-- A transformation of text on its way to the output. -/
abbrev Escaper := Text → Escaped

namespace Escaper

/-- Leaves text as it is, for output that is not HTML. -/
def verbatim : Escaper := fun t => ⟨[t], true⟩

/-! ## HTML -/

/-- The part of a text from one byte up to another one. -/
def slice (t : Text) (first last : Nat) : Text :=
  (Span.cut? ⟨first, last - first⟩ t).getD []

/-- Goes through the bytes of a text from the byte number `i` on, where everything before the byte
number `last` is written already. -/
def htmlFrom (t : Text) (last i : Nat) : List UInt8 → List Text
  | [] => [slice t last (Text.size t)]
  | b :: bytes =>
    match Text.Entity.ofByte? b with
    | none => htmlFrom t last (i + 1) bytes
    | some entity => slice t last i :: entity :: htmlFrom t (i + 1) (i + 1) bytes

/-- Makes text fit to stand in HTML. -/
def html : Escaper := fun t => ⟨htmlFrom t 0 0 t.bytes, true⟩

theorem slice_append (before piece after : Text) :
    slice (before ++ piece ++ after) (Text.size before) (Text.size (before ++ piece)) = piece := by
  have hcovers := Span.covers_of_append before piece after
  rw [slice, Text.size_append, Nat.add_sub_cancel_left, Span.cut?_eq_some_iff.2 hcovers,
    Option.getD_some]

/-- Bytes that are not special are passed over. -/
theorem htmlFrom_append {t : Text} {last : Nat} {passed : List UInt8}
    (h : ∀ b ∈ passed, Text.Entity.ofByte? b = none) (i : Nat) (bytes : List UInt8) :
    htmlFrom t last i (passed ++ bytes) = htmlFrom t last (i + passed.length) bytes := by
  induction passed generalizing i with
  | nil => rfl
  | cons b passed ih =>
    obtain ⟨hb, hpassed⟩ := List.forall_mem_cons.1 h
    rw [List.cons_append, htmlFrom, hb, List.length_cons]
    simp only
    rw [ih hpassed, Nat.add_right_comm, Nat.add_assoc]

/-- Between the text `written`, which ends where the last cut is, and what is left there are only
characters that need no entity. What is written from here on is these, and the encoding of what is
left. -/
theorem flatten_htmlFrom (written since rest : Text) :
    (htmlFrom (written ++ since ++ rest) (Text.size written) (Text.size (written ++ since))
      rest.bytes).flatten = since ++ Text.Entity.encode rest := by
  induction rest generalizing written since with
  | nil =>
    have hlast := slice_append written since []
    rw [List.append_nil] at hlast ⊢
    rw [Text.bytes_nil, htmlFrom, hlast]
    simp
  | cons c rest ih =>
    rw [Text.bytes_cons]
    have hassoc (u : Text) : u ++ c :: rest = u ++ [c] ++ rest := by simp
    cases hentity : Text.Entity.entity? c with
    | none =>
      -- The cut stays where it is, and the character is one more since then.
      rw [htmlFrom_append fun b hb => Text.Entity.ofByte?_eq_none hentity hb,
        String.length_utf8EncodeChar]
      have hnext := ih written (since ++ [c])
      rw [← List.append_assoc, Text.size_append, Text.size_cons, Text.size_nil, Nat.add_zero,
        ← hassoc] at hnext
      rw [hnext, Text.Entity.encode_cons, Text.Entity.encodeChar, hentity]
      simp
    | some entity =>
      -- The cut moves behind the character.
      obtain ⟨b, hbytes, hb⟩ := Text.Entity.ofByte?_of_entity? hentity
      have hsize : c.utf8Size = 1 := by
        rw [← String.length_utf8EncodeChar, hbytes]
        rfl
      have hnext := ih (written ++ since ++ [c]) []
      rw [List.append_nil, Text.size_append, Text.size_cons, Text.size_nil, hsize, ← hassoc]
        at hnext
      rw [hbytes, List.singleton_append, htmlFrom, hb, slice_append]
      simp only [List.flatten_cons, Nat.add_zero] at hnext ⊢
      rw [hnext, Text.Entity.encode_cons, Text.Entity.encodeChar, hentity]
      rfl

/-- The escaper for HTML writes the encoding of the text. -/
theorem text_html (t : Text) : (html t).text = Text.Entity.encode t :=
  flatten_htmlFrom [] [] t

/-- A special character at the beginning, two side by side, and one of two bytes between them. -/
example : (html "<é&&x".toList).pieces =
    [[], "&lt;".toList, "é".toList, "&amp;".toList, [], "&amp;".toList, ['x']] := by
  decide +kernel

end Escaper

end Mustache
