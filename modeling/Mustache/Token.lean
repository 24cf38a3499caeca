import Mustache.Tag

/-!
# Tokens

A template is text with tags in it. `Cursor.step` finds the next tag and cuts
what is left of the template into the text before the tag, the tag, and the
rest. A tag that has a line to itself owns that line: the blanks before it
belong to the tag and not to the text, and so do the blanks and the line break
after it. `Margins` is that division, and `Step` is the whole cut.

The tokens of a template are read off its steps. They stop at the first tag that
cannot be read, whose fault is kept beside them: what comes before a fault can
still be found wrong for reasons of its own, and then that reason counts.

## Main results

* `append_of_step` — the pieces of a step, one after the other, are what was
  left before it;
* `offset_of_step` — the cursor moves by the size of these pieces;
* `length_of_step` — every step leaves less behind;
* `tokens_of_step_some` — the tokens from a place on are those of the next step
  and then those from the next place on.
-/

namespace Mustache

/-! ## The line of a tag -/

/-- How a tag divides the text around it. -/
structure Margins where
  /-- The text before the tag that is left over. -/
  text : Text
  /-- The blanks before the tag that belong to it. -/
  lead : Text
  /-- The blanks and the line break after the tag that belong to it. -/
  trail : Text
  /-- The text after the tag that is left over. -/
  rest : Text

namespace Margins

/-- The margins of a tag inside a line: none. -/
def inline (before after : Text) : Margins :=
  ⟨before, [], [], after⟩

/-- Cuts the blanks off the end of a text, if nothing else stands on its last line. The text
begins a line if `lineStart` holds. -/
def lead? (lineStart : Bool) (before : Text) : Option (Text × Text) :=
  let blanks := (before.reverse.takeWhile Text.isBlank).reverse
  let text := (before.reverse.dropWhile Text.isBlank).reverse
  if text.getLast?.elim lineStart (· == '\n') then some (text, blanks) else none

/-- Cuts the blanks and the line break off the front of a text, if nothing else stands on its
first line. The end of a text ends a line too. -/
def trail? (after : Text) : Option (Text × Text) :=
  let blanks := after.takeWhile Text.isBlank
  match after.dropWhile Text.isBlank with
  | [] => some (blanks, [])
  | '\n' :: rest => some (blanks ++ ['\n'], rest)
  | '\r' :: '\n' :: rest => some (blanks ++ ['\r', '\n'], rest)
  | _ => none

/-- The margins of a tag that has its line to itself. -/
def standalone? (lineStart : Bool) (before after : Text) : Option Margins := do
  let (text, lead) ← lead? lineStart before
  let (trail, rest) ← trail? after
  return ⟨text, lead, trail, rest⟩

/-- The margins of a tag. -/
def of (tag : Tag) (lineStart : Bool) (before after : Text) : Margins :=
  if tag.ownsLine then (standalone? lineStart before after).getD (inline before after)
  else inline before after

theorem append_of_lead? {lineStart : Bool} {before text lead : Text}
    (h : lead? lineStart before = some (text, lead)) : text ++ lead = before := by
  simp only [lead?, Option.ite_none_right_eq_some, Option.some.injEq, Prod.mk.injEq] at h
  obtain ⟨-, rfl, rfl⟩ := h
  rw [← List.reverse_append, List.takeWhile_append_dropWhile, List.reverse_reverse]

theorem append_of_trail? {after trail rest : Text} (h : trail? after = some (trail, rest)) :
    trail ++ rest = after := by
  have ha := List.takeWhile_append_dropWhile (p := Text.isBlank) (l := after)
  simp only [trail?] at h
  generalize after.takeWhile Text.isBlank = blanks at h ha
  split at h <;> simp_all <;> obtain ⟨rfl, rfl⟩ := h <;> simp [← ha]

theorem append_of_standalone? {lineStart : Bool} {before after : Text} {m : Margins}
    (h : standalone? lineStart before after = some m) :
    m.text ++ m.lead = before ∧ m.trail ++ m.rest = after := by
  simp only [standalone?, Option.bind_eq_bind, Option.bind_eq_some_iff, Option.pure_def,
    Option.some.injEq] at h
  obtain ⟨⟨text, lead⟩, hl, ⟨trail, rest⟩, ht, rfl⟩ := h
  exact ⟨append_of_lead? hl, append_of_trail? ht⟩

theorem append_of (tag : Tag) (lineStart : Bool) (before after : Text) :
    (of tag lineStart before after).text ++ (of tag lineStart before after).lead = before ∧
      (of tag lineStart before after).trail ++ (of tag lineStart before after).rest = after := by
  rw [of]
  split
  · cases h : standalone? lineStart before after with
    | none => simp [inline]
    | some m => exact append_of_standalone? h
  · simp [inline]

end Margins

/-! ## From tag to tag -/

/-- A place in a template between two tags. -/
structure Cursor where
  /-- How many bytes of the template come before. -/
  offset : Nat
  /-- What is left of the template. -/
  rest : Text
  /-- Whether a line begins here. -/
  lineStart : Bool
  /-- The delimiters in force. -/
  delimiters : Delimiters

/-- The place where a template begins. -/
def Cursor.start (source : Text) : Cursor :=
  ⟨0, source, true, .braces⟩

/-- The next tag of a template and the text before it. -/
structure Step where
  /-- The text before the tag, without the blanks that belong to the tag. -/
  text : Text
  /-- The blanks before the tag, if they belong to it. -/
  lead : Text
  tag : Tag
  /-- The tag up to its body, from the opening delimiter on. -/
  before : Text
  /-- The name in the tag, or its content. -/
  body : Text
  /-- The tag after its body, up to and with the closing delimiter. -/
  after : Text
  /-- What comes after the tag and belongs to it. -/
  trail : Text
  /-- The place after all this. -/
  next : Cursor

/-- The whole tag, from delimiter to delimiter. -/
def Step.lexeme (s : Step) : Text :=
  s.before ++ s.body ++ s.after

/-- The pieces of a step, one after the other. -/
def Step.pieces (s : Step) : Text :=
  s.text ++ s.lead ++ s.lexeme ++ s.trail

/-- The delimiters in force after a tag. -/
def Tag.delimitersAfter (d : Delimiters) : Tag → Delimiters
  | delimiters next => next
  | _ => d

/-- The step over a tag that was read, with the text `before` between the cursor and the tag. -/
def Cursor.stepOver (c : Cursor) (before : Text) (r : Tag.Reading) : Step :=
  let m := Margins.of r.tag c.lineStart before r.rest
  { text := m.text
    lead := m.lead
    tag := r.tag
    before := r.before
    body := r.body
    after := r.after
    trail := m.trail
    next := {
      offset := c.offset + Text.size before + Text.size r.lexeme + Text.size m.trail
      rest := m.rest
      lineStart := m.trail.getLast? == some '\n'
      delimiters := r.tag.delimitersAfter c.delimiters } }

/-- Finds the next tag, if there is one. -/
def Cursor.step (c : Cursor) : Except Error (Option Step) :=
  match Text.splitAtFirst? c.delimiters.opening.text c.rest with
  | none => .ok none
  | some (before, t) =>
    match Tag.read c.delimiters t with
    | .error fault => .error (.located fault.cause ⟨c.offset + Text.size before, fault.size⟩)
    | .ok r => .ok (some (c.stepOver before r))

namespace Cursor

theorem step_eq_some_iff {c : Cursor} {s : Step} :
    c.step = .ok (some s) ↔ ∃ before t r,
      Text.splitAtFirst? c.delimiters.opening.text c.rest = some (before, t) ∧
        Tag.read c.delimiters t = .ok r ∧ c.stepOver before r = s := by
  rw [step]
  split
  · rename_i h
    simp [h]
  · rename_i before t h
    simp only [h, Option.some.injEq, Prod.mk.injEq]
    constructor
    · split
      · nofun
      · rename_i r hr
        intro hs
        exact ⟨before, t, r, ⟨rfl, rfl⟩, hr, Option.some.inj (Except.ok.inj hs)⟩
    · rintro ⟨_, _, r, ⟨rfl, rfl⟩, hr, rfl⟩
      rw [hr]

theorem step_eq_error_iff {c : Cursor} {e : Error} :
    c.step = .error e ↔ ∃ before t fault,
      Text.splitAtFirst? c.delimiters.opening.text c.rest = some (before, t) ∧
        Tag.read c.delimiters t = .error fault ∧
        .located fault.cause ⟨c.offset + Text.size before, fault.size⟩ = e := by
  rw [step]
  split
  · rename_i h
    simp [h]
  · rename_i before t h
    simp only [h, Option.some.injEq, Prod.mk.injEq]
    constructor
    · split
      · rename_i fault hfault
        intro he
        exact ⟨before, t, fault, ⟨rfl, rfl⟩, hfault, Except.error.inj he⟩
      · nofun
    · rintro ⟨_, _, fault, ⟨rfl, rfl⟩, hfault, rfl⟩
      rw [hfault]

theorem append_stepOver (c : Cursor) (before : Text) (r : Tag.Reading) :
    (c.stepOver before r).pieces ++ (c.stepOver before r).next.rest =
      before ++ (r.lexeme ++ r.rest) := by
  obtain ⟨h₁, h₂⟩ := Margins.append_of r.tag c.lineStart before r.rest
  simp only [stepOver, Step.pieces, Step.lexeme]
  generalize Margins.of r.tag c.lineStart before r.rest = m at h₁ h₂
  simp [← h₁, ← h₂, Tag.Reading.lexeme]

/-- The tag begins where the text before it ends, whichever blanks belong to the tag. -/
theorem offset_stepOver (c : Cursor) (before : Text) (r : Tag.Reading) :
    c.offset + Text.size (c.stepOver before r).text + Text.size (c.stepOver before r).lead =
      c.offset + Text.size before := by
  have h := congrArg Text.size (Margins.append_of r.tag c.lineStart before r.rest).1
  rw [Text.size_append] at h
  simp only [stepOver, Nat.add_assoc, h]

theorem append_of_step {c : Cursor} {s : Step} (h : c.step = .ok (some s)) :
    s.pieces ++ s.next.rest = c.rest := by
  obtain ⟨before, t, r, ht, hr, rfl⟩ := step_eq_some_iff.1 h
  rw [append_stepOver, Tag.append_of_read hr, Text.append_of_splitAtFirst? ht]

theorem offset_of_step {c : Cursor} {s : Step} (h : c.step = .ok (some s)) :
    s.next.offset = c.offset + Text.size s.pieces := by
  obtain ⟨before, t, r, ht, hr, rfl⟩ := step_eq_some_iff.1 h
  have hm := congrArg Text.size (Margins.append_of r.tag c.lineStart before r.rest).1
  simp only [stepOver, Step.pieces, Step.lexeme, Tag.Reading.lexeme, Text.size_append] at hm ⊢
  omega

/-- A step takes at least its tag, and a tag at least its opening delimiter. -/
theorem length_of_step {c : Cursor} {s : Step} (h : c.step = .ok (some s)) :
    s.next.rest.length < c.rest.length := by
  have ha := congrArg List.length (append_of_step h)
  obtain ⟨before, t, r, ht, hr, rfl⟩ := step_eq_some_iff.1 h
  have hl : c.delimiters.opening.text.length ≤ (c.stepOver before r).lexeme.length :=
    (Tag.opening_isPrefix_of_read hr).length_le
  have ho := c.delimiters.opening.length_pos
  simp only [Step.pieces, List.length_append] at ha
  omega

end Cursor

/-! ## Tokens -/

/-- A piece of a template that the nodes are made of. -/
inductive Token
  /-- Text that is not part of a tag or of its line. -/
  | text (span : Span)
  /-- A tag with a name. An inclusion that has its line to itself keeps the blanks before it. -/
  | tag (role : Role) (name : Text) (nameSpan span : Span) (indent : Text)
deriving DecidableEq, Repr

namespace Token

/-- The token of a text at an offset; the empty text has none. -/
def ofText (offset : Nat) (t : Text) : List Token :=
  if t.isEmpty then [] else [.text ⟨offset, Text.size t⟩]

/-- The token of the tag of a step at an offset; a comment has none. -/
def ofTag (offset : Nat) (s : Step) : List Token :=
  match s.tag with
  | .named role =>
    let name : Span := ⟨offset + Text.size s.before, Text.size s.body⟩
    let indent := if role = .inclusion then s.lead else []
    [.tag role s.body name ⟨offset, Text.size s.lexeme⟩ indent]
  | _ => []

/-- The tokens of a step that begins at an offset. -/
def ofStep (offset : Nat) (s : Step) : List Token :=
  ofText offset s.text ++ ofTag (offset + Text.size s.text + Text.size s.lead) s

end Token

/-- The tokens from a place on, and the fault that ends them, if one does. -/
def Cursor.tokens (c : Cursor) : List Token × Option Error :=
  match _h : c.step with
  | .error fault => ([], some fault)
  | .ok none => (Token.ofText c.offset c.rest, none)
  | .ok (some s) =>
    let (more, fault) := s.next.tokens
    (Token.ofStep c.offset s ++ more, fault)
termination_by c.rest.length
decreasing_by exact length_of_step _h

namespace Cursor

theorem tokens_of_step_error {c : Cursor} {e : Error} (h : c.step = .error e) :
    c.tokens = ([], some e) := by
  rw [tokens]
  split <;> simp_all

theorem tokens_of_step_none {c : Cursor} (h : c.step = .ok none) :
    c.tokens = (Token.ofText c.offset c.rest, none) := by
  rw [tokens]
  split <;> simp_all

theorem tokens_of_step_some {c : Cursor} {s : Step} (h : c.step = .ok (some s)) :
    c.tokens = (Token.ofStep c.offset s ++ s.next.tokens.1, s.next.tokens.2) := by
  rw [tokens]
  split <;> simp_all

end Cursor

end Mustache
