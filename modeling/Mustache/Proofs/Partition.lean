import Mathlib
import Mustache.Proofs.StandaloneLine

/-!
# Where the text of a template goes

Lexing goes from tag to tag, and every step decides anew what is text, what
belongs to the tag, and where the next step begins.  A mistake of one character
at any of these places would lose a character of the template or read it twice.

`Cursor.steps` lists the steps of a template, and `Step.Partitions` says what
one of them does to the bytes between its two ends: it divides them into text,
the blanks before the tag, the tag and the rest of its line, and it makes one
token of the text and one of the tag.  What carries this from step to step is
`Cursor.Follows`: the cursor stands where the text that was passed ends, knows
its size, and knows whether it ends a line.

## Main results

* `Cursor.Follows.step` — a step keeps the cursor at the end of what was passed;
* `Step.partitions_of_step` — every step divides its bytes;
* `Cursor.tokens_eq_of_snd_eq_none` — the tokens are those of the steps;
* `tokens_partition` — the steps of a template together make up the template,
  and every span of a token lies between characters of it.
-/

namespace Mustache

/-! ## The steps -/

namespace Cursor

/-- The steps from a place on, each with the place where it begins. -/
def steps (c : Cursor) : List (Cursor × Step) :=
  match _h : c.step with
  | .ok (some s) => (c, s) :: s.next.steps
  | _ => []
termination_by c.rest.length
decreasing_by exact length_of_step _h

/-- The place after the last step. -/
def last (c : Cursor) : Cursor :=
  match _h : c.step with
  | .ok (some s) => s.next.last
  | _ => c
termination_by c.rest.length
decreasing_by exact length_of_step _h

theorem steps_of_step_some {c : Cursor} {s : Step} (h : c.step = .ok (some s)) :
    c.steps = (c, s) :: s.next.steps := by
  rw [steps]
  split <;> simp_all

theorem steps_eq_nil {c : Cursor} (h : ∀ s, c.step ≠ .ok (some s)) : c.steps = [] := by
  rw [steps]
  split <;> simp_all

theorem last_of_step_some {c : Cursor} {s : Step} (h : c.step = .ok (some s)) :
    c.last = s.next.last := by
  rw [last]
  split <;> simp_all

theorem last_eq_self {c : Cursor} (h : ∀ s, c.step ≠ .ok (some s)) : c.last = c := by
  rw [last]
  split <;> simp_all

/-- Without a fault the tokens are those of the steps, and the text after the last of them. -/
theorem tokens_eq_of_snd_eq_none {c : Cursor} (h : c.tokens.2 = none) :
    c.last.step = .ok none ∧
      c.tokens.1 = c.steps.flatMap (fun p => Token.ofStep p.1.offset p.2) ++
        Token.ofText c.last.offset c.last.rest := by
  cases hs : c.step with
  | error e =>
      rw [tokens_of_step_error hs] at h
      contradiction
  | ok next =>
      cases next with
      | none =>
          have hnone : ∀ s, c.step ≠ .ok (some s) := by simp [hs]
          rw [tokens_of_step_none hs, steps_eq_nil hnone, last_eq_self hnone]
          exact ⟨hs, rfl⟩
      | some s =>
          rw [tokens_of_step_some hs] at h
          have hdecr : s.next.rest.length < c.rest.length := length_of_step hs
          obtain ⟨hlast, htokens⟩ := tokens_eq_of_snd_eq_none (c := s.next) h
          rw [tokens_of_step_some hs, steps_of_step_some hs, last_of_step_some hs]
          refine ⟨hlast, ?_⟩
          simp [htokens]
termination_by c.rest.length

end Cursor

/-! ## The last character of a tag -/

namespace Delimiter

theorem isSpace_eq_false_of_allows {c : Char} (h : allows c = true) : Text.isSpace c = false := by
  simp only [allows, Bool.and_eq_true, Bool.not_eq_true'] at h
  exact h.1

/-- A text that ends with a delimiter does not end in space. -/
theorem exists_getLast?_of_suffix {d : Delimiter} {t : Text} (h : d.text <:+ t) :
    ∃ c, t.getLast? = some c ∧ Text.isSpace c = false := by
  obtain ⟨r, rfl⟩ := h
  cases hlast : d.text.getLast? with
  | none => exact absurd (List.getLast?_eq_none_iff.1 hlast) d.nonempty
  | some c =>
      have hmem : c ∈ d.text := List.mem_of_getLast? hlast
      refine ⟨c, by simp [List.getLast?_append, hlast], ?_⟩
      exact isSpace_eq_false_of_allows (List.all_eq_true.1 d.allowed c hmem)

end Delimiter

/-- Where a line is closed, the next one begins or the text ends. -/
theorem Text.ClosesLine.getLast? {trail rest : Text} (h : Text.ClosesLine trail rest) :
    rest = [] ∨ trail.getLast? = some '\n' := by
  cases h with
  | atEnd => exact .inl rfl
  | lineFeed => exact .inr (by simp)
  | carriageReturn => exact .inr (by simp)

/-! ## From step to step -/

/-- The cursor stands in the template `source` where the text `passed` ends, and what comes before
a tag that is still to be read does not end in a blank. -/
structure Cursor.Follows (c : Cursor) (source passed : Text) : Prop where
  append : passed ++ c.rest = source
  offset : c.offset = Text.size passed
  lineStart : c.lineStart = passed.endsLine
  notBlank : c.rest = [] ∨ ∀ x, passed.getLast? = some x → Text.isBlank x = false

/-- In the template `source` the tag of a step from the cursor stands between two texts. -/
structure Cursor.Between (c : Cursor) (s : Step) (source before after : Text) : Prop where
  append : before ++ s.lexeme ++ after = source
  size : Text.size before = c.offset + Text.size s.text + Text.size s.lead

namespace Cursor

theorem follows_start (source : Text) : (start source).Follows source [] :=
  ⟨rfl, rfl, rfl, .inr nofun⟩

end Cursor

namespace Step

theorem exists_getLast?_lexeme {c : Cursor} {s : Step} (h : c.step = .ok (some s)) :
    ∃ x, s.lexeme.getLast? = some x ∧ Text.isSpace x = false := by
  obtain ⟨before, t, r, -, hr, rfl⟩ := Cursor.step_eq_some_iff.1 h
  exact Delimiter.exists_getLast?_of_suffix (Tag.closing_isSuffix_of_read hr)

end Step

namespace Cursor

variable {c : Cursor} {source passed : Text} {s : Step}

/-- Where a tag is found, what was passed does not end in a blank. -/
theorem Follows.notBlank_of_step (h : c.Follows source passed) (hs : c.step = .ok (some s)) :
    ∀ x, passed.getLast? = some x → Text.isBlank x = false := by
  refine h.notBlank.resolve_left ?_
  intro hnil
  have := length_of_step hs
  simp [hnil] at this

/-- The line of a tag in a step: if the tag stands alone in the template, the step takes its line,
and otherwise nothing but the tag. -/
theorem Follows.line_of_step (h : c.Follows source passed) (hs : c.step = .ok (some s)) :
    (s.tag.StandsAlone (passed ++ (s.text ++ s.lead)) (s.trail ++ s.next.rest) ∧
        Text.endsLine (passed ++ s.text) = true ∧ Text.Blank s.lead ∧
        Text.ClosesLine s.trail s.next.rest) ∨
      (¬ s.tag.StandsAlone (passed ++ (s.text ++ s.lead)) (s.trail ++ s.next.rest) ∧
        s.lead = [] ∧ s.trail = []) := by
  have hpassed := h.notBlank_of_step hs
  obtain ⟨before, t, r, -, -, rfl⟩ := step_eq_some_iff.1 hs
  obtain ⟨hbefore, hafter⟩ := Margins.append_of r.tag c.lineStart before r.rest
  simp only [stepOver]
  rw [hbefore, hafter, h.lineStart]
  by_cases halone : r.tag.StandsAlone (passed ++ before) r.rest
  · exact .inl ⟨halone, Margins.of_of_standsAlone hpassed halone⟩
  · have hinline := Margins.of_of_not_standsAlone hpassed halone
    refine .inr ⟨halone, ?_, ?_⟩
    · rw [hinline]
      rfl
    · rw [hinline]
      rfl

/-- After a step the cursor stands where the pieces of the step end. -/
theorem Follows.step (h : c.Follows source passed) (hs : c.step = .ok (some s)) :
    s.next.Follows source (passed ++ s.pieces) := by
  obtain ⟨x, hlast, hspace⟩ := Step.exists_getLast?_lexeme hs
  have hfeed : x ≠ '\n' := by
    rintro rfl
    contradiction
  have hblank := Text.isBlank_eq_false hspace
  have hpieces : passed ++ s.pieces = (passed ++ (s.text ++ s.lead) ++ s.lexeme) ++ s.trail := by
    simp [Step.pieces]
  have htag : (passed ++ (s.text ++ s.lead) ++ s.lexeme).getLast? = some x := by
    rw [List.getLast?_append, hlast]
    rfl
  constructor
  · rw [List.append_assoc, append_of_step hs, h.append]
  · rw [offset_of_step hs, h.offset, Text.size_append]
  · have hnext : s.next.lineStart = (s.trail.getLast? == some '\n') := by
      obtain ⟨before, t, r, -, -, rfl⟩ := step_eq_some_iff.1 hs
      rfl
    rw [hnext, hpieces, Text.endsLine_append, Text.endsLine, htag]
    cases s.trail.getLast? with
    | none => simpa using hfeed
    | some y => rfl
  · rw [hpieces]
    rcases h.line_of_step hs with ⟨-, -, -, hcloses⟩ | ⟨-, -, htrail⟩
    · refine hcloses.getLast?.imp id ?_
      intro hfeed' y hy
      rw [List.getLast?_append, hfeed'] at hy
      cases hy
      rfl
    · right
      intro y hy
      rw [htrail, List.append_nil, htag] at hy
      cases hy
      exact hblank

/-- The text before a tag ends where the text that was passed and the text of the step end. -/
theorem Follows.between (h : c.Follows source passed) (hs : c.step = .ok (some s)) :
    c.Between s source (passed ++ (s.text ++ s.lead)) (s.trail ++ s.next.rest) := by
  constructor
  · rw [← h.append, ← append_of_step hs, Step.pieces]
    simp only [List.append_assoc]
  · rw [Text.size_append, Text.size_append, h.offset, Nat.add_assoc]

/-- A piece of what is left of the template has the span that begins after what stands before it. -/
theorem Follows.covers (h : c.Follows source passed) {a b r : Text} (hrest : a ++ b ++ r = c.rest) :
    Span.Covers ⟨c.offset + Text.size a, Text.size b⟩ source b :=
  ⟨passed ++ a, r, by simp [← h.append, ← hrest], by simp [h.offset], rfl⟩

end Cursor

/-! ## What a step does -/

/-- The one span lies in the other. -/
def Span.Inside (a b : Span) : Prop :=
  b.offset ≤ a.offset ∧ a.offset + a.length ≤ b.offset + b.length

/-- The spans in a token. -/
def Token.spans : Token → List Span
  | .text span => [span]
  | .tag _ _ nameSpan span _ => [nameSpan, span]

/-- The step from the cursor `c` divides the bytes up to the next cursor, and makes tokens of
them. -/
structure Step.Partitions (s : Step) (source : Text) (c : Cursor) : Prop where
  offset : s.next.offset = c.offset + Text.size (s.text ++ s.lead ++ s.lexeme ++ s.trail)
  covers : Span.Covers ⟨c.offset, s.next.offset - c.offset⟩ source
    (s.text ++ s.lead ++ s.lexeme ++ s.trail)
  opening : c.delimiters.opening.text <+: s.lexeme
  closing : c.delimiters.closing.text <:+ s.lexeme
  /-- No tag begins before the tag. -/
  first : ∀ x y, x ++ y = s.text ++ s.lead ++ s.lexeme → x.length < (s.text ++ s.lead).length →
    ¬ c.delimiters.opening.text <+: y
  /-- The tag takes its line if nothing else in the template stands on it. -/
  line : ∃ before after, before ++ s.lexeme ++ after = source ∧
    Text.size before = c.offset + Text.size s.text + Text.size s.lead ∧
    (s.tag.StandsAlone before after ∧
        (∃ above, above ++ s.lead = before ∧ above.endsLine = true) ∧ Text.Blank s.lead ∧
        Text.ClosesLine s.trail s.next.rest ∨
      ¬ s.tag.StandsAlone before after ∧ s.lead = [] ∧ s.trail = [])
  coversText : Span.Covers ⟨c.offset, Text.size s.text⟩ source s.text
  /-- A tag with a name makes one token, which comes after the token of the text. -/
  named : ∀ role, s.tag = .named role → ∃ nameSpan span indent,
    Token.ofStep c.offset s =
        (if s.text = [] then [] else [.text ⟨c.offset, Text.size s.text⟩]) ++
          [.tag role s.body nameSpan span indent] ∧
      span = ⟨c.offset + Text.size s.text + Text.size s.lead, Text.size s.lexeme⟩ ∧
      span.Covers source s.lexeme ∧ nameSpan.Covers source s.body ∧ nameSpan.Inside span ∧
      indent = if role = .inclusion then s.lead else []
  /-- Any other tag makes none. -/
  unnamed : (∀ role, s.tag ≠ .named role) →
    Token.ofStep c.offset s =
      if s.text = [] then [] else [.text ⟨c.offset, Text.size s.text⟩]

namespace Token

theorem ofText_eq (offset : Nat) (t : Text) :
    ofText offset t = if t = [] then [] else [.text ⟨offset, Text.size t⟩] := by
  simp only [ofText, List.isEmpty_iff]

end Token

namespace Step

variable {c : Cursor} {source passed : Text} {s : Step}

/-- The tag of a step is the first one after the cursor. -/
theorem not_opening_isPrefix_of_step (hs : c.step = .ok (some s)) {x y : Text}
    (hxy : x ++ y = s.text ++ s.lead ++ s.lexeme) (hlt : x.length < (s.text ++ s.lead).length) :
    ¬ c.delimiters.opening.text <+: y := by
  obtain ⟨before, t, r, hfind, hr, rfl⟩ := Cursor.step_eq_some_iff.1 hs
  obtain ⟨happend, hfirst⟩ :=
    (Text.splitAtFirst?_eq_some_iff c.delimiters.opening.nonempty).1 hfind
  have hbefore := (Margins.append_of r.tag c.lineStart before r.rest).1
  simp only [Cursor.stepOver, lexeme] at hxy hlt
  rw [hbefore] at hxy hlt
  have hread : r.before ++ r.body ++ r.after ++ r.rest = c.delimiters.opening.text ++ t :=
    Tag.append_of_read hr
  have hrest : x ++ (y ++ r.rest) = c.rest := by
    rw [← happend, ← hread, ← List.append_assoc, hxy, List.append_assoc]
  intro hbegins
  exact hfirst x (y ++ r.rest) hrest hlt (hbegins.trans (List.prefix_append _ _))

/-- A step that is taken where the cursor follows the template divides its bytes. -/
theorem partitions_of_step (h : c.Follows source passed) (hs : c.step = .ok (some s)) :
    s.Partitions source c := by
  have hrest := Cursor.append_of_step hs
  have hoffset := Cursor.offset_of_step hs
  rw [pieces] at hrest hoffset
  have hlexeme : Span.Covers ⟨c.offset + Text.size s.text + Text.size s.lead, Text.size s.lexeme⟩
      source s.lexeme := by
    have := h.covers (a := s.text ++ s.lead) (b := s.lexeme) (r := s.trail ++ s.next.rest)
      (by rw [← hrest, List.append_assoc _ s.trail])
    rwa [Text.size_append, ← Nat.add_assoc] at this
  have hbody : Span.Covers ⟨c.offset + Text.size s.text + Text.size s.lead + Text.size s.before,
      Text.size s.body⟩ source s.body := by
    have := h.covers (a := s.text ++ s.lead ++ s.before) (b := s.body)
      (r := s.after ++ s.trail ++ s.next.rest) (by rw [← hrest, lexeme]; simp)
    rwa [Text.size_append, Text.size_append, ← Nat.add_assoc, ← Nat.add_assoc] at this
  constructor
  · exact hoffset
  · rw [hoffset, Nat.add_sub_cancel_left]
    exact h.covers (a := []) (r := s.next.rest) (by rw [List.nil_append, hrest])
  · obtain ⟨before, t, r, -, hr, rfl⟩ := Cursor.step_eq_some_iff.1 hs
    exact Tag.opening_isPrefix_of_read hr
  · obtain ⟨before, t, r, -, hr, rfl⟩ := Cursor.step_eq_some_iff.1 hs
    exact Tag.closing_isSuffix_of_read hr
  · intro x y hxy hlt
    exact not_opening_isPrefix_of_step hs hxy hlt
  · obtain ⟨happend, hsize⟩ := h.between hs
    refine ⟨_, _, happend, hsize, (h.line_of_step hs).imp ?_ id⟩
    rintro ⟨halone, hline, hblank, hcloses⟩
    exact ⟨halone, ⟨passed ++ s.text, List.append_assoc .., hline⟩, hblank, hcloses⟩
  · exact h.covers (a := []) (r := s.lead ++ s.lexeme ++ s.trail ++ s.next.rest)
      (by rw [← hrest]; simp)
  · intro role hrole
    refine ⟨_, _, _, ?_, rfl, hlexeme, hbody, ?_, rfl⟩
    · rw [Token.ofStep, Token.ofTag, hrole, Token.ofText_eq]
    · constructor
      · exact Nat.le_add_right _ _
      · simp only [lexeme, Text.size_append]
        omega
  · intro hnone
    rw [Token.ofStep, Token.ofText_eq]
    have htag : Token.ofTag (c.offset + Text.size s.text + Text.size s.lead) s = [] := by
      unfold Token.ofTag
      cases ht : s.tag with
      | named role => exact absurd ht (hnone role)
      | comment => rfl
      | delimiters next => rfl
    rw [htag, List.append_nil]

end Step

/-! ## What all steps do -/

namespace Cursor

/-- Every step of a run divides its bytes, and after all of them the cursor stands where their
pieces end. -/
theorem Follows.run {c : Cursor} {source passed : Text} (h : c.Follows source passed) :
    (∀ p ∈ c.steps, p.1.step = .ok (some p.2) ∧ p.2.Partitions source p.1) ∧
      c.last.Follows source (passed ++ c.steps.flatMap fun p => p.2.pieces) := by
  by_cases hnone : ∀ s, c.step ≠ .ok (some s)
  · rw [steps_eq_nil hnone, last_eq_self hnone]
    refine ⟨nofun, ?_⟩
    simpa using h
  · obtain ⟨s, hs⟩ : ∃ s, c.step = .ok (some s) := by simpa using hnone
    have hdecr : s.next.rest.length < c.rest.length := length_of_step hs
    obtain ⟨hsteps, hlast⟩ := (h.step hs).run
    rw [steps_of_step_some hs, last_of_step_some hs]
    refine ⟨?_, ?_⟩
    · intro p hp
      rcases List.mem_cons.1 hp with rfl | hp
      · exact ⟨hs, Step.partitions_of_step h hs⟩
      · exact hsteps p hp
    · simpa using hlast
termination_by c.rest.length

end Cursor

namespace Step.Partitions

variable {s : Step} {source : Text} {c : Cursor} {token : Token}

/-- A token of a step is that of its text or that of its tag. -/
theorem eq_of_mem_ofStep (h : s.Partitions source c) (ht : token ∈ Token.ofStep c.offset s) :
    token = .text ⟨c.offset, Text.size s.text⟩ ∨
      ∃ role nameSpan span,
        token = .tag role s.body nameSpan span (if role = .inclusion then s.lead else []) ∧
          span.Covers source s.lexeme ∧ nameSpan.Covers source s.body := by
  have htext : token ∈ (if s.text = [] then [] else [.text ⟨c.offset, Text.size s.text⟩]) →
      token = .text ⟨c.offset, Text.size s.text⟩ := by
    intro hmem
    split at hmem
    · contradiction
    · exact List.mem_singleton.1 hmem
  by_cases hnamed : ∃ role, s.tag = .named role
  · obtain ⟨role, hrole⟩ := hnamed
    obtain ⟨nameSpan, span, indent, htokens, -, htag, hname, -, rfl⟩ := h.named role hrole
    rw [htokens, List.mem_append, List.mem_singleton] at ht
    exact ht.imp htext fun heq => ⟨role, nameSpan, span, heq, htag, hname⟩
  · rw [h.unnamed fun role hrole => hnamed ⟨role, hrole⟩] at ht
    exact .inl (htext ht)

/-- The token of a tag: its spans are those of the tag and of the name in it, and of the blanks before
it an inclusion keeps those that belong to it. -/
theorem tag_of_mem_ofStep (h : s.Partitions source c) {role : Role} {name indent : Text}
    {nameSpan span : Span} (ht : .tag role name nameSpan span indent ∈ Token.ofStep c.offset s) :
    span = ⟨c.offset + Text.size s.text + Text.size s.lead, Text.size s.lexeme⟩ ∧
      span.Covers source s.lexeme ∧ nameSpan.Covers source name ∧
      indent = if role = .inclusion then s.lead else [] := by
  have htext : .tag role name nameSpan span indent ∉
      (if s.text = [] then [] else [Token.text ⟨c.offset, Text.size s.text⟩]) := by
    split <;> simp
  by_cases hnamed : ∃ role, s.tag = .named role
  · obtain ⟨role', hrole⟩ := hnamed
    obtain ⟨nameSpan', span', indent', htokens, hspan, htag, hname, -, hindent⟩ :=
      h.named role' hrole
    rw [htokens, List.mem_append, List.mem_singleton] at ht
    cases ht.resolve_left htext
    exact ⟨hspan, htag, hname, hindent⟩
  · rw [h.unnamed fun role hrole => hnamed ⟨role, hrole⟩] at ht
    exact absurd ht htext

/-- The spans in the tokens of a step are spans of the template. -/
theorem exists_covers (h : s.Partitions source c) (ht : token ∈ Token.ofStep c.offset s)
    {span : Span} (hspan : span ∈ token.spans) : ∃ piece, span.Covers source piece := by
  rcases h.eq_of_mem_ofStep ht with rfl | ⟨role, nameSpan, tagSpan, rfl, htag, hname⟩
  · rw [Token.spans, List.mem_singleton] at hspan
    exact ⟨_, hspan ▸ h.coversText⟩
  · rw [Token.spans, List.mem_cons, List.mem_singleton] at hspan
    rcases hspan with rfl | rfl
    · exact ⟨_, hname⟩
    · exact ⟨_, htag⟩

/-- A tag keeps nothing but blanks. -/
theorem blank_indent (h : s.Partitions source c) {role : Role} {name indent : Text}
    {nameSpan span : Span} (ht : .tag role name nameSpan span indent ∈ Token.ofStep c.offset s) :
    Text.Blank indent := by
  have hlead : Text.Blank s.lead := by
    obtain ⟨before, after, -, -, hline⟩ := h.line
    rcases hline with ⟨-, -, hblank, -⟩ | ⟨-, hnil, -⟩
    · exact hblank
    · rw [hnil]
      exact nofun
  rcases h.eq_of_mem_ofStep ht with heq | ⟨role', nameSpan', span', heq, -, -⟩
  · contradiction
  · cases heq
    split
    · exact hlead
    · exact nofun

end Step.Partitions

/-- Lexing that meets no fault loses, repeats and reorders nothing.  Its tokens are those of its
steps and of the text after the last tag; the pieces of the steps and that text make up the
template; every step divides the bytes between its ends; no tag begins in the text at the end; and
every span of a token is that of a piece of the template. -/
theorem tokens_partition {source : Text} {tokens : List Token}
    (h : (Cursor.start source).tokens = (tokens, none)) :
    let steps := (Cursor.start source).steps
    let last := (Cursor.start source).last
    tokens = steps.flatMap (fun p => Token.ofStep p.1.offset p.2) ++
        (if last.rest = [] then [] else [.text ⟨last.offset, Text.size last.rest⟩]) ∧
      steps.flatMap (fun p => p.2.text ++ p.2.lead ++ p.2.lexeme ++ p.2.trail) ++ last.rest =
        source ∧
      (∀ p ∈ steps, p.1.step = .ok (some p.2) ∧ p.2.Partitions source p.1) ∧
      Span.Covers ⟨last.offset, Text.size last.rest⟩ source last.rest ∧
      ¬ last.delimiters.opening.text <:+: last.rest ∧
      ∀ token ∈ tokens, ∀ span ∈ token.spans, ∃ piece, span.Covers source piece := by
  intro steps last
  obtain ⟨hend, htokens⟩ := Cursor.tokens_eq_of_snd_eq_none (c := Cursor.start source) (by rw [h])
  obtain ⟨hsteps, hlast⟩ := (Cursor.follows_start source).run
  rw [h, Token.ofText_eq] at htokens
  change tokens = _ at htokens
  have hcovers : Span.Covers ⟨last.offset, Text.size last.rest⟩ source last.rest :=
    hlast.covers (a := []) (r := []) (by simp [last])
  refine ⟨htokens, hlast.append, hsteps, hcovers, ?_, ?_⟩
  · refine (Text.splitAtFirst?_eq_none_iff last.delimiters.opening.nonempty).1 ?_
    unfold Cursor.step at hend
    split at hend
    · assumption
    · split at hend <;> cases hend
  · intro token ht span hspan
    rw [htokens, List.mem_append, List.mem_flatMap] at ht
    rcases ht with ⟨p, hp, ht⟩ | ht
    · exact (hsteps p hp).2.exists_covers ht hspan
    · split at ht
      · contradiction
      · rw [List.mem_singleton] at ht
        subst ht
        rw [Token.spans, List.mem_singleton] at hspan
        exact ⟨_, hspan ▸ hcovers⟩

/-- A character of two bytes, a tag that takes its line, and one that does not. -/
theorem tokens_partition_of_section :
    (Cursor.start "é\n {{#s}}\r\n{{/s}}x".toList).tokens =
        ([.text ⟨0, 3⟩, .tag (.opening .normal) ['s'] ⟨7, 1⟩ ⟨4, 6⟩ [],
          .tag .closing ['s'] ⟨15, 1⟩ ⟨12, 6⟩ [], .text ⟨18, 1⟩], none) ∧
      (Cursor.start "é\n {{#s}}\r\n{{/s}}x".toList).steps.flatMap
          (fun p => p.2.text ++ p.2.lead ++ p.2.lexeme ++ p.2.trail) ++
        (Cursor.start "é\n {{#s}}\r\n{{/s}}x".toList).last.rest =
          "é\n {{#s}}\r\n{{/s}}x".toList := by
  have h : (Cursor.start "é\n {{#s}}\r\n{{/s}}x".toList).tokens =
      ([.text ⟨0, 3⟩, .tag (.opening .normal) ['s'] ⟨7, 1⟩ ⟨4, 6⟩ [],
        .tag .closing ['s'] ⟨15, 1⟩ ⟨12, 6⟩ [], .text ⟨18, 1⟩], none) := by cbv
  exact ⟨h, (tokens_partition h).2.1⟩

end Mustache
