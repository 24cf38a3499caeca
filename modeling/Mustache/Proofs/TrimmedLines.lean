import Mustache.Proofs.Places

/-!
# Lines that are taken whole

The rule about lines of their own is a rule about one line: a tag takes its line
with it if there are only blanks around it, from the line feed before it to the
line break after it.  Nothing else in the template has a say in it, and in
particular no tag on another line.

The lexer does not look at the line.  It goes back over blanks only as far as the
text since the last tag reaches, and of what comes before it knows one bit.  For
this to be the same, the blanks of the line must not go on beyond that text.  They
do not, because the text begins where the template begins, or after a line feed
that an earlier tag took with its line, or after a closing delimiter, which does
not end in space.  This is the invariant `Cursor.Follows`, and it holds wherever
the lexer gets to, also on its way to a tag that cannot be read.

A second tag on a line has the closing delimiter of the first one before it on the
same line.  So it is never alone, whatever the first one was; and if a tag has
several lines, it is the last of them that counts.

## Main results

* `Text.lastLine_append` — what `Text.lastLine` of a text is;
* `Tag.standsAlone_iff_lastLine` — what it takes for a tag to stand alone, said of
  the characters since the last line feed;
* `Cursor.Follows.trims_iff_standsAlone` — the lexer decides as the whole template
  says;
* `Cursor.trims_iff` — every tag that the lexer meets: whether its line is taken,
  what is taken then, and what otherwise.
-/

namespace Mustache

/-! ## The line that a text ends in -/

namespace Text

/-- The characters of a text after its last line feed. -/
def lastLine (t : Text) : Text :=
  (t.reverse.takeWhile (· != '\n')).reverse

/-- What comes after a line feed begins a line. -/
theorem exists_append_lastLine (t : Text) :
    ∃ above, above ++ t.lastLine = t ∧ above.endsLine = true := by
  refine ⟨(t.reverse.dropWhile (· != '\n')).reverse, ?_, ?_⟩
  · rw [lastLine, ← List.reverse_append, List.takeWhile_append_dropWhile, List.reverse_reverse]
  · rw [endsLine, List.getLast?_reverse]
    cases hhead : (t.reverse.dropWhile (· != '\n')).head? with
    | none => rfl
    | some c =>
        have hc : (c != '\n') = false := eq_false_of_head?_dropWhile (p := (· != '\n')) hhead
        simpa using hc

/-- A text without line feeds goes on with the line. -/
theorem lastLine_append_of_not_mem (a : Text) {b : Text} (h : '\n' ∉ b) :
    (a ++ b).lastLine = a.lastLine ++ b := by
  have hline : ∀ c ∈ b.reverse, (c != '\n') = true := by
    intro c hc
    rw [bne_iff_ne]
    rintro rfl
    exact h (List.mem_reverse.1 hc)
  rw [lastLine, List.reverse_append, List.takeWhile_append_of_pos hline, List.reverse_append,
    List.reverse_reverse, lastLine]

theorem lastLine_eq_nil {t : Text} (h : t.endsLine = true) : t.lastLine = [] := by
  rcases List.eq_nil_or_concat t with rfl | ⟨above, c, rfl⟩
  · rfl
  · have hc : c = '\n' := by simpa [endsLine] using h
    rw [hc, List.concat_eq_append, lastLine, List.reverse_append]
    rfl

/-- Where a line begins, what follows is the last line if it is on one line. -/
theorem lastLine_append {above line : Text} (habove : above.endsLine = true)
    (hline : '\n' ∉ line) : (above ++ line).lastLine = line := by
  rw [lastLine_append_of_not_mem above hline, lastLine_eq_nil habove, List.nil_append]

/-- Where a text is cut is determined by the size of the first piece. -/
theorem append_inj_of_size {a b a' b' : Text} (h : a ++ b = a' ++ b') (hsize : size a = size a') :
    a = a' ∧ b = b' := by
  have hfit := fit_size_append a b
  rw [h, hsize, fit_size_append] at hfit
  exact ⟨congrArg Prod.fst hfit.symm, congrArg Prod.snd hfit.symm⟩

end Text

/-! ## The line of a tag -/

namespace Tag

variable {tag : Tag} {before after : Text}

/-- All tags but those of variables may take their line. -/
theorem ownsLine_iff :
    tag.ownsLine = true ↔ ∀ escaped, tag ≠ .named (.interpolation escaped) := by
  cases tag with
  | named role => cases role <;> simp [ownsLine]
  | _ => simp [ownsLine]

/-- A tag stands alone if it may take its line, there are only blanks between the last line feed and
the tag, and after the tag there are only blanks up to the end of the line. -/
theorem standsAlone_iff_lastLine :
    tag.StandsAlone before after ↔
      tag.ownsLine = true ∧ before.lastLine.Blank ∧
        ∃ trail rest, trail ++ rest = after ∧ Text.ClosesLine trail rest := by
  have hlead : (∃ above lead, above ++ lead = before ∧ Text.Blank lead ∧ above.endsLine = true) ↔
      before.lastLine.Blank := by
    constructor
    · rintro ⟨above, lead, rfl, hblank, habove⟩
      rwa [Text.lastLine_append habove hblank.lineFeed_not_mem]
    · intro hblank
      obtain ⟨above, happend, habove⟩ := before.exists_append_lastLine
      exact ⟨above, before.lastLine, happend, hblank, habove⟩
  rw [StandsAlone, hlead]

/-- After a character that is neither a blank nor a line feed, no tag on the same line stands
alone. -/
theorem not_standsAlone_of_lastLine {passed between : Text} {c : Char}
    (hlast : passed.getLast? = some c) (hc : Text.isSpace c = false) (hfeed : '\n' ∉ between) :
    ¬ tag.StandsAlone (passed ++ between) after := by
  intro halone
  obtain ⟨above, rfl⟩ := List.getLast?_eq_some_iff.1 hlast
  have hline : '\n' ∉ c :: between := by
    rw [List.mem_cons, not_or]
    refine ⟨?_, hfeed⟩
    rintro rfl
    contradiction
  have hblank := (standsAlone_iff_lastLine.1 halone).2.1
  rw [List.append_assoc, List.singleton_append,
    Text.lastLine_append_of_not_mem above hline] at hblank
  have hspace := Text.isSpace_of_isBlank
    (hblank c (List.mem_append_right _ List.mem_cons_self))
  rw [hc] at hspace
  contradiction

end Tag

/-! ## The decision of the lexer -/

/-- The lexer finds the tag of a step alone on its line.  It decides so from the text between the
cursor and the tag, from what it knows of the text before the cursor, and from the text after the
tag. -/
def Cursor.Trims (c : Cursor) (s : Step) : Prop :=
  s.tag.ownsLine = true ∧
    (Margins.standalone? c.lineStart (s.text ++ s.lead) (s.trail ++ s.next.rest)).isSome = true

namespace Cursor

variable {c : Cursor} {s : Step} {source passed before after : Text}

/-- A tag stands at one place only. -/
theorem Between.unique {before' after' : Text} (h : c.Between s source before after)
    (h' : c.Between s source before' after') : before = before' ∧ after = after' := by
  have happend : before ++ (s.lexeme ++ after) = before' ++ (s.lexeme ++ after') := by
    rw [← List.append_assoc, ← List.append_assoc, h.append, h'.append]
  obtain ⟨hbefore, hafter⟩ := Text.append_inj_of_size happend (h.size.trans h'.size.symm)
  exact ⟨hbefore, List.append_cancel_left hafter⟩

/-- Whether a tag is found alone on its line depends on the whole template only. -/
theorem Follows.trims_iff_standsAlone (h : c.Follows source passed) (hs : c.step = .ok (some s))
    (hbetween : c.Between s source before after) :
    c.Trims s ↔ s.tag.StandsAlone before after := by
  obtain ⟨rfl, rfl⟩ := hbetween.unique (h.between hs)
  rw [Trims, h.lineStart, Margins.standsAlone_iff (h.notBlank_of_step hs)]

/-- The step takes the line of its tag.  The text before the tag ends where the line begins, lexing
goes on where the line ends, and an inclusion keeps the blanks before its tag. -/
structure TakesLine (c : Cursor) (s : Step) (before after : Text) : Prop where
  text : ∃ above, above ++ before.lastLine = before ∧ above.endsLine = true ∧
    c.offset + Text.size s.text = Text.size above
  next : ∃ trail, trail ++ s.next.rest = after ∧ Text.ClosesLine trail s.next.rest ∧
    s.next.offset = Text.size (before ++ s.lexeme ++ trail)
  indent : ∀ name nameSpan span indent,
    .tag .inclusion name nameSpan span indent ∈ Token.ofStep c.offset s → indent = before.lastLine

/-- The step takes nothing but its tag.  The text before the tag goes up to the tag, lexing goes on
right behind it, and an inclusion keeps no blanks. -/
structure TakesTag (c : Cursor) (s : Step) (before after : Text) : Prop where
  text : c.offset + Text.size s.text = Text.size before
  next : s.next.rest = after ∧ s.next.offset = Text.size (before ++ s.lexeme)
  indent : ∀ name nameSpan span indent,
    .tag .inclusion name nameSpan span indent ∈ Token.ofStep c.offset s → indent = []

/-- The blanks that an inclusion keeps are those that belong to its tag. -/
theorem Follows.indent_eq_lead (h : c.Follows source passed) (hs : c.step = .ok (some s))
    {name indent : Text} {nameSpan span : Span}
    (ht : .tag .inclusion name nameSpan span indent ∈ Token.ofStep c.offset s) :
    indent = s.lead := by
  have hindent := ((Step.partitions_of_step h hs).tag_of_mem_ofStep ht).2.2.2
  rwa [if_pos rfl] at hindent

/-- After a step the cursor stands behind the tag and what belongs to it. -/
theorem Between.offset_next (h : c.Between s source before after) (hs : c.step = .ok (some s)) :
    s.next.offset = Text.size (before ++ s.lexeme ++ s.trail) := by
  rw [offset_of_step hs, Step.pieces]
  simp only [Text.size_append, h.size]
  omega

/-- If a tag is found alone on its line, the step takes the line. -/
theorem Follows.takesLine (h : c.Follows source passed) (hs : c.step = .ok (some s))
    (htrims : c.Trims s) :
    c.TakesLine s (passed ++ (s.text ++ s.lead)) (s.trail ++ s.next.rest) := by
  have hbetween := h.between hs
  have halone := (h.trims_iff_standsAlone hs hbetween).1 htrims
  rcases h.line_of_step hs with ⟨-, hline, hblank, hcloses⟩ | ⟨hnot, -⟩
  · have hlast : (passed ++ (s.text ++ s.lead)).lastLine = s.lead := by
      rw [← List.append_assoc, Text.lastLine_append hline hblank.lineFeed_not_mem]
    refine ⟨⟨passed ++ s.text, ?_, hline, ?_⟩, ⟨s.trail, rfl, hcloses, hbetween.offset_next hs⟩, ?_⟩
    · rw [hlast, List.append_assoc]
    · rw [Text.size_append, h.offset]
    · intro name nameSpan span indent ht
      rw [hlast, h.indent_eq_lead hs ht]
  · exact absurd halone hnot

/-- If a tag is not found alone on its line, the step takes the tag only. -/
theorem Follows.takesTag (h : c.Follows source passed) (hs : c.step = .ok (some s))
    (htrims : ¬ c.Trims s) :
    c.TakesTag s (passed ++ (s.text ++ s.lead)) (s.trail ++ s.next.rest) := by
  have hbetween := h.between hs
  rcases h.line_of_step hs with ⟨halone, -⟩ | ⟨-, hlead, htrail⟩
  · exact absurd ((h.trims_iff_standsAlone hs hbetween).2 halone) htrims
  · have hoffset := hbetween.offset_next hs
    have hsize := hbetween.size
    rw [htrail, List.append_nil] at hoffset
    refine ⟨?_, ⟨?_, hoffset⟩, ?_⟩
    · rw [hsize, hlead, Text.size_nil, Nat.add_zero]
    · rw [htrail, List.nil_append]
    · intro name nameSpan span indent ht
      rw [h.indent_eq_lead hs ht, hlead]

end Cursor

/-- What happens to the line of a tag depends on this line only.  The tag is found alone exactly if
it is not that of a variable and there is nothing on its line but blanks, from the last line feed up
to the tag and from the tag up to the end of the line.  Then the step takes the line, and otherwise
nothing but the tag.  In particular, no tag that comes later on the line where this one ends is ever
found alone. -/
theorem Cursor.trims_iff {source : Text} {c : Cursor} {s : Step} (hleads : (start source).Leads c)
    (hs : c.step = .ok (some s)) :
    ∃ before after, c.Between s source before after ∧
      (c.Trims s ↔
        (∀ escaped, s.tag ≠ .named (.interpolation escaped)) ∧ before.lastLine.Blank ∧
          ∃ trail rest, trail ++ rest = after ∧ Text.ClosesLine trail rest) ∧
      (c.Trims s → c.TakesLine s before after) ∧
      (¬ c.Trims s → c.TakesTag s before after) ∧
      ∀ d s' between after', (start source).Leads d → d.step = .ok (some s') →
        d.Between s' source (before ++ s.lexeme ++ between) after' → '\n' ∉ between →
          ¬ d.Trims s' := by
  obtain ⟨passed, hfollows⟩ := hleads.exists_follows (follows_start source)
  have hbetween := hfollows.between hs
  refine ⟨_, _, hbetween, ?_, hfollows.takesLine hs, hfollows.takesTag hs, ?_⟩
  · rw [hfollows.trims_iff_standsAlone hs hbetween, Tag.standsAlone_iff_lastLine, Tag.ownsLine_iff]
  · intro d s' between after' hleads' hs' hbetween' hfeed
    obtain ⟨passed', hfollows'⟩ := hleads'.exists_follows (follows_start source)
    obtain ⟨x, hlast, hspace⟩ := Step.exists_getLast?_lexeme hs
    rw [hfollows'.trims_iff_standsAlone hs' hbetween']
    refine Tag.not_standsAlone_of_lastLine ?_ hspace hfeed
    rw [List.getLast?_append, hlast]
    rfl

/-- An inclusion on a line of its own, after which two tags share a line. -/
theorem Cursor.trims_iff_of_inclusion :
    ∃ s, (start "a\n {{>p}}\t\r\n{{#s}}{{/s}}\n".toList).step = .ok (some s) ∧
      s.tag = .named .inclusion ∧
      (start "a\n {{>p}}\t\r\n{{#s}}{{/s}}\n".toList).Trims s ∧
      (start "a\n {{>p}}\t\r\n{{#s}}{{/s}}\n".toList).TakesLine s "a\n ".toList
        "\t\r\n{{#s}}{{/s}}\n".toList := by
  have hs : (start "a\n {{>p}}\t\r\n{{#s}}{{/s}}\n".toList).step =
      .ok (some ⟨['a', '\n'], [' '], .named .inclusion, ['{', '{', '>'], ['p'], ['}', '}'],
        ['\t', '\r', '\n'], ⟨12, "{{#s}}{{/s}}\n".toList, true, .braces⟩⟩) := by cbv
  obtain ⟨before, after, hbetween, hiff, htakes, -⟩ := trims_iff (.refl _) hs
  obtain ⟨rfl, rfl⟩ := hbetween.unique
    (⟨rfl, rfl⟩ : Between _ _ _ "a\n ".toList "\t\r\n{{#s}}{{/s}}\n".toList)
  have hblank {c : Char} (hc : Text.isBlank c = true) : Text.Blank [c] := by
    intro x hx
    rwa [List.mem_singleton.1 hx]
  have hvariable (escaped : Bool) : Tag.named .inclusion ≠ .named (.interpolation escaped) := by
    intro h
    cases h
  have htrims := hiff.2 ⟨hvariable, hblank rfl, "\t\r\n".toList, "{{#s}}{{/s}}\n".toList, rfl,
    .carriageReturn _ (hblank rfl)⟩
  exact ⟨_, hs, rfl, htrims, htakes htrims⟩

end Mustache
