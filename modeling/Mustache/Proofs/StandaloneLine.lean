import Mustache.Token

/-!
# Tags that stand alone on their line

Whether a tag takes its line with it is a question about the whole template: is
there anything but blanks between the tag and the line breaks, or the ends of
the template, on both sides?  `Margins.of` answers it from less.  It sees the
text since the tag before, one bit about what comes before that text, and what
comes after.

`Tag.StandsAlone` asks the question of the whole template.  The two agree under
one condition: the template up to the text must not end in a blank, for a blank
there could belong to the line and would not be seen.  That is so between any
two tags, since a delimiter holds no space and a line that was taken ends in a
line feed.

## Main results

* `Margins.lead?_eq_some_iff`, `Margins.trail?_eq_some_iff` — what is cut off on
  either side of a tag, as equations between texts;
* `Margins.standsAlone_iff` — the lexer finds a tag alone exactly if it stands
  alone in the whole template;
* `Margins.of_of_standsAlone`, `Margins.of_of_not_standsAlone` — a tag that
  stands alone takes its line, and any other takes nothing.
-/

namespace Mustache

namespace Text

/-- Whether a line begins where the text ends. -/
def endsLine (t : Text) : Bool :=
  t.getLast?.elim true (· == '\n')

@[simp] theorem endsLine_nil : endsLine [] = true := rfl

theorem endsLine_append (a b : Text) :
    endsLine (a ++ b) = b.getLast?.elim (endsLine a) (· == '\n') := by
  rw [endsLine, endsLine, List.getLast?_append]
  cases b.getLast? <;> rfl

/-- Whether all of a text is blank. -/
def Blank (t : Text) : Prop :=
  ∀ c ∈ t, isBlank c = true

instance (t : Text) : Decidable (Blank t) :=
  decidable_of_iff (t.all isBlank = true) List.all_eq_true

/-- The text `trail` is blank up to the end of its line, and takes the line break with it.
The text `rest` comes after it. -/
inductive ClosesLine : (trail rest : Text) → Prop
  | atEnd {blanks : Text} : Blank blanks → ClosesLine blanks []
  | lineFeed {blanks : Text} (rest : Text) : Blank blanks → ClosesLine (blanks ++ ['\n']) rest
  | carriageReturn {blanks : Text} (rest : Text) :
    Blank blanks → ClosesLine (blanks ++ ['\r', '\n']) rest

theorem Blank.takeWhile_eq {t : Text} (h : Blank t) (r : Text) :
    (t ++ r).takeWhile isBlank = t ++ r.takeWhile isBlank :=
  List.takeWhile_append_of_pos h

theorem Blank.dropWhile_eq {t : Text} (h : Blank t) (r : Text) :
    (t ++ r).dropWhile isBlank = r.dropWhile isBlank :=
  List.dropWhile_append_of_pos h

theorem blank_takeWhile (t : Text) : Blank (t.takeWhile isBlank) :=
  List.all_eq_true.1 List.all_takeWhile

/-- What is left where a run of characters ends does not begin with one of them. -/
theorem eq_false_of_head?_dropWhile {p : Char → Bool} {t : Text} {c : Char}
    (h : (t.dropWhile p).head? = some c) : p c = false := by
  have hnot := List.head?_dropWhile_not p t
  rwa [h] at hnot

/-- A run of characters in front of a text that does not begin with one of them. -/
theorem span_append {p : Char → Bool} {a b : Text} (ha : ∀ c ∈ a, p c = true)
    (hb : ∀ c, b.head? = some c → p c = false) :
    (a ++ b).takeWhile p = a ∧ (a ++ b).dropWhile p = b := by
  have hspan : b.takeWhile p = [] ∧ b.dropWhile p = b := by
    cases b with
    | nil => exact ⟨rfl, rfl⟩
    | cons c r =>
        have hc : ¬ p c = true := by simp [hb c rfl]
        exact ⟨List.takeWhile_cons_of_neg hc, List.dropWhile_cons_of_neg hc⟩
  rw [List.takeWhile_append_of_pos ha, List.dropWhile_append_of_pos ha, hspan.1, hspan.2,
    List.append_nil]
  exact ⟨rfl, rfl⟩

theorem Blank.append {a b : Text} (ha : Blank a) (hb : Blank b) : Blank (a ++ b) :=
  fun c hc => (List.mem_append.1 hc).elim (ha c) (hb c)

theorem Blank.lineFeed_not_mem {t : Text} (h : Blank t) : '\n' ∉ t := by
  intro hmem
  have := h '\n' hmem
  contradiction

/-- Every text is one that does not end in a blank, and blanks. -/
theorem exists_append_blank (t : Text) :
    ∃ text blanks, text ++ blanks = t ∧ Blank blanks ∧
      ∀ c, text.getLast? = some c → isBlank c = false := by
  refine ⟨(t.reverse.dropWhile isBlank).reverse, (t.reverse.takeWhile isBlank).reverse, ?_, ?_, ?_⟩
  · rw [← List.reverse_append, List.takeWhile_append_dropWhile, List.reverse_reverse]
  · intro c hc
    exact blank_takeWhile _ c (List.mem_reverse.1 hc)
  · intro c hc
    rw [List.getLast?_reverse] at hc
    exact eq_false_of_head?_dropWhile hc

end Text

namespace Margins

/-- Of a text and the blanks at its end, the blanks are cut off if the text ends a line. -/
theorem lead?_append {lineStart : Bool} {text blanks : Text} (hblank : Text.Blank blanks)
    (hlast : ∀ c, text.getLast? = some c → Text.isBlank c = false) :
    lead? lineStart (text ++ blanks) =
      if text.getLast?.elim lineStart (· == '\n') then some (text, blanks) else none := by
  have hrev : Text.Blank blanks.reverse := fun c hc => hblank c (List.mem_reverse.1 hc)
  obtain ⟨htake, hdrop⟩ := Text.span_append hrev (b := text.reverse)
    (by rwa [List.head?_reverse])
  simp only [lead?, List.reverse_append, htake, hdrop, List.reverse_reverse]

/-- Where all of the text is blank, it is cut off if it begins a line. -/
theorem lead?_blank {blanks : Text} (hblank : Text.Blank blanks) (lineStart : Bool) :
    lead? lineStart blanks = if lineStart then some ([], blanks) else none := by
  have happend := @lead?_append lineStart [] blanks hblank nofun
  exact happend

/-- Blanks after a line feed are cut off. -/
theorem lead?_lineFeed {blanks : Text} (hblank : Text.Blank blanks) (lineStart : Bool)
    (above : Text) :
    lead? lineStart (above ++ ['\n'] ++ blanks) = some (above ++ ['\n'], blanks) := by
  have hlast : (above ++ ['\n']).getLast? = some '\n' := List.getLast?_concat
  rw [lead?_append hblank, hlast]
  · rfl
  · intro c hc
    rw [hlast] at hc
    cases hc
    rfl

/-- Blanks after any other character are not cut off. -/
theorem lead?_eq_none {blanks : Text} (hblank : Text.Blank blanks) (lineStart : Bool) (above : Text)
    {c : Char} (hc : Text.isBlank c = false) (hfeed : c ≠ '\n') :
    lead? lineStart (above ++ [c] ++ blanks) = none := by
  have hlast : (above ++ [c]).getLast? = some c := List.getLast?_concat
  rw [lead?_append hblank, hlast]
  · simp [hfeed]
  · intro d hd
    rw [hlast] at hd
    cases hd
    exact hc

/-- The blanks before a tag are cut off exactly where a line begins before them. -/
theorem lead?_eq_some_iff {lineStart : Bool} {before text lead : Text} :
    lead? lineStart before = some (text, lead) ↔
      text ++ lead = before ∧ Text.Blank lead ∧
        text.getLast?.elim lineStart (· == '\n') = true := by
  constructor
  · intro h
    refine ⟨append_of_lead? h, ?_⟩
    simp only [lead?, Option.ite_none_right_eq_some, Option.some.injEq, Prod.mk.injEq] at h
    obtain ⟨hline, rfl, rfl⟩ := h
    refine ⟨?_, hline⟩
    intro c hc
    exact Text.blank_takeWhile _ c (List.mem_reverse.1 hc)
  · rintro ⟨rfl, hblank, hline⟩
    rw [lead?_append hblank, if_pos hline]
    intro c hc
    rw [hc] at hline
    have hfeed : c = '\n' := by simpa using hline
    rw [hfeed]
    rfl

/-- The blanks after a tag and the line break are cut off exactly where the line ends. -/
theorem trail?_eq_some_iff {after trail rest : Text} :
    trail? after = some (trail, rest) ↔ trail ++ rest = after ∧ Text.ClosesLine trail rest := by
  constructor
  · intro h
    refine ⟨append_of_trail? h, ?_⟩
    have hblank := Text.blank_takeWhile after
    simp only [trail?] at h
    generalize after.takeWhile Text.isBlank = blanks at h hblank
    split at h
    · cases h
      exact .atEnd hblank
    · cases h
      exact .lineFeed _ hblank
    · cases h
      exact .carriageReturn _ hblank
    · contradiction
  · rintro ⟨rfl, hline⟩
    cases hline with
    | atEnd hblank =>
        have ht := hblank.takeWhile_eq []
        have hd := hblank.dropWhile_eq []
        simp only [List.append_nil, List.takeWhile_nil, List.dropWhile_nil] at ht hd
        simp only [trail?, List.append_nil, ht, hd]
    | lineFeed _ hblank =>
        simp only [trail?, List.append_assoc, hblank.takeWhile_eq, hblank.dropWhile_eq]
        simp [Text.isBlank]
    | carriageReturn _ hblank =>
        simp only [trail?, List.append_assoc, hblank.takeWhile_eq, hblank.dropWhile_eq]
        simp [Text.isBlank]

theorem standalone?_eq_some_iff {lineStart : Bool} {before after : Text} {m : Margins} :
    standalone? lineStart before after = some m ↔
      lead? lineStart before = some (m.text, m.lead) ∧ trail? after = some (m.trail, m.rest) := by
  obtain ⟨text, lead, trail, rest⟩ := m
  simp only [standalone?, Option.bind_eq_bind, Option.bind_eq_some_iff, Option.pure_def,
    Option.some.injEq]
  constructor
  · rintro ⟨⟨t, l⟩, hlead, ⟨t', r⟩, htrail, hm⟩
    cases hm
    exact ⟨hlead, htrail⟩
  · rintro ⟨hlead, htrail⟩
    exact ⟨_, hlead, _, htrail, rfl⟩

/-- A tag that may own a line has the margins that are cut off on either side of it. -/
theorem of_eq_of_ownsLine {tag : Tag} (howns : tag.ownsLine = true) {lineStart : Bool}
    {before after : Text} {m : Margins}
    (hlead : lead? lineStart before = some (m.text, m.lead))
    (htrail : trail? after = some (m.trail, m.rest)) : of tag lineStart before after = m := by
  rw [of, if_pos howns, standalone?_eq_some_iff.2 ⟨hlead, htrail⟩, Option.getD_some]

/-- If the margins of a tag with its line to itself change in some way, and so do those of a tag
inside a line, then the margins of every tag do. -/
theorem of_eq_map {f : Margins → Margins} {lineStart lineStart' : Bool}
    {before before' after after' : Text}
    (hstandalone : standalone? lineStart' before' after' =
      (standalone? lineStart before after).map f)
    (hinline : inline before' after' = f (inline before after)) (tag : Tag) :
    of tag lineStart' before' after' = f (of tag lineStart before after) := by
  unfold of
  by_cases howns : tag.ownsLine = true
  · rw [if_pos howns, if_pos howns, hstandalone, hinline]
    cases standalone? lineStart before after <;> rfl
  · rw [if_neg howns, if_neg howns, hinline]

end Margins

/-- The tag may own a line, and on its line in the text `before` and `after` it there are only
blanks. -/
def Tag.StandsAlone (tag : Tag) (before after : Text) : Prop :=
  tag.ownsLine = true ∧
    (∃ above lead, above ++ lead = before ∧ Text.Blank lead ∧ above.endsLine = true) ∧
    ∃ trail rest, trail ++ rest = after ∧ Text.ClosesLine trail rest

namespace Margins

variable {tag : Tag} {passed before after : Text}

/-- The blanks before a tag that lie in the text since the last tag are all the blanks that there
are on its line, if what comes before that text does not end in a blank. -/
theorem exists_lead?_iff (hpassed : ∀ c, passed.getLast? = some c → Text.isBlank c = false) :
    (∃ text lead, lead? passed.endsLine before = some (text, lead)) ↔
      ∃ above lead, above ++ lead = passed ++ before ∧ Text.Blank lead ∧
        above.endsLine = true := by
  constructor
  · rintro ⟨text, lead, h⟩
    obtain ⟨rfl, hblank, hline⟩ := lead?_eq_some_iff.1 h
    refine ⟨passed ++ text, lead, List.append_assoc .., hblank, ?_⟩
    rw [Text.endsLine_append, hline]
  · rintro ⟨above, lead, happend, hblank, hline⟩
    rcases List.append_eq_append_iff.1 happend with ⟨extra, hpassed', hlead⟩ | ⟨text, rfl, rfl⟩
    · -- The blanks would begin in `passed`; so they begin where it ends.
      have hextra : extra = [] := by
        rcases List.eq_nil_or_concat extra with hnil | ⟨r, c, rfl⟩
        · exact hnil
        · have hlast : passed.getLast? = some c := by simp [hpassed']
          have hc : Text.isBlank c = true := hblank c (by simp [hlead])
          rw [hpassed c hlast] at hc
          contradiction
      subst hextra
      rw [List.append_nil] at hpassed'
      subst hpassed'
      refine ⟨[], before, lead?_eq_some_iff.2 ⟨rfl, ?_, hline⟩⟩
      rw [List.nil_append] at hlead
      exact hlead ▸ hblank
    · refine ⟨text, lead, lead?_eq_some_iff.2 ⟨rfl, hblank, ?_⟩⟩
      rw [← Text.endsLine_append, hline]

/-- Whether a tag has its line to itself is decided from the text since the last tag as it would be
from the whole template. -/
theorem standsAlone_iff (hpassed : ∀ c, passed.getLast? = some c → Text.isBlank c = false) :
    tag.StandsAlone (passed ++ before) after ↔
      tag.ownsLine = true ∧ (standalone? passed.endsLine before after).isSome = true := by
  rw [Tag.StandsAlone, ← exists_lead?_iff hpassed]
  have hsome : (standalone? passed.endsLine before after).isSome = true ↔
      (∃ text lead, lead? passed.endsLine before = some (text, lead)) ∧
        ∃ trail rest, trail? after = some (trail, rest) := by
    rw [Option.isSome_iff_exists]
    constructor
    · rintro ⟨m, hm⟩
      have hm' := standalone?_eq_some_iff.1 hm
      exact ⟨⟨m.text, m.lead, hm'.1⟩, ⟨m.trail, m.rest, hm'.2⟩⟩
    · rintro ⟨⟨text, lead, hlead⟩, trail, rest, htrail⟩
      exact ⟨⟨text, lead, trail, rest⟩, standalone?_eq_some_iff.2 ⟨hlead, htrail⟩⟩
  rw [hsome]
  simp only [trail?_eq_some_iff]

/-- A tag that stands alone takes its line: from the beginning of the line to the end of the line,
and all that it takes but itself and the line break is blank. -/
theorem of_of_standsAlone (hpassed : ∀ c, passed.getLast? = some c → Text.isBlank c = false)
    (h : tag.StandsAlone (passed ++ before) after) :
    Text.endsLine (passed ++ (of tag passed.endsLine before after).text) = true ∧
      Text.Blank (of tag passed.endsLine before after).lead ∧
      Text.ClosesLine (of tag passed.endsLine before after).trail
        (of tag passed.endsLine before after).rest := by
  obtain ⟨howns, hlead, trail, rest, htrail⟩ := h
  obtain ⟨text, lead, hl⟩ := (exists_lead?_iff hpassed).2 hlead
  have hs : standalone? passed.endsLine before after = some ⟨text, lead, trail, rest⟩ :=
    standalone?_eq_some_iff.2 ⟨hl, trail?_eq_some_iff.2 htrail⟩
  rw [of, if_pos howns, hs, Option.getD_some]
  obtain ⟨-, hblank, hline⟩ := lead?_eq_some_iff.1 hl
  refine ⟨?_, hblank, htrail.2⟩
  rw [Text.endsLine_append, hline]

/-- A tag that does not stand alone takes nothing but itself. -/
theorem of_of_not_standsAlone (hpassed : ∀ c, passed.getLast? = some c → Text.isBlank c = false)
    (h : ¬ tag.StandsAlone (passed ++ before) after) :
    of tag passed.endsLine before after = inline before after := by
  unfold of
  split
  · rename_i howns
    cases hs : standalone? passed.endsLine before after with
    | none => rfl
    | some m =>
        obtain ⟨hlead, htrail⟩ := standalone?_eq_some_iff.1 hs
        exact absurd ⟨howns, (exists_lead?_iff hpassed).1 ⟨_, _, hlead⟩, _, _,
          trail?_eq_some_iff.1 htrail⟩ h
  · rfl

end Margins

end Mustache
