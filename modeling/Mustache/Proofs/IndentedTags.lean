import Mustache.Proofs.Indentation
import Mustache.Proofs.Partition

/-!
# The tags of an indented text

Indenting a text puts blanks in front of its lines, wherever in a tag or between
tags these lines begin.  This file follows two cursors through the two texts.  At
every step they find the same tag with the same name, both are refused a tag for
the same kind of reason, or both come to the end.

Only two things about a tag are different.  Where the tag has its line to itself,
the indentation is part of the blanks before it; and the content of a comment or
of a set-delimiter tag may go over several lines, which then are indented.  Since
the words in the content stay the same, so do the delimiters.

## Main results

* `Tag.read_hang` — reading a tag in a hanging text;
* `Margins.of_hang` — a tag has its line to itself in the one text exactly if it
  does in the other;
* `Cursor.step_shifted` — one step of both cursors;
* `Cursor.tags_shifted` — all their steps.
-/

namespace Mustache

namespace Delimiter

theorem solid (d : Delimiter) : Text.Solid d.text :=
  ⟨d.nonempty, fun c hc => isSpace_eq_false_of_allows (List.all_eq_true.1 d.allowed c hc)⟩

theorem equals_not_mem_text (d : Delimiter) : '=' ∉ d.text := by
  intro hmem
  have := List.all_eq_true.1 d.allowed '=' hmem
  contradiction

theorem solid_equals (d : Delimiter) : Text.Solid ('=' :: d.text) := by
  refine ⟨List.cons_ne_nil _ _, ?_⟩
  intro c hc
  rcases List.mem_cons.1 hc with rfl | hc
  · rfl
  · exact d.solid.2 c hc

end Delimiter

/-! ## Reading a tag -/

namespace Tag

/-- What reading a tag comes to in a text, and in the same text with its lines indented: either
there are faults of the same kind, or the same tag, with the same name if it has one, and the
same text after it up to indentation. -/
inductive Alike (lead : Text) : Except Fault Reading → Except Fault Reading → Prop
  | fault {f f' : Fault} : f'.cause.code = f.cause.code → Alike lead (.error f) (.error f')
  | reading {r r' : Reading} : r'.tag = r.tag →
    (∀ role, r.tag = .named role → r'.body = r.body) → r'.rest = Text.hang lead r.rest →
    Alike lead (.ok r) (.ok r')

variable {lead : Text}

theorem readComment_hang (hlead : Text.Blank lead) (d : Delimiters) (before before' t : Text) :
    Alike lead (readComment d before t) (readComment d before' (Text.hang lead t)) := by
  rw [readComment, readComment, Text.splitAtFirst?_hang d.closing.solid hlead]
  cases Text.splitAtFirst? d.closing.text t with
  | none => exact .fault rfl
  | some found => exact .reading rfl (fun _ h => by cases h) rfl

theorem ofContent?_hung (hlead : Text.Blank lead) (content : Text) :
    Delimiters.ofContent? (Text.hung lead content) = Delimiters.ofContent? content := by
  rw [Delimiters.ofContent?, Delimiters.ofContent?, Text.words_hung hlead]

theorem readDelimiters_hang (hlead : Text.Blank lead) (d : Delimiters) (before before' t : Text) :
    Alike lead (readDelimiters d before t) (readDelimiters d before' (Text.hang lead t)) := by
  simp only [readDelimiters]
  rw [Text.splitAtFirst?_hang d.closing.solid_equals hlead]
  cases Text.splitAtFirst? ('=' :: d.closing.text) t with
  | none => exact .fault rfl
  | some found =>
      obtain ⟨content, rest⟩ := found
      simp only [Option.map_some]
      rw [ofContent?_hung hlead]
      cases Delimiters.ofContent? content with
      | none => exact .fault rfl
      | some next => exact .reading rfl (fun _ h => by cases h) rfl

/-- The text before which a name ends, and the brace that must follow it, hold no line feed. -/
theorem lineFeed_not_mem_stop (d : Delimiters) (braced : Bool) :
    '\n' ∉ (if braced then ['}'] else [] : Text) ∧
      '\n' ∉ (if braced then (if braced then ['}'] else []) else d.closing.text : Text) := by
  cases braced with
  | true =>
      have h : '\n' ∉ ['}'] := by decide
      exact ⟨h, h⟩
  | false => exact ⟨nofun, d.closing.solid.lineFeed_not_mem⟩

theorem readNamed_hang (hlead : Text.Blank lead) (d : Delimiters) (role : Role) (braced : Bool)
    (before before' t : Text) :
    Alike lead (readNamed d role braced before t)
      (readNamed d role braced before' (Text.hang lead t)) := by
  obtain ⟨hbrace, hstop⟩ := lineFeed_not_mem_stop d braced
  simp only [readNamed]
  generalize (if braced then ['}'] else [] : Text) = brace at hbrace hstop ⊢
  generalize (if braced then brace else d.closing.text : Text) = stop at hstop ⊢
  rw [Text.dropWhile_isSpace_hang hlead]
  generalize t.dropWhile Text.isSpace = u
  -- A name ends before space, so the search for its end never gets to the next line.
  rw [Text.breakAt_hang (p := fun r => Text.beginsWithSpace r || stop.isPrefixOf r)
    (fun r => by rw [Text.beginsWithSpace_hang, Text.isPrefixOf_hang hstop]) (fun _ => rfl)]
  cases Text.breakAt (fun r => Text.beginsWithSpace r || stop.isPrefixOf r) u with
  | none => exact .fault rfl
  | some found =>
      obtain ⟨name, r⟩ := found
      cases name with
      | nil => exact .fault rfl
      | cons c name =>
          simp only [Option.map_some]
          rw [Text.dropWhile_isSpace_hang hlead, Text.strip?_hang hbrace]
          cases Text.strip? brace (r.dropWhile Text.isSpace) with
          | none => exact .fault rfl
          | some v =>
              simp only [Option.map_some]
              rw [Text.strip?_hang d.closing.solid.lineFeed_not_mem]
              cases Text.strip? d.closing.text v with
              | none => exact .fault rfl
              | some rest => exact .reading rfl (fun _ _ => rfl) rfl

/-- Reading a tag when no brace follows the opening delimiter. -/
theorem read_of_head?_ne {d : Delimiters} {t : Text} (h : t.head? ≠ some '{') :
    read d t =
      match t.dropWhile Text.isSpace with
      | [] =>
        readNamed d (.interpolation true) false (d.opening.text ++ t.takeWhile Text.isSpace) []
      | c :: r =>
        let before := d.opening.text ++ t.takeWhile Text.isSpace
        if c = '!' then readComment d (before ++ [c]) r
        else if c = '=' then readDelimiters d (before ++ [c]) r
        else match Role.ofSigil? c with
          | some role => readNamed d role false (before ++ [c]) r
          | none => readNamed d (.interpolation true) false before (c :: r) := by
  rw [read.eq_def]
  split
  · exact absurd rfl h
  · rfl

/-- Reading a tag in a hanging text. -/
theorem read_hang (hlead : Text.Blank lead) (d : Delimiters) (t : Text) :
    Alike lead (read d t) (read d (Text.hang lead t)) := by
  by_cases hbrace : t.head? = some '{'
  · obtain ⟨r, rfl⟩ : ∃ r, t = '{' :: r := by
      cases t with
      | nil => cases hbrace
      | cons c r =>
          cases hbrace
          exact ⟨r, rfl⟩
    rw [Text.hang_cons (by decide)]
    exact readNamed_hang hlead d _ true _ _ r
  · have hbrace' : (Text.hang lead t).head? ≠ some '{' := by rwa [Text.head?_hang]
    rw [read_of_head?_ne hbrace, read_of_head?_ne hbrace', Text.dropWhile_isSpace_hang hlead]
    have hspace : ∀ c, (t.dropWhile Text.isSpace).head? = some c → Text.isSpace c = false :=
      fun _ hc => Text.eq_false_of_head?_dropWhile hc
    generalize t.dropWhile Text.isSpace = u at hspace
    cases u with
    | nil => exact readNamed_hang hlead d _ false _ _ []
    | cons c r =>
        have hc : c ≠ '\n' := by
          rintro rfl
          have := hspace '\n' rfl
          contradiction
        rw [Text.hang_cons hc]
        simp only
        by_cases hcomment : c = '!'
        · rw [if_pos hcomment, if_pos hcomment]
          exact readComment_hang hlead d _ _ r
        · rw [if_neg hcomment, if_neg hcomment]
          by_cases hdelimiters : c = '='
          · rw [if_pos hdelimiters, if_pos hdelimiters]
            exact readDelimiters_hang hlead d _ _ r
          · rw [if_neg hdelimiters, if_neg hdelimiters]
            cases Role.ofSigil? c with
            | some role => exact readNamed_hang hlead d role false _ _ r
            | none =>
                have := readNamed_hang hlead d (.interpolation true) false
                  (d.opening.text ++ t.takeWhile Text.isSpace)
                  (d.opening.text ++ (Text.hang lead t).takeWhile Text.isSpace) (c :: r)
                rwa [Text.hang_cons hc] at this

end Tag

/-! ## The line of a tag -/

namespace Margins

variable {lead : Text}

/-- The blanks before a tag are the indentation and the blanks that stood there before.  If the text
before the tag begins a line, the indentation of this line comes before the text. -/
theorem lead?_hung (hlead : Text.Blank lead) (lineStart : Bool) (before : Text) :
    (lead? lineStart ((if lineStart then lead else []) ++ Text.hung lead before)).map Prod.snd =
      (lead? lineStart before).map fun p => lead ++ p.2 := by
  obtain ⟨text, blanks, rfl, hblanks, hlast⟩ := Text.exists_append_blank before
  rw [Text.hung_append, Text.hung_eq_self hblanks.lineFeed_not_mem]
  rcases List.eq_nil_or_concat text with rfl | ⟨above, c, rfl⟩
  · -- All of the text is blank, and so it is with the indentation in front of it.
    rw [Text.hung_nil, List.nil_append, lead?_blank hblanks]
    cases lineStart with
    | true =>
        have hall := lead?_blank (hlead.append hblanks) true
        rw [if_pos rfl, hall]
        rfl
    | false =>
        have hnone := lead?_blank hblanks false
        rw [if_neg Bool.false_ne_true, List.nil_append, hnone]
        rfl
  · rw [List.concat_eq_append] at hlast ⊢
    generalize (if lineStart then lead else [] : Text) = front
    by_cases hc : c = '\n'
    · subst hc
      have happend : front ++ (Text.hung lead (above ++ ['\n']) ++ blanks) =
          (front ++ Text.hung lead above) ++ ['\n'] ++ (lead ++ blanks) := by
        rw [Text.hung_append, Text.hung_lineFeed, Text.hung_nil]
        simp
      rw [happend, lead?_lineFeed (hlead.append hblanks), lead?_lineFeed hblanks]
      rfl
    · have hnot : Text.isBlank c = false := hlast c List.getLast?_concat
      have happend : front ++ (Text.hung lead (above ++ [c]) ++ blanks) =
          (front ++ Text.hung lead above) ++ [c] ++ blanks := by
        rw [Text.hung_append, Text.hung_cons hc, Text.hung_nil]
        simp
      rw [happend, lead?_eq_none hblanks _ _ hnot hc, lead?_eq_none hblanks _ _ hnot hc]
      rfl

/-- The blanks and the line break after a tag stay as they are, and what comes after the line break
is indented. -/
theorem trail?_hang (lead after : Text) :
    trail? (Text.hang lead after) =
      (trail? after).map fun (trail, rest) => (trail, Text.indent lead rest) := by
  have hblank := Text.blank_takeWhile after
  have hhead : ∀ c, (after.dropWhile Text.isBlank).head? = some c → Text.isBlank c = false :=
    fun _ hc => Text.eq_false_of_head?_dropWhile hc
  have hhang := congrArg (Text.hang lead)
    (List.takeWhile_append_dropWhile (p := Text.isBlank) (l := after))
  rw [Text.hang_append_of_not_mem hblank.lineFeed_not_mem] at hhang
  simp only [trail?, ← hhang]
  generalize after.dropWhile Text.isBlank = u at hhead
  obtain ⟨htake, hdrop⟩ := Text.span_append hblank (b := Text.hang lead u)
    (by rwa [Text.head?_hang])
  rw [htake, hdrop]
  generalize after.takeWhile Text.isBlank = blanks
  cases u with
  | nil => rfl
  | cons c r =>
      by_cases hfeed : c = '\n'
      · subst hfeed
        rw [Text.hang_lineFeed]
        rfl
      · rw [Text.hang_cons hfeed]
        by_cases hreturn : c = '\r'
        · subst hreturn
          cases r with
          | nil => rfl
          | cons d r =>
              by_cases hd : d = '\n'
              · subst hd
                rw [Text.hang_lineFeed]
                rfl
              · rw [Text.hang_cons hd]
                simp [hd]
        · simp [hfeed, hreturn]

/-- The margins of a tag, and those of the same tag where the text is indented.  Either the tag has
its line to itself in both texts, and then the indentation is part of the blanks before it, or it
does in neither. -/
inductive Shifted (lead : Text) : Margins → Margins → Prop
  | inline (before before' after : Text) :
    Shifted lead (inline before after) (inline before' (Text.hang lead after))
  | owned (text text' blanks : Text) {trail rest : Text} : Text.ClosesLine trail rest →
    Shifted lead ⟨text, blanks, trail, rest⟩ ⟨text', lead ++ blanks, trail, Text.indent lead rest⟩

/-- A tag has its line to itself in an indented text exactly if it does in the text. -/
theorem of_hang (hlead : Text.Blank lead) (tag : Tag) (lineStart : Bool) (before after : Text) :
    Shifted lead (of tag lineStart before after)
      (of tag lineStart ((if lineStart then lead else []) ++ Text.hung lead before)
        (Text.hang lead after)) := by
  have hl := lead?_hung hlead lineStart before
  have ht := trail?_hang lead after
  generalize (if lineStart then lead else []) ++ Text.hung lead before = before' at hl ⊢
  unfold of
  by_cases howns : tag.ownsLine = true
  · rw [if_pos howns, if_pos howns]
    simp only [standalone?, ht]
    cases hbefore : lead? lineStart before with
    | none =>
        rw [hbefore, Option.map_none, Option.map_eq_none_iff] at hl
        rw [hl]
        exact .inline before before' after
    | some p =>
        obtain ⟨text, blanks⟩ := p
        rw [hbefore, Option.map_some, Option.map_eq_some_iff] at hl
        obtain ⟨⟨text', blanks'⟩, hl, rfl⟩ := hl
        rw [hl]
        cases hafter : trail? after with
        | none => exact .inline before before' after
        | some q =>
            obtain ⟨trail, rest⟩ := q
            exact .owned text text' blanks (trail?_eq_some_iff.1 hafter).2
  · rw [if_neg howns, if_neg howns]
    exact .inline before before' after

end Margins

/-! ## From tag to tag -/

/-- A cursor in a text, and the cursor at the same place in the indented text. -/
structure Cursor.Shifted (lead : Text) (c c' : Cursor) : Prop where
  rest : c'.rest = if c.lineStart then Text.indent lead c.rest else Text.hang lead c.rest
  lineStart : c'.lineStart = c.lineStart
  delimiters : c'.delimiters = c.delimiters

/-- A step in a text, and the step over the same tag in the indented text. -/
structure Step.Shifted (lead : Text) (s s' : Step) : Prop where
  tag : s'.tag = s.tag
  body : ∀ role, s.tag = .named role → s'.body = s.body
  margins : Margins.Shifted lead ⟨s.text, s.lead, s.trail, s.next.rest⟩
    ⟨s'.text, s'.lead, s'.trail, s'.next.rest⟩
  next : s.next.Shifted lead s'.next

/-- What stepping comes to in a text and in the indented text: faults of the same kind, the end, or
steps over the same tag. -/
inductive Step.Alike (lead : Text) :
    Except Error (Option Step) → Except Error (Option Step) → Prop
  | fault {e e' : Error} : e'.cause.code = e.cause.code → Alike lead (.error e) (.error e')
  | atEnd : Alike lead (.ok none) (.ok none)
  | step {s s' : Step} : s.Shifted lead s' → Alike lead (.ok (some s)) (.ok (some s'))

namespace Cursor

variable {lead : Text} {c c' : Cursor}

theorem shifted_start (lead source : Text) :
    (start source).Shifted lead (start (Text.indent lead source)) :=
  ⟨rfl, rfl, rfl⟩

/-- The next tag begins at the same place in the indented text. -/
theorem Shifted.splitAtFirst? (h : c.Shifted lead c') (hlead : Text.Blank lead) {pattern : Text}
    (hp : Text.Solid pattern) :
    Text.splitAtFirst? pattern c'.rest =
      (Text.splitAtFirst? pattern c.rest).map fun (before, t) =>
        ((if c.lineStart then lead else []) ++ Text.hung lead before, Text.hang lead t) := by
  have hhang := Text.splitAtFirst?_hang hp hlead c.rest
  rw [h.rest]
  cases c.lineStart with
  | false => exact hhang
  | true =>
      rw [if_pos rfl, Text.indent_eq]
      by_cases hnil : c.rest = []
      · rw [if_pos hnil, hnil]
        rfl
      · rw [if_neg hnil, Text.splitAtFirst?_append_of_blank hp hlead, hhang, Option.map_map]
        rfl

/-- Stepping over the same tag leads to the same place. -/
theorem Shifted.stepOver (h : c.Shifted lead c') (hlead : Text.Blank lead) (before : Text)
    {r r' : Tag.Reading} (htag : r'.tag = r.tag)
    (hbody : ∀ role, r.tag = .named role → r'.body = r.body)
    (hrest : r'.rest = Text.hang lead r.rest) :
    (c.stepOver before r).Shifted lead
      (c'.stepOver ((if c.lineStart then lead else []) ++ Text.hung lead before) r') := by
  have hmargins := Margins.of_hang hlead r.tag c.lineStart before r.rest
  simp only [Cursor.stepOver, h.lineStart, h.delimiters, htag, hrest]
  generalize Margins.of r.tag c.lineStart before r.rest = m at hmargins ⊢
  generalize Margins.of r.tag c.lineStart
    ((if c.lineStart then lead else []) ++ Text.hung lead before) (Text.hang lead r.rest) = m'
    at hmargins ⊢
  refine ⟨rfl, hbody, hmargins, ?_⟩
  cases hmargins with
  | inline before before' after => exact ⟨rfl, rfl, rfl⟩
  | owned text text' blanks hcloses =>
      refine ⟨?_, rfl, rfl⟩
      rcases hcloses.getLast? with hnil | hfeed
      · subst hnil
        simp
      · simp [hfeed]

/-- One step of both cursors. -/
theorem step_shifted (h : c.Shifted lead c') (hlead : Text.Blank lead) :
    Step.Alike lead c.step c'.step := by
  rw [step, step, h.delimiters, h.splitAtFirst? hlead c.delimiters.opening.solid]
  cases Text.splitAtFirst? c.delimiters.opening.text c.rest with
  | none => exact .atEnd
  | some found =>
      obtain ⟨before, t⟩ := found
      have hread := Tag.read_hang hlead c.delimiters t
      simp only [Option.map_some]
      generalize Tag.read c.delimiters t = result at hread ⊢
      generalize Tag.read c.delimiters (Text.hang lead t) = result' at hread ⊢
      cases hread with
      | fault hcode => exact .fault hcode
      | reading htag hbody hrest => exact .step (h.stepOver hlead before htag hbody hrest)

end Cursor

/-! ## The tags of a text -/

/-- What a tag is for and its name, if the token is a tag. -/
def Token.tag? : Token → Option (Role × Text)
  | .text _ => none
  | .tag role name _ _ _ => some (role, name)

/-- What the tag of the step is for and its name, if it has one. -/
def Step.tag? (s : Step) : Option (Role × Text) :=
  match s.tag with
  | .named role => some (role, s.body)
  | _ => none

namespace Token

theorem filterMap_tag?_ofText (offset : Nat) (t : Text) :
    (ofText offset t).filterMap tag? = [] := by
  rw [ofText_eq]
  split <;> rfl

theorem filterMap_tag?_ofStep (offset : Nat) (s : Step) :
    (ofStep offset s).filterMap tag? = s.tag?.toList := by
  rw [ofStep, List.filterMap_append, filterMap_tag?_ofText, List.nil_append, ofTag, Step.tag?]
  cases s.tag <;> rfl

end Token

theorem Step.Shifted.tag?_eq {lead : Text} {s s' : Step} (h : s.Shifted lead s') :
    s'.tag? = s.tag? := by
  rw [Step.tag?, Step.tag?, h.tag]
  cases htag : s.tag with
  | named role => rw [h.body role htag]
  | comment => rfl
  | delimiters next => rfl

/-- The indented text has the same tags with the same names, and if they end with a fault it is of
the same kind. -/
theorem Cursor.tags_shifted {lead : Text} {c c' : Cursor} (h : c.Shifted lead c')
    (hlead : Text.Blank lead) :
    c'.tokens.1.filterMap Token.tag? = c.tokens.1.filterMap Token.tag? ∧
      c'.tokens.2.map (·.cause.code) = c.tokens.2.map (·.cause.code) := by
  have hstep := step_shifted h hlead
  generalize hc : c.step = result at hstep
  generalize hc' : c'.step = result' at hstep
  cases hstep with
  | fault hcode =>
      rw [tokens_of_step_error hc, tokens_of_step_error hc']
      exact ⟨rfl, congrArg some hcode⟩
  | atEnd =>
      rw [tokens_of_step_none hc, tokens_of_step_none hc', Token.filterMap_tag?_ofText,
        Token.filterMap_tag?_ofText]
      exact ⟨rfl, rfl⟩
  | @step s s' hs =>
      have hdecr : s.next.rest.length < c.rest.length := length_of_step hc
      obtain ⟨htags, hfault⟩ := tags_shifted hs.next hlead
      rw [tokens_of_step_some hc, tokens_of_step_some hc', List.filterMap_append,
        List.filterMap_append, Token.filterMap_tag?_ofStep, Token.filterMap_tag?_ofStep,
        hs.tag?_eq, htags]
      exact ⟨rfl, hfault⟩
termination_by c.rest.length

end Mustache
