import Mustache.Proofs.Outline
import Mustache.Proofs.Partition
import Mustache.Proofs.TagForm
import Mustache.Proofs.RaisedErrors

/-!
# Other delimiters

What a template means should not depend on the delimiters that it is written
with.  Take a template without set-delimiter tags and two delimiters made of
characters that do not occur in it.  Put the new delimiters in the place of the
old ones around every tag, and a tag in front that sets them: then the template
has the same nodes.

`Cursor.redelimited` is the rest of the template, written with the new
delimiters.  Two cursors go through the two templates in step, and
`Cursor.Redelimited` is what they have in common.  Since the characters of the
new delimiters are fresh, no tag begins before it should and no tag ends before
it should.  Behind a tag the two templates agree up to the next tag, and there
one delimiter is as good as the other: neither ends the line of the tag before.

## Main results

* `Tag.exists_redelimits` — a tag is read as the same tag between other
  delimiters;
* `Margins.of_redelimited` — it stands alone on its line in the one template
  exactly if it does in the other;
* `Cursor.Redelimited.step`, `Cursor.Redelimited.symbols_eq` — one step of both
  cursors, and all of them;
* `Template.compile_redelimited` — the nodes are the same, and so is every
  rendering.
-/

namespace Mustache

/-! ## Fresh delimiters -/

/-- None of the characters of the text occurs in the delimiters. -/
def Delimiters.Fresh (d : Delimiters) (t : Text) : Prop :=
  ∀ c ∈ t, c ∉ d.opening.text ∧ c ∉ d.closing.text

namespace Delimiters

variable {d : Delimiters} {a b : Text}

theorem fresh_append : d.Fresh (a ++ b) ↔ d.Fresh a ∧ d.Fresh b :=
  List.forall_mem_append

end Delimiters

namespace Text

/-- A pattern is found right after a text in which its first character does not occur. -/
theorem splitAtFirst?_of_head? {pattern a : Text} (hp : pattern ≠ [])
    (h : ∀ c ∈ a, pattern.head? ≠ some c) (b : Text) :
    splitAtFirst? pattern (a ++ (pattern ++ b)) = some (a, b) := by
  refine (splitAtFirst?_eq_some_iff hp).2 ⟨rfl, ?_⟩
  intro x y hxy hlt
  exact not_isPrefix_of_head? hp h hxy hlt

/-- A pattern is found right after a text that has none of its characters. -/
theorem splitAtFirst?_of_fresh {pattern a : Text} (hp : pattern ≠ [])
    (h : ∀ c ∈ a, c ∉ pattern) (b : Text) :
    splitAtFirst? pattern (a ++ (pattern ++ b)) = some (a, b) :=
  splitAtFirst?_of_head? hp (fun c hc heq => h c hc (List.mem_of_head? heq)) b

/-- A pattern is not found in a text that has none of its characters. -/
theorem splitAtFirst?_eq_none_of_fresh {pattern t : Text} (hp : pattern ≠ [])
    (h : ∀ c ∈ t, c ∉ pattern) : splitAtFirst? pattern t = none := by
  rw [splitAtFirst?_eq_none_iff hp]
  intro hoccurs
  obtain ⟨c, pattern', rfl⟩ := List.exists_cons_of_ne_nil hp
  exact h c (hoccurs.subset List.mem_cons_self) List.mem_cons_self

/-- A text without space is one word. -/
theorem Solid.words_eq {t : Text} (h : Solid t) : words t = [t] := by
  have hsplit : t.splitOnP isSpace = [t] := by
    refine List.splitOnP_eq_singleton ?_
    intro c hc
    simp [h.2 c hc]
  rw [words, hsplit]
  simp [h.1]

end Text

/-! ## The same tag between other delimiters -/

namespace Tag

variable {d d' : Delimiters} {t : Text} {r : Reading}

/-- A name ends where it ended, if what ends it now has none of its characters at the
beginning. -/
theorem NameForm.of_head? {stop stop' ending space name space' : Text}
    (form : NameForm stop ending t space name space') (hne : stop' ≠ [])
    (hstop : ∀ c ∈ name, stop'.head? ≠ some c) (ending' : Text) :
    NameForm stop' ending' (space ++ (name ++ (space' ++ ending'))) space name space' where
  append := rfl
  spaces := form.spaces
  spaces' := form.spaces'
  nonempty := form.nonempty
  solid := form.solid
  first := by
    intro x y hxy hlt
    exact Text.not_isPrefix_of_head? hne hstop hxy hlt

/-- A name is read between other delimiters as it was. -/
theorem NameForm.readNamed_redelimited {braced : Bool} {ending space name space' : Text}
    (form : NameForm (stop d braced) ending t space name space')
    (hfresh : ∀ c ∈ name, c ∉ d'.closing.text) (role : Role) (before rest : Text) :
    readNamed d' role braced before
        (space ++ (name ++ (space' ++ (brace braced ++ (d'.closing.text ++ rest))))) =
      .ok ⟨.named role, before ++ space, name, space' ++ brace braced ++ d'.closing.text, rest⟩ := by
  have form' : NameForm (stop d' braced) (brace braced ++ (d'.closing.text ++ rest))
      (space ++ (name ++ (space' ++ (brace braced ++ (d'.closing.text ++ rest))))) space name
      space' := by
    cases braced with
    | true =>
        refine form.of_head? (List.cons_ne_nil _ _) ?_ _
        intro c hc heq
        obtain rfl := Option.some.inj heq
        exact form.brace_not_mem hc
    | false =>
        refine form.of_head? d'.closing.nonempty ?_ _
        intro c hc heq
        exact hfresh c hc (List.mem_of_head? heq)
  exact form'.readNamed_eq role before

/-- Between its delimiters the tag that was read has `x`, its body and `y`, and with other
delimiters around these three it is read as the same tag. -/
structure Redelimits (d d' : Delimiters) (r : Reading) (x y : Text) : Prop where
  before : r.before = d.opening.text ++ x
  after : r.after = y ++ d.closing.text
  read_eq (rest : Text) : read d' (x ++ (r.body ++ (y ++ (d'.closing.text ++ rest)))) =
    .ok ⟨r.tag, d'.opening.text ++ x, r.body, y ++ d'.closing.text, rest⟩

/-- A comment is read between other delimiters as it was. -/
theorem redelimits_of_readComment {space : Text} (hspace : Text.Spaces space)
    (h : readComment d (d.opening.text ++ space ++ ['!']) t = .ok r)
    (hfresh : ∀ c ∈ r.body, c ∉ d'.closing.text) : Redelimits d d' r (space ++ ['!']) [] := by
  unfold readComment at h
  split at h
  · cases h
  · rename_i body rest hfind
    cases h
    refine ⟨by simp, rfl, ?_⟩
    intro rest
    have hread : readComment d' (d'.opening.text ++ space ++ ['!'])
        (body ++ (d'.closing.text ++ rest)) =
          .ok ⟨.comment, d'.opening.text ++ space ++ ['!'], body, d'.closing.text, rest⟩ := by
      rw [readComment, Text.splitAtFirst?_of_fresh d'.closing.nonempty hfresh]
    simpa only [List.cons_append, List.append_assoc, List.nil_append] using
      (Form.comment hspace hread).read_eq

/-- A tag that sets no delimiters is read as the same tag between others. -/
theorem exists_redelimits (h : read d t = .ok r) (hfresh : ∀ c ∈ r.body, c ∉ d'.closing.text)
    (htag : ∀ next, r.tag ≠ .delimiters next) : ∃ x y, Redelimits d d' r x y := by
  cases form_of_read h with
  | braced h =>
      obtain ⟨space, space', form, hr⟩ := readNamed_eq_ok_iff.1 h
      refine ⟨'{' :: space, space' ++ brace true, by rw [hr]; simp, by rw [hr], ?_⟩
      intro rest
      have hread := form.readNamed_redelimited hfresh (.interpolation false)
        (d'.opening.text ++ ['{']) rest
      rw [hr]
      simpa only [List.cons_append, List.append_assoc, List.nil_append] using
        (Form.braced hread).read_eq
  | comment hspace h => exact ⟨_, _, redelimits_of_readComment hspace h hfresh⟩
  | delimiters hspace h =>
      simp only [readDelimiters] at h
      split at h
      · cases h
      · split at h
        · cases h
        · rename_i next _
          cases h
          exact absurd rfl (htag next)
  | @sigil space t sigil role _ hspace hrole h =>
      obtain ⟨space₂, space', form, hr⟩ := readNamed_eq_ok_iff.1 h
      refine ⟨space ++ sigil :: space₂, space' ++ brace false, by rw [hr]; simp, by rw [hr], ?_⟩
      intro rest
      have hread := form.readNamed_redelimited hfresh role
        (d'.opening.text ++ space ++ [sigil]) rest
      rw [hr]
      simpa only [List.cons_append, List.append_assoc, List.nil_append] using
        (Form.sigil hspace hrole hread).read_eq
  | @plain space t c _ hspace hc hcomment hdelimiters hnone hbrace h =>
      obtain ⟨space₂, space', form, hr⟩ := readNamed_eq_ok_iff.1 h
      obtain ⟨rfl, name, hname⟩ := form.begins hc
      refine ⟨space, space' ++ brace false, by rw [hr]; simp, by rw [hr], ?_⟩
      intro rest
      have hread := form.readNamed_redelimited hfresh (.interpolation true)
        (d'.opening.text ++ space) rest
      rw [hr]
      rw [hname] at hread ⊢
      rw [List.nil_append, List.cons_append] at hread
      simpa only [List.cons_append, List.append_assoc, List.nil_append, List.append_nil] using
        (Form.plain hspace hc hcomment hdelimiters hnone hbrace hread).read_eq

end Tag

/-! ## A template with other delimiters -/

/-- The pieces of the step with other delimiters around the tag than those in force. -/
def Step.redelimited (d d' : Delimiters) (s : Step) : Text :=
  let opened := s.before.drop d.opening.text.length
  let closed := s.after.take (s.after.length - d.closing.text.length)
  s.text ++ s.lead ++
    (d'.opening.text ++ opened ++ s.body ++ closed ++ d'.closing.text) ++ s.trail

/-- What is left of the template with other delimiters around every tag. -/
def Cursor.redelimited (d : Delimiters) (c : Cursor) : Text :=
  c.steps.flatMap (fun p => p.2.redelimited p.1.delimiters d) ++ c.last.rest

/-- A tag on a line of its own that sets the delimiters. -/
def Delimiters.setting (d : Delimiters) : Text :=
  ['{', '{', '='] ++ d.opening.text ++ [' '] ++ d.closing.text ++ ['=', '}', '}', '\n']

/-- The template with other delimiters around every tag, and a tag in front that sets them. -/
def Text.redelimited (d : Delimiters) (source : Text) : Text :=
  d.setting ++ (Cursor.start source).redelimited d

namespace Cursor

variable {c : Cursor} {s : Step} {d : Delimiters}

theorem redelimited_of_step_some (h : c.step = .ok (some s)) :
    c.redelimited d = s.redelimited c.delimiters d ++ s.next.redelimited d := by
  rw [redelimited, redelimited, steps_of_step_some h, last_of_step_some h, List.flatMap_cons,
    List.append_assoc]

theorem redelimited_eq_rest (h : ∀ s, c.step ≠ .ok (some s)) : c.redelimited d = c.rest := by
  rw [redelimited, steps_eq_nil h, last_eq_self h]
  rfl

/-- Up to the next tag the text is the same, and then the delimiters differ. -/
theorem isPrefix_redelimited_of_step (h : c.step = .ok (some s)) (d : Delimiters) :
    s.text ++ s.lead ++ c.delimiters.opening.text <+: c.rest ∧
      s.text ++ s.lead ++ d.opening.text <+: c.redelimited d := by
  have hopening : c.delimiters.opening.text <+: s.lexeme := by
    obtain ⟨before, t, r, -, hread, rfl⟩ := step_eq_some_iff.1 h
    exact Tag.opening_isPrefix_of_read hread
  constructor
  · rw [← append_of_step h, Step.pieces]
    simp only [List.append_assoc, List.prefix_append_right_inj]
    exact hopening.trans (List.prefix_append _ _)
  · rw [redelimited_of_step_some h, Step.redelimited]
    simp only [List.append_assoc, List.prefix_append_right_inj]
    exact List.prefix_append _ _

end Cursor

/-! ## The line of a tag -/

namespace Margins

/-- Where the line of a tag is over before some character that is no space, it is over whatever
that character is. -/
theorem exists_append_of_trail? {t u trail rest : Text} {c : Char} (hc : Text.isSpace c = false)
    (h : trail? (t ++ c :: u) = some (trail, rest)) :
    ∃ rest', ∀ v, trail? (t ++ v) = some (trail, rest' ++ v) := by
  obtain ⟨happend, hcloses⟩ := trail?_eq_some_iff.1 h
  have hspaces : Text.Spaces trail := by
    intro x hx
    cases hcloses with
    | atEnd hblank => exact Text.isSpace_of_isBlank (hblank x hx)
    | lineFeed _ hblank =>
        rcases List.mem_append.1 hx with hx | hx
        · exact Text.isSpace_of_isBlank (hblank x hx)
        · rw [List.mem_singleton.1 hx]
          rfl
    | carriageReturn _ hblank =>
        rcases List.mem_append.1 hx with hx | hx
        · exact Text.isSpace_of_isBlank (hblank x hx)
        · rcases List.mem_pair.1 hx with rfl | rfl
          · rfl
          · rfl
  obtain ⟨rest', ht, hrest⟩ : ∃ rest', t = trail ++ rest' ∧ rest = rest' ++ c :: u := by
    rcases List.append_eq_append_iff.1 happend with ⟨z, ht, hrest⟩ | ⟨z, htrail, hz⟩
    · exact ⟨z, ht, hrest⟩
    · cases z with
      | nil => exact ⟨[], by simp [htrail], hz.symm⟩
      | cons x z =>
          obtain ⟨rfl, -⟩ := List.cons.inj hz
          have hx := hspaces c (by simp [htrail])
          rw [hc] at hx
          contradiction
  refine ⟨rest', ?_⟩
  intro v
  refine trail?_eq_some_iff.2 ⟨by rw [ht, List.append_assoc], ?_⟩
  cases hcloses with
  | atEnd _ => simp at hrest
  | lineFeed _ hblank => exact .lineFeed _ hblank
  | carriageReturn _ hblank => exact .carriageReturn _ hblank

variable {c : Cursor} {d : Delimiters}

/-- If the line of a tag is not over before the next tag, it is not with other delimiters either. -/
theorem trail?_redelimited (h : trail? c.rest = none) : trail? (c.redelimited d) = none := by
  by_cases hstep : ∃ s, c.step = .ok (some s)
  · obtain ⟨s, hs⟩ := hstep
    obtain ⟨⟨t, ht⟩, t', ht'⟩ := Cursor.isPrefix_redelimited_of_step hs d
    obtain ⟨x, opening, hopening⟩ := List.exists_cons_of_ne_nil d.opening.nonempty
    have hx : Text.isSpace x = false := d.opening.solid.2 x (by simp [hopening])
    rw [hopening, List.append_assoc, List.cons_append] at ht'
    cases htrail : trail? (c.redelimited d) with
    | none => rfl
    | some found =>
        obtain ⟨trail, rest⟩ := found
        rw [← ht'] at htrail
        obtain ⟨rest', hall⟩ := exists_append_of_trail? hx htrail
        rw [← ht, List.append_assoc, hall] at h
        contradiction
  · rw [Cursor.redelimited_eq_rest fun s hs => hstep ⟨s, hs⟩]
    exact h

/-- And if it is over, it still is. -/
theorem closesLine_redelimited {trail rest : Text} (h : Text.ClosesLine trail rest)
    (hrest : c.rest = rest) : Text.ClosesLine trail (c.redelimited d) := by
  cases h with
  | atEnd hblank =>
      have hnone : ∀ s, c.step ≠ .ok (some s) := by
        intro s hs
        have := Cursor.length_of_step hs
        simp [hrest] at this
      rw [Cursor.redelimited_eq_rest hnone, hrest]
      exact .atEnd hblank
  | lineFeed _ hblank => exact .lineFeed _ hblank
  | carriageReturn _ hblank => exact .carriageReturn _ hblank

theorem standalone?_redelimited_eq_none {lineStart : Bool} {before : Text}
    (h : standalone? lineStart before c.rest = none) :
    standalone? lineStart before (c.redelimited d) = none := by
  cases hsome : standalone? lineStart before (c.redelimited d) with
  | none => rfl
  | some m =>
      obtain ⟨hlead, htrail'⟩ := standalone?_eq_some_iff.1 hsome
      cases htrail : trail? c.rest with
      | none =>
          rw [trail?_redelimited htrail] at htrail'
          contradiction
      | some found =>
          have hboth : standalone? lineStart before c.rest =
              some ⟨m.text, m.lead, found.1, found.2⟩ :=
            standalone?_eq_some_iff.2 ⟨hlead, htrail⟩
          rw [h] at hboth
          contradiction

theorem standalone?_redelimited_eq_some {lineStart : Bool} {before after : Text} {m : Margins}
    (h : standalone? lineStart before after = some m) (hrest : c.rest = m.rest) :
    standalone? lineStart before (m.trail ++ c.redelimited d) =
      some { m with rest := c.redelimited d } := by
  obtain ⟨hlead, htrail⟩ := standalone?_eq_some_iff.1 h
  have hcloses := closesLine_redelimited (d := d) (trail?_eq_some_iff.1 htrail).2 hrest
  exact standalone?_eq_some_iff.2 ⟨hlead, trail?_eq_some_iff.2 ⟨rfl, hcloses⟩⟩

/-- A tag stands alone on its line with other delimiters behind it exactly if it did before. -/
theorem of_redelimited {tag : Tag} {lineStart : Bool} {before after : Text}
    (h : c.rest = (of tag lineStart before after).rest) :
    of tag lineStart before ((of tag lineStart before after).trail ++ c.redelimited d) =
      { of tag lineStart before after with rest := c.redelimited d } := by
  unfold of at h ⊢
  by_cases howns : tag.ownsLine = true
  · simp only [if_pos howns] at h ⊢
    cases hm : standalone? lineStart before after with
    | some m =>
        rw [hm] at h
        show (standalone? lineStart before (m.trail ++ c.redelimited d)).getD _ = _
        rw [standalone?_redelimited_eq_some hm h]
        rfl
    | none =>
        rw [hm] at h
        have hafter : c.rest = after := h
        rw [← hafter] at hm
        show (standalone? lineStart before (c.redelimited d)).getD _ = _
        rw [standalone?_redelimited_eq_none hm]
        rfl
  · simp only [if_neg howns]
    rfl

end Margins

/-! ## From tag to tag -/

/-- A cursor in a template, and the cursor at the same place where the template is written with
other delimiters. -/
structure Cursor.Redelimited (d : Delimiters) (c c' : Cursor) : Prop where
  rest : c'.rest = c.redelimited d
  lineStart : c'.lineStart = c.lineStart
  delimiters : c'.delimiters = d

/-- A step in a template, and the step over the same tag between other delimiters. -/
structure Step.Redelimited (d : Delimiters) (s s' : Step) : Prop where
  text : s'.text = s.text
  lead : s'.lead = s.lead
  tag : s'.tag = s.tag
  body : s'.body = s.body
  next : s.next.Redelimited d s'.next

/-- A tag that sets no delimiters leaves those in force that were. -/
theorem Tag.delimitersAfter_eq_self {tag : Tag} (h : ∀ next, tag ≠ .delimiters next)
    (d : Delimiters) : tag.delimitersAfter d = d := by
  cases tag with
  | comment => rfl
  | delimiters next => exact absurd rfl (h next)
  | named role => rfl

/-- The step over a tag is written with the other delimiters where the tag has its own. -/
theorem Tag.Redelimits.redelimited_stepOver {c : Cursor} {d : Delimiters} {r : Tag.Reading}
    {x y : Text} (h : Redelimits c.delimiters d r x y) (before : Text) :
    (c.stepOver before r).redelimited c.delimiters d =
      before ++ (d.opening.text ++ (x ++ (r.body ++ (y ++ (d.closing.text ++
        (c.stepOver before r).trail))))) := by
  have hlead : (c.stepOver before r).text ++ (c.stepOver before r).lead = before :=
    (Margins.append_of r.tag c.lineStart before r.rest).1
  have hbefore : (c.stepOver before r).before = c.delimiters.opening.text ++ x := h.before
  have hafter : (c.stepOver before r).after = y ++ c.delimiters.closing.text := h.after
  have hbody : (c.stepOver before r).body = r.body := rfl
  rw [Step.redelimited, hlead, hbefore, hafter, hbody, List.drop_left, List.length_append,
    Nat.add_sub_cancel, List.take_left]
  simp only [List.append_assoc]

namespace Cursor.Redelimited

variable {d : Delimiters} {c c' : Cursor} {s : Step}

/-- Both cursors step over the same tag. -/
theorem step (h : c.Redelimited d c') (hfresh : d.Fresh c.rest) (hs : c.step = .ok (some s))
    (htag : ∀ next, s.tag ≠ .delimiters next) :
    ∃ s', c'.step = .ok (some s') ∧ s.Redelimited d s' := by
  obtain ⟨hrest', hline, rfl⟩ := h
  obtain ⟨before, t, r, hfind, hread, rfl⟩ := step_eq_some_iff.1 hs
  have hrest := Text.append_of_splitAtFirst? hfind
  rw [← Tag.append_of_read hread, Tag.Reading.lexeme] at hrest
  rw [← hrest] at hfresh
  simp only [Delimiters.fresh_append] at hfresh
  obtain ⟨hbefore, ⟨⟨-, hbody⟩, -⟩, -⟩ := hfresh
  -- Both templates have `before` up to the tag; after it, `after` takes the place of `r.rest`.
  obtain ⟨x, y, hxy⟩ := Tag.exists_redelimits hread (fun x hx => (hbody x hx).2) htag
  let m := Margins.of r.tag c.lineStart before r.rest
  let after := m.trail ++ (c.stepOver before r).next.redelimited c'.delimiters
  have hwritten : c'.rest = before ++ (c'.delimiters.opening.text ++
      (x ++ (r.body ++ (y ++ (c'.delimiters.closing.text ++ after))))) := by
    rw [hrest', redelimited_of_step_some hs, hxy.redelimited_stepOver]
    simp only [List.append_assoc]
    rfl
  have hfind' : Text.splitAtFirst? c'.delimiters.opening.text c'.rest =
      some (before, x ++ (r.body ++ (y ++ (c'.delimiters.closing.text ++ after)))) := by
    rw [hwritten]
    exact Text.splitAtFirst?_of_fresh c'.delimiters.opening.nonempty
      (fun x hx => (hbefore x hx).1) _
  have hm : Margins.of r.tag c'.lineStart before after =
      { m with rest := (c.stepOver before r).next.redelimited c'.delimiters } := by
    rw [hline]
    exact Margins.of_redelimited rfl
  refine ⟨_, step_eq_some_iff.2 ⟨before, _, _, hfind', hxy.read_eq after, rfl⟩, ?_⟩
  simp only [stepOver, hm]
  exact ⟨rfl, rfl, rfl, rfl, rfl, rfl, Tag.delimitersAfter_eq_self htag _⟩

/-- There are no more tags with the other delimiters where there were none. -/
theorem step_eq_none (h : c.Redelimited d c') (hfresh : d.Fresh c.rest) (hs : c.step = .ok none) :
    c'.step = .ok none ∧ c'.rest = c.rest := by
  have hrest : c'.rest = c.rest := by rw [h.rest, redelimited_eq_rest (by simp [hs])]
  have hfind : Text.splitAtFirst? c'.delimiters.opening.text c'.rest = none := by
    rw [hrest, h.delimiters]
    exact Text.splitAtFirst?_eq_none_of_fresh d.opening.nonempty fun x hx => (hfresh x hx).1
  refine ⟨?_, hrest⟩
  rw [Cursor.step, hfind]

end Cursor.Redelimited

/-! ## The symbols of a template -/

namespace Token

/-- The symbol of a text that stands where its span says. -/
theorem filterMap_symbol?_ofText {source t : Text} {offset : Nat}
    (h : Span.Covers ⟨offset, Text.size t⟩ source t) :
    (ofText offset t).filterMap (symbol? (.covered source)) =
      if t = [] then [] else [.leaf (.literal (some t))] := by
  rw [ofText_eq]
  by_cases hnil : t = []
  · rw [if_pos hnil, if_pos hnil]
    rfl
  · rw [if_neg hnil, if_neg hnil]
    simp only [List.filterMap_cons, symbol?, Reading.covered, Span.cut?_eq_some_iff.2 h]
    rfl

/-- The symbol of the tag of a step does not depend on where the step is taken. -/
theorem filterMap_symbol?_ofTag {source source' : Text} {s s' : Step} (htag : s'.tag = s.tag)
    (hbody : s'.body = s.body) (hlead : s'.lead = s.lead) (offset offset' : Nat) :
    (ofTag offset' s').filterMap (symbol? (.covered source')) =
      (ofTag offset s).filterMap (symbol? (.covered source)) := by
  rw [ofTag, ofTag, htag, hbody, hlead]
  cases s.tag with
  | comment => rfl
  | delimiters next => rfl
  | named role => cases role <;> rfl

end Token

/-- The two steps have the same symbols. -/
theorem Step.Redelimited.filterMap_symbol?_eq {d : Delimiters} {s s' : Step}
    {source source' : Text} {offset offset' : Nat} (h : s.Redelimited d s')
    (hcovers : Span.Covers ⟨offset, Text.size s.text⟩ source s.text)
    (hcovers' : Span.Covers ⟨offset', Text.size s'.text⟩ source' s'.text) :
    (Token.ofStep offset' s').filterMap (Token.symbol? (.covered source')) =
      (Token.ofStep offset s).filterMap (Token.symbol? (.covered source)) := by
  rw [Token.ofStep, Token.ofStep, List.filterMap_append, List.filterMap_append,
    Token.filterMap_symbol?_ofText hcovers, Token.filterMap_symbol?_ofText hcovers',
    Token.filterMap_symbol?_ofTag h.tag h.body h.lead, h.text]

namespace Cursor

/-- Written with other delimiters the template has the same symbols, and no fault. -/
theorem Redelimited.symbols_eq {d : Delimiters} {c c' : Cursor} {source source' passed passed' : Text}
    (h : c.Redelimited d c') (hfresh : d.Fresh c.rest)
    (hnone : ∀ p ∈ c.steps, ∀ next, p.2.tag ≠ .delimiters next) (hfault : c.tokens.2 = none)
    (hfollows : c.Follows source passed) (hfollows' : c'.Follows source' passed') :
    c'.tokens.2 = none ∧
      c'.tokens.1.filterMap (Token.symbol? (.covered source')) =
        c.tokens.1.filterMap (Token.symbol? (.covered source)) := by
  -- The cursors step together, so the induction is on what is left of the one template only.
  cases hs : c.step with
  | error e =>
      rw [tokens_of_step_error hs] at hfault
      cases hfault
  | ok next =>
      cases next with
      | none =>
          obtain ⟨hs', hrest⟩ := h.step_eq_none hfresh hs
          have hcovers : Span.Covers ⟨c.offset, Text.size c.rest⟩ source c.rest :=
            hfollows.covers (a := []) (r := []) (by simp)
          have hcovers' : Span.Covers ⟨c'.offset, Text.size c.rest⟩ source' c.rest :=
            hfollows'.covers (a := []) (r := []) (by simp [hrest])
          rw [tokens_of_step_none hs, tokens_of_step_none hs', hrest]
          refine ⟨rfl, ?_⟩
          show (Token.ofText _ _).filterMap _ = (Token.ofText _ _).filterMap _
          rw [Token.filterMap_symbol?_ofText hcovers, Token.filterMap_symbol?_ofText hcovers']
      | some s =>
          have hdecr : s.next.rest.length < c.rest.length := length_of_step hs
          rw [steps_of_step_some hs] at hnone
          obtain ⟨s', hs', hstep⟩ := h.step hfresh hs (hnone _ List.mem_cons_self)
          have hfresh' : d.Fresh s.next.rest := by
            rw [← append_of_step hs, Delimiters.fresh_append] at hfresh
            exact hfresh.2
          rw [tokens_of_step_some hs] at hfault
          obtain ⟨hfault', hsymbols⟩ := hstep.next.symbols_eq hfresh'
            (fun p hp => hnone p (List.mem_cons_of_mem _ hp)) hfault (hfollows.step hs)
            (hfollows'.step hs')
          have hcovers := (Step.partitions_of_step hfollows hs).coversText
          have hcovers' := (Step.partitions_of_step hfollows' hs').coversText
          rw [tokens_of_step_some hs, tokens_of_step_some hs', List.filterMap_append,
            List.filterMap_append, hsymbols, hstep.filterMap_symbol?_eq hcovers hcovers']
          exact ⟨hfault', rfl⟩
termination_by c.rest.length

end Cursor

/-! ## The tag in front -/

namespace Delimiters

/-- The content of a set-delimiter tag stands for the delimiters in it. -/
theorem ofContent?_text (d : Delimiters) :
    ofContent? (d.opening.text ++ ' ' :: d.closing.text) = some d := by
  rw [ofContent?_eq_some_iff, Text.words_append_cons rfl, d.opening.solid.words_eq,
    d.closing.solid.words_eq]
  rfl

/-- No equals sign stands in the content of a set-delimiter tag. -/
theorem equals_not_mem (d : Delimiters) {c : Char}
    (hc : c ∈ d.opening.text ++ ' ' :: d.closing.text) : c ≠ '=' := by
  rintro rfl
  rcases List.mem_append.1 hc with hc | hc
  · exact d.opening.equals_not_mem_text hc
  · rcases List.mem_cons.1 hc with heq | hc
    · contradiction
    · exact d.closing.equals_not_mem_text hc

/-- The tag that sets the delimiters, as it is read. -/
theorem read_setting (d : Delimiters) (rest : Text) :
    Tag.read .braces ('=' :: (d.opening.text ++ ' ' :: d.closing.text ++
        (['=', '}', '}'] ++ rest))) =
      .ok ⟨.delimiters d, ['{', '{', '='], d.opening.text ++ ' ' :: d.closing.text,
        ['=', '}', '}'], rest⟩ := by
  have hread : Tag.readDelimiters .braces ['{', '{', '=']
      (d.opening.text ++ ' ' :: d.closing.text ++ (['=', '}', '}'] ++ rest)) =
        .ok ⟨.delimiters d, ['{', '{', '='], d.opening.text ++ ' ' :: d.closing.text,
          ['=', '}', '}'], rest⟩ := by
    have hfind : Text.splitAtFirst? ['=', '}', '}'] (d.opening.text ++ ' ' :: d.closing.text ++
        (['=', '}', '}'] ++ rest)) = some (d.opening.text ++ ' ' :: d.closing.text, rest) :=
      Text.splitAtFirst?_of_head? (List.cons_ne_nil _ _)
        (fun c hc heq => d.equals_not_mem hc (Option.some.inj heq).symm) rest
    have hstop : '=' :: braces.closing.text = ['=', '}', '}'] := rfl
    simp only [Tag.readDelimiters, hstop, hfind, ofContent?_text]
  have hnil : Text.Spaces [] := by simp [Text.Spaces]
  exact (Tag.Form.delimiters hnil hread).read_eq

/-- The tag in front takes its line, and behind it a line begins with the delimiters in force. -/
theorem step_setting (d : Delimiters) (rest : Text) :
    ∃ s, (Cursor.start (d.setting ++ rest)).step = .ok (some s) ∧ s.text = [] ∧
      s.tag = .delimiters d ∧ s.next.rest = rest ∧ s.next.lineStart = true ∧
      s.next.delimiters = d := by
  have happend : d.setting ++ rest = [] ++ (braces.opening.text ++ ('=' :: (d.opening.text ++
      ' ' :: d.closing.text ++ (['=', '}', '}'] ++ '\n' :: rest)))) := by
    simp [setting, braces]
  have hfind := Text.splitAtFirst?_of_head? (a := []) braces.opening.nonempty (by simp) ('=' ::
    (d.opening.text ++ ' ' :: d.closing.text ++ (['=', '}', '}'] ++ '\n' :: rest)))
  rw [← happend] at hfind
  exact ⟨_, Cursor.step_eq_some_iff.2 ⟨_, _, _, hfind, d.read_setting _, rfl⟩, rfl, rfl, rfl, rfl,
    rfl⟩

end Delimiters

/-- From the beginning on the template has the same symbols when it is written with other
delimiters: the tag in front has none. -/
theorem Cursor.symbols_redelimited {source : Text} {d : Delimiters} (hfresh : d.Fresh source)
    (hnone : ∀ p ∈ (start source).steps, ∀ next, p.2.tag ≠ .delimiters next)
    (hfault : (start source).tokens.2 = none) :
    (start (Text.redelimited d source)).tokens.2 = none ∧
      (start (Text.redelimited d source)).tokens.1.filterMap
          (Token.symbol? (.covered (Text.redelimited d source))) =
        (start source).tokens.1.filterMap (Token.symbol? (.covered source)) := by
  obtain ⟨s, hs, htext, htag, hrest, hline, hdelimiters⟩ :=
    d.step_setting ((start source).redelimited d)
  have hstep : (start (Text.redelimited d source)).step = .ok (some s) := hs
  have hnil : Token.ofStep (start (Text.redelimited d source)).offset s = [] := by
    rw [Token.ofStep, Token.ofTag, htext, htag]
    rfl
  rw [tokens_of_step_some hstep, hnil, List.nil_append]
  have hredelimited : (start source).Redelimited d s.next := ⟨hrest, hline, hdelimiters⟩
  exact hredelimited.symbols_eq hfresh hnone hfault (follows_start source)
    ((follows_start _).step hstep)

/-! ## Templates -/

/-- Written with other delimiters the template has the same nodes. -/
theorem Node.parse_redelimited {source : Text} {nodes : List Node} {d : Delimiters}
    (hparse : parse source = .ok nodes) (hfresh : d.Fresh source)
    (hnone : ∀ p ∈ (Cursor.start source).steps, ∀ next, p.2.tag ≠ .delimiters next) :
    ∃ nodes', parse (Text.redelimited d source) = .ok nodes' ∧
      outlines (.covered (Text.redelimited d source)) nodes' =
        outlines (.covered source) nodes := by
  have hfault : (Cursor.start source).tokens.2 = none := (parse_eq_ok_iff.1 hparse).1
  obtain ⟨hfault', hsymbols⟩ := Cursor.symbols_redelimited hfresh hnone hfault
  have houtlines := outlines_parse (.covered (Text.redelimited d source))
    (Text.redelimited d source)
  rw [hfault', hsymbols, ← hfault, ← outlines_parse, hparse] at houtlines
  cases hparse' : parse (Text.redelimited d source) with
  | error e =>
      rw [hparse'] at houtlines
      cases houtlines
  | ok nodes' =>
      rw [hparse'] at houtlines
      exact ⟨nodes', rfl, Except.ok.inj houtlines⟩

/-- Delimiters do not matter.  Let the template set no delimiters, and let no character of it occur
in the delimiters `d`.  Written with `d` it is a template again, with the same nodes: the same tags,
and literals that cover the same texts.  So it is rendered alike. -/
theorem Template.compile_redelimited (t : Template) {d : Delimiters} (hfresh : d.Fresh t.source)
    (hnone : ∀ p ∈ (Cursor.start t.source).steps, ∀ next, p.2.tag ≠ .delimiters next) :
    ∃ t', compile (Text.redelimited d t.source) = .ok t' ∧
      Node.outlines (.covered t'.source) t'.nodes = Node.outlines (.covered t.source) t.nodes ∧
      ∀ {τ : Type} [Partials τ] {σ : Type} [Sink σ] (partials : τ) (options : Options) (v : Value),
        (t'.renderTo partials options v : RenderM σ Unit) = t.renderTo partials options v := by
  obtain ⟨nodes', hparse, houtlines⟩ := Node.parse_redelimited t.parsed hfresh hnone
  refine ⟨⟨Text.redelimited d t.source, nodes', hparse⟩, compile_eq_ok_iff.2 rfl, houtlines, ?_⟩
  intro τ _ σ _ partials options v
  rw [renderTo_eq, renderTo_eq]
  exact Node.renderNodes_eq_of_outlines_eq _ _ _ houtlines

/-- A section on lines of its own, a name in braces and a comment. -/
theorem Template.compile_redelimited_of_section :
    ∃ (d : Delimiters) (t : Template), d.opening.text = ['<', '%'] ∧ d.closing.text = ['%', '>'] ∧
      t.source = " {{#s}}\n{{{x}}}{{!c}}\n{{/s}}".toList ∧ d.Fresh t.source ∧
      (∀ p ∈ (Cursor.start t.source).steps, ∀ next, p.2.tag ≠ .delimiters next) ∧
      Text.redelimited d t.source =
        "{{=<% %>=}}\n <%#s%>\n<%{x}%><%!c%>\n<%/s%>".toList ∧
      ∃ t', compile (Text.redelimited d t.source) = .ok t' ∧
        Node.outlines (.covered t'.source) t'.nodes = Node.outlines (.covered t.source) t.nodes ∧
        (t'.renderTo NoPartials.mk {} .null : RenderM TextSink Unit) =
          t.renderTo NoPartials.mk {} .null := by
  let d : Delimiters :=
    ⟨⟨['<', '%'], by decide, by decide⟩, ⟨['%', '>'], by decide, by decide⟩⟩
  let t : Template := ⟨" {{#s}}\n{{{x}}}{{!c}}\n{{/s}}".toList,
    [.block .normal ⟨['s'], []⟩ [.interpolation ⟨['x'], []⟩ false, .literal ⟨21, 1⟩]], by cbv⟩
  have hfresh : d.Fresh t.source := by
    unfold Delimiters.Fresh
    simp [d, t]
  have htags : (Cursor.start t.source).steps.map (fun p => p.2.tag) =
      [.named (.opening .normal), .named (.interpolation false), .comment, .named .closing] := by
    cbv
  have hnone : ∀ p ∈ (Cursor.start t.source).steps, ∀ next, p.2.tag ≠ .delimiters next := by
    intro p hp next htag
    have hmem := List.mem_map_of_mem (f := fun p => p.2.tag) hp
    rw [htags, htag] at hmem
    simp at hmem
  have hredelimited : Text.redelimited d t.source =
      "{{=<% %>=}}\n <%#s%>\n<%{x}%><%!c%>\n<%/s%>".toList := by cbv
  obtain ⟨t', hcompile, houtlines, hrender⟩ := compile_redelimited t hfresh hnone
  exact ⟨d, t, rfl, rfl, rfl, hfresh, hnone, hredelimited, t', hcompile, houtlines,
    hrender NoPartials.mk {} .null⟩

end Mustache
