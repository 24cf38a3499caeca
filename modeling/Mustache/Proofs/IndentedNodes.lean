import Mustache.Proofs.IndentedTags
import Mustache.Proofs.Outline

/-!
# The nodes of an indented text

When a partial is rendered its text is indented first and parsed afterwards.  The
nodes should be those of the text itself, but for what indentation is about: there
is more of it in literals, and a partial that is included from a line of its own
is pushed further to the right.

What the nodes have in common is their bare outline, which knows neither literals
nor indentations.  It comes from the roles and the names of the tags, and these
are the same by `Cursor.tags_shifted`.  The indentations are compared tag by tag.
For this a tag must be looked at in the whole text, as `Tag.Indented` does: the
same empty indentation in a node may mean that the tag stands at the very beginning
of a line of its own, or that it stands inside a line, and only in the first case
is it indented.

## Main results

* `Cursor.Shifted.lead_of_steps` — the blanks before a tag in the text and in the
  indented text;
* `Node.parse_indent` — the nodes of an indented text.
-/

namespace Mustache

/-! ## The indentation of a tag -/

/-- What a tag that stands between two texts is indented by: the blanks before it if it stands alone
on its line, and nothing at all otherwise. -/
inductive Tag.Indented (tag : Tag) (before after : Text) : Option Text → Prop
  | alone {above blanks : Text} : tag.StandsAlone before after → above ++ blanks = before →
    Text.Blank blanks → above.endsLine = true → Indented tag before after (some blanks)
  | inline : ¬ tag.StandsAlone before after → Indented tag before after none

namespace Margins

variable {lead : Text}

/-- The blanks before a tag that belong to it. -/
theorem lead_of (tag : Tag) (lineStart : Bool) (before after : Text) :
    (of tag lineStart before after).lead =
      if tag.ownsLine then ((standalone? lineStart before after).map Margins.lead).getD []
      else [] := by
  unfold of
  by_cases howns : tag.ownsLine = true
  · rw [if_pos howns, if_pos howns]
    cases standalone? lineStart before after <;> rfl
  · rw [if_neg howns, if_neg howns]
    rfl

/-- The blanks before a tag that has its line to itself, when its text is indented. -/
theorem lead_standalone?_hang (hlead : Text.Blank lead) (lineStart : Bool) (before after : Text) :
    (standalone? lineStart ((if lineStart then lead else []) ++ Text.hung lead before)
        (Text.hang lead after)).map Margins.lead =
      (standalone? lineStart before after).map fun m => lead ++ m.lead := by
  have hbefore := lead?_hung hlead lineStart before
  generalize (if lineStart then lead else []) ++ Text.hung lead before = before' at hbefore ⊢
  simp only [standalone?, trail?_hang]
  cases hl : lead? lineStart before with
  | none =>
      rw [hl, Option.map_none, Option.map_eq_none_iff] at hbefore
      rw [hbefore]
      rfl
  | some p =>
      rw [hl, Option.map_some, Option.map_eq_some_iff] at hbefore
      obtain ⟨p', hl', hblanks⟩ := hbefore
      rw [hl']
      cases trail? after with
      | none => rfl
      | some q => exact congrArg some hblanks

end Margins

namespace Cursor

variable {lead : Text} {c c' : Cursor} {s s' : Step} {source passed : Text}

/-- The blanks before a tag in a text and in the indented text.  If the tag stands alone, the
indentation is added to them; otherwise there are none in either. -/
theorem Shifted.lead_of_steps (h : c.Shifted lead c') (hlead : Text.Blank lead)
    (hfollows : c.Follows source passed) (hs : c.step = .ok (some s))
    (hs' : c'.step = .ok (some s')) :
    (s.tag.StandsAlone (passed ++ (s.text ++ s.lead)) (s.trail ++ s.next.rest) ∧
        s'.lead = lead ++ s.lead) ∨
      (¬ s.tag.StandsAlone (passed ++ (s.text ++ s.lead)) (s.trail ++ s.next.rest) ∧
        s.lead = [] ∧ s'.lead = []) := by
  have hpassed := hfollows.notBlank_of_step hs
  obtain ⟨before, t, r, hfind, hread, rfl⟩ := step_eq_some_iff.1 hs
  obtain ⟨before', t', r', hfind', hread', rfl⟩ := step_eq_some_iff.1 hs'
  rw [h.delimiters, h.splitAtFirst? hlead c.delimiters.opening.solid, hfind, Option.map_some,
    Option.some.injEq, Prod.mk.injEq] at hfind'
  obtain ⟨rfl, rfl⟩ := hfind'
  have halike := Tag.read_hang hlead c.delimiters t
  rw [← h.delimiters, hread', h.delimiters, hread] at halike
  cases halike with
  | reading htag hbody hrest =>
      obtain ⟨hbefore, hafter⟩ := Margins.append_of r.tag c.lineStart before r.rest
      simp only [Cursor.stepOver]
      rw [hbefore, hafter, htag, hrest, h.lineStart, Margins.lead_of, Margins.lead_of,
        Margins.lead_standalone?_hang hlead, Margins.standsAlone_iff hpassed, hfollows.lineStart]
      by_cases howns : r.tag.ownsLine = true
      · rw [if_pos howns, if_pos howns]
        cases Margins.standalone? passed.endsLine before r.rest with
        | none => exact .inr ⟨by simp, rfl, rfl⟩
        | some m => exact .inl ⟨⟨howns, rfl⟩, rfl⟩
      · rw [if_neg howns, if_neg howns]
        exact .inr ⟨fun halone => howns halone.1, rfl, rfl⟩

end Cursor

/-! ## Inclusions -/

/-- The name and the indentation of an inclusion. -/
def Mark.inclusion? : Mark → Option (Text × Text)
  | .inclusion name indent => some (name, indent)
  | _ => none

/-- The names and the indentations of the inclusions in nodes, in document order. -/
def Node.inclusions (nodes : List Node) : List (Text × Text) :=
  (listing nodes).filterMap Mark.inclusion?

/-- The name and the indentation of the inclusion that a step goes over, if it does. -/
def Step.inclusion? (s : Step) : Option (Text × Text) :=
  if s.tag = .named .inclusion then some (s.body, s.lead) else none

/-- The steps over the inclusions of a text. -/
def Text.inclusionSteps (source : Text) : List (Cursor × Step) :=
  (Cursor.start source).steps.filter fun p => p.2.tag = .named .inclusion

/-- The step in the template `source` goes over the tag of a name, which is indented by `own` if it
has a line of its own. -/
def Step.Includes (source : Text) (p : Cursor × Step) (tag : Text × Option Text) : Prop :=
  p.2.body = tag.1 ∧ ∃ before after, before ++ p.2.lexeme ++ after = source ∧
    Text.size before = p.1.offset + Text.size p.2.text + Text.size p.2.lead ∧
    p.2.tag.Indented before after tag.2

namespace Token

theorem filterMap_inclusion?_ofText (offset : Nat) (t : Text) :
    (ofText offset t).filterMap (fun token => token.mark.inclusion?) = [] := by
  rw [ofText_eq]
  split <;> rfl

theorem filterMap_inclusion?_ofStep (offset : Nat) (s : Step) :
    (ofStep offset s).filterMap (fun token => token.mark.inclusion?) = s.inclusion?.toList := by
  rw [ofStep, List.filterMap_append, filterMap_inclusion?_ofText, List.nil_append, ofTag,
    Step.inclusion?]
  cases s.tag with
  | named role => cases role <;> rfl
  | comment => rfl
  | delimiters next => rfl

end Token

namespace Cursor

/-- The inclusions that a step goes over in a text and in the indented text. -/
theorem Shifted.includes_of_steps {lead : Text} {c c' : Cursor} {s s' : Step}
    {source passed : Text} (h : c.Shifted lead c') (hlead : Text.Blank lead)
    (hfollows : c.Follows source passed) (hs : c.step = .ok (some s))
    (hs' : c'.step = .ok (some s')) :
    ∃ own, Step.Includes source (c, s) (s.body, own) ∧ own.getD [] = s.lead ∧
      own.elim [] (lead ++ ·) = s'.lead := by
  obtain ⟨hsource, hsize⟩ := hfollows.between hs
  rcases h.lead_of_steps hlead hfollows hs hs' with ⟨halone, hlead'⟩ | ⟨hinline, hnil, hnil'⟩
  · have hline := (hfollows.line_of_step hs).resolve_right fun hnot => hnot.1 halone
    have hindented : s.tag.Indented (passed ++ (s.text ++ s.lead)) (s.trail ++ s.next.rest)
        (some s.lead) :=
      .alone halone (List.append_assoc ..) hline.2.2.1 hline.2.1
    exact ⟨some s.lead, ⟨rfl, _, _, hsource, hsize, hindented⟩, rfl, hlead'.symm⟩
  · exact ⟨none, ⟨rfl, _, _, hsource, hsize, .inline hinline⟩, hnil.symm, hnil'.symm⟩

/-- The inclusions of a text and of the indented text, from two corresponding places on. -/
theorem Shifted.inclusions {lead : Text} {c c' : Cursor} {source passed : Text}
    (h : c.Shifted lead c') (hlead : Text.Blank lead) (hfollows : c.Follows source passed) :
    ∃ tags : List (Text × Option Text),
      List.Forall₂ (Step.Includes source) (c.steps.filter fun p => p.2.tag = .named .inclusion)
        tags ∧
      c.tokens.1.filterMap (fun token => token.mark.inclusion?) =
        tags.map (fun tag => (tag.1, tag.2.getD [])) ∧
      c'.tokens.1.filterMap (fun token => token.mark.inclusion?) =
        tags.map fun tag => (tag.1, tag.2.elim [] (lead ++ ·)) := by
  have halike := step_shifted h hlead
  generalize hc : c.step = result at halike
  generalize hc' : c'.step = result' at halike
  cases halike with
  | fault hcode =>
      rw [tokens_of_step_error hc, tokens_of_step_error hc', steps_eq_nil (by simp [hc])]
      exact ⟨[], .nil, rfl, rfl⟩
  | atEnd =>
      rw [tokens_of_step_none hc, tokens_of_step_none hc', steps_eq_nil (by simp [hc]),
        Token.filterMap_inclusion?_ofText, Token.filterMap_inclusion?_ofText]
      exact ⟨[], .nil, rfl, rfl⟩
  | @step s s' hs =>
      have hdecr : s.next.rest.length < c.rest.length := length_of_step hc
      obtain ⟨tags, htags, htokens, htokens'⟩ := hs.next.inclusions hlead (hfollows.step hc)
      rw [tokens_of_step_some hc, tokens_of_step_some hc', steps_of_step_some hc,
        List.filterMap_append, List.filterMap_append, Token.filterMap_inclusion?_ofStep,
        Token.filterMap_inclusion?_ofStep, htokens, htokens', Step.inclusion?, Step.inclusion?,
        hs.tag]
      by_cases hinclusion : s.tag = .named .inclusion
      · obtain ⟨own, hincludes, hown, hown'⟩ := h.includes_of_steps hlead hfollows hc hc'
        rw [if_pos hinclusion, if_pos hinclusion, List.filter_cons_of_pos (by simpa using hinclusion),
          hs.body _ hinclusion, ← hown, ← hown']
        exact ⟨(s.body, own) :: tags, .cons hincludes htags, rfl, rfl⟩
      · rw [if_neg hinclusion, if_neg hinclusion,
          List.filter_cons_of_neg (by simpa using hinclusion)]
        exact ⟨tags, htags, rfl, rfl⟩
termination_by c.rest.length

end Cursor

/-! ## Bare outlines -/

/-- The symbol of a tag of which neither the place nor the indentation counts. -/
def Symbol.ofTag (role : Role) (name : Text) : Symbol :=
  match role with
  | .interpolation escaped => .leaf (.interpolation (.ofName name) escaped)
  | .opening kind => .opening kind name
  | .closing => .closing name
  | .inclusion => .leaf (.inclusion name [])

/-- Bare symbols are those of the tags. -/
theorem Token.symbol?_bare (token : Token) :
    token.symbol? .bare = token.tag?.map fun (role, name) => Symbol.ofTag role name := by
  cases token with
  | text span => rfl
  | tag role name nameSpan span indent => cases role <;> rfl

theorem Token.filterMap_symbol?_bare (tokens : List Token) :
    tokens.filterMap (Token.symbol? .bare) =
      (tokens.filterMap Token.tag?).map fun (role, name) => Symbol.ofTag role name := by
  rw [List.map_filterMap]
  congr
  funext token
  exact token.symbol?_bare

namespace Node

variable {lead : Text}

theorem inclusions_of_parse {source : Text} {nodes : List Node} (h : parse source = .ok nodes) :
    inclusions nodes =
      (Cursor.start source).tokens.1.filterMap fun token => token.mark.inclusion? := by
  rw [inclusions, listing_of_parse h, List.filterMap_map]
  rfl

/-- The bare outlines of an indented text are those of the text; and if one of the two cannot be
parsed, neither can the other, for the same kind of reason. -/
theorem bare_parse_indent (hlead : Text.Blank lead) (source : Text) :
    ((parse (Text.indent lead source)).map (outlines .bare)).mapError (fun e => e.cause.code) =
      ((parse source).map (outlines .bare)).mapError fun e => e.cause.code := by
  have hcode (source : Text) :
      ((parse source).map (outlines .bare)).mapError (fun e => e.cause.code) =
        (Draft.start.run ((Cursor.start source).tokens.2.map Error.cause)
          ((Cursor.start source).tokens.1.filterMap (Token.symbol? .bare))).mapError
            Cause.code := by
    rw [← outlines_parse]
    cases parse source <;> rfl
  obtain ⟨htags, hfaults⟩ := Cursor.tags_shifted (Cursor.shifted_start lead source) hlead
  rw [hcode, hcode, Token.filterMap_symbol?_bare, Token.filterMap_symbol?_bare, htags]
  refine Draft.code_run ?_ _ _
  rw [Option.map_map, Option.map_map]
  exact hfaults

/-- Indenting a text by blanks does not change what its tags mean.  It can be parsed exactly if the
text can be, and it fails for the same kind of reason otherwise.  The nodes are the same but for
their literals and the indentations of inclusions: a tag with a line of its own is indented by the
new indentation and by its own, and any other by nothing. -/
theorem parse_indent (hlead : Text.Blank lead) (source : Text) :
    (∃ e e', parse source = .error e ∧ parse (Text.indent lead source) = .error e' ∧
        e'.cause.code = e.cause.code) ∨
      ∃ nodes nodes', parse source = .ok nodes ∧ parse (Text.indent lead source) = .ok nodes' ∧
        outlines .bare nodes' = outlines .bare nodes ∧
        ∃ tags : List (Text × Option Text),
          List.Forall₂ (Step.Includes source) source.inclusionSteps tags ∧
          inclusions nodes = tags.map (fun tag => (tag.1, tag.2.getD [])) ∧
          inclusions nodes' = tags.map fun tag => (tag.1, tag.2.elim [] (lead ++ ·)) := by
  have hbare := bare_parse_indent hlead source
  cases hparse : parse source with
  | error e =>
      cases hparse' : parse (Text.indent lead source) with
      | error e' =>
          rw [hparse, hparse'] at hbare
          exact .inl ⟨e, e', rfl, rfl, Except.error.inj hbare⟩
      | ok nodes' =>
          rw [hparse, hparse'] at hbare
          contradiction
  | ok nodes =>
      cases hparse' : parse (Text.indent lead source) with
      | error e' =>
          rw [hparse, hparse'] at hbare
          contradiction
      | ok nodes' =>
          rw [hparse, hparse'] at hbare
          have hshifted := Cursor.shifted_start lead source
          obtain ⟨tags, htags, htokens, htokens'⟩ :=
            hshifted.inclusions hlead (Cursor.follows_start source)
          rw [← inclusions_of_parse hparse] at htokens
          rw [← inclusions_of_parse hparse'] at htokens'
          exact .inr ⟨nodes, nodes', rfl, rfl, Except.ok.inj hbare, tags, htags, htokens,
            htokens'⟩

/-- An inclusion that is indented, one that begins its line, and one inside a line. -/
theorem parse_indent_of_inclusions :
    Text.Blank ['\t'] ∧ ∃ nodes nodes', parse " {{>p}}\n{{>q}}\nx{{>r}}\n".toList = .ok nodes ∧
      parse (Text.indent ['\t'] " {{>p}}\n{{>q}}\nx{{>r}}\n".toList) = .ok nodes' ∧
      outlines .bare nodes' = outlines .bare nodes ∧
      inclusions nodes = [(['p'], [' ']), (['q'], []), (['r'], [])] ∧
      inclusions nodes' = [(['p'], ['\t', ' ']), (['q'], ['\t']), (['r'], [])] := by
  have hblank : Text.Blank ['\t'] := by simp [Text.Blank, Text.isBlank]
  have hparse : parse " {{>p}}\n{{>q}}\nx{{>r}}\n".toList =
      .ok [.inclusion ['p'] [' '], .inclusion ['q'] [], .literal ⟨15, 1⟩, .inclusion ['r'] [],
        .literal ⟨22, 1⟩] := by cbv
  have hparse' : parse (Text.indent ['\t'] " {{>p}}\n{{>q}}\nx{{>r}}\n".toList) =
      .ok [.inclusion ['p'] ['\t', ' '], .inclusion ['q'] ['\t'], .literal ⟨17, 2⟩,
        .inclusion ['r'] [], .literal ⟨25, 1⟩] := by cbv
  rcases parse_indent hblank " {{>p}}\n{{>q}}\nx{{>r}}\n".toList with
    ⟨e, -, h, -⟩ | ⟨nodes, nodes', h, h', hbare, -⟩
  · rw [hparse] at h
    cases h
  · rw [hparse] at h
    rw [hparse'] at h'
    cases h
    cases h'
    exact ⟨hblank, _, _, hparse, hparse', hbare, rfl, rfl⟩

end Node

end Mustache
