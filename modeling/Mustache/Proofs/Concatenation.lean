import Mustache.Proofs.Extension
import Mustache.Proofs.Places
import Mustache.Proofs.Relocation

/-!
# Templates one after the other

A template that ends with a line can be put in front of another one.  If it
leaves the usual delimiters in force, the two mean together what they mean one
after the other: they render as the one and then the other, and if the second is
malformed, so is the whole, for the same reason and at the same place.

Up to its last tag the first template is lexed as if it were alone.  The seam is
what comes next: the text after that tag and the second template.  A cursor that
`Ends` the first template finds there what a cursor at the beginning of the second
one finds.  The text after the last tag ends with a line, so a tag stands alone on
its line there if and only if it does in the second template.  It only happens to
be joined with the text before the first tag of the second template, so that the
nodes have one literal where there were two.  `Node.Joined` says so.

The seam itself is the same with any delimiters in force and with any sections
open.  Only a text that is to be a template by itself needs the usual delimiters.

## Main results

* `Cursor.Ends.step_extend` — the step across the seam;
* `Node.parse_append` — parsing the two texts as one;
* `Node.Joined.renderNodes` — joined nodes are rendered as the nodes of the one
  and then the nodes of the other;
* `Template.renderTo_joined` — so are templates, into any lawful sink;
* `Template.compile_append` — a text behind a template is compiled and rendered as
  if it stood alone, after the template.
-/

namespace Mustache

/-! ## Whole lines in front of a tag -/

namespace Margins

/-- The margins with more text before them. -/
def behind (above : Text) (m : Margins) : Margins :=
  { m with text := above ++ m.text }

variable {lineStart : Bool} {above : Text}

/-- Behind whole lines the blanks before a tag are cut off just as at the beginning of a text. -/
theorem lead?_append_left (h : above.getLast?.elim lineStart (· == '\n') = true) (before : Text) :
    lead? lineStart (above ++ before) =
      (lead? true before).map fun (text, lead) => (above ++ text, lead) := by
  obtain ⟨text, blanks, rfl, hblank, hlast⟩ := Text.exists_append_blank before
  cases htext : text.getLast? with
  | some c =>
      have habove : ∀ x, (above ++ text).getLast? = some x → Text.isBlank x = false := by
        intro x hx
        rw [List.getLast?_append, htext] at hx
        cases hx
        exact hlast c htext
      rw [lead?_append hblank hlast, ← List.append_assoc, lead?_append hblank habove,
        List.getLast?_append, htext]
      by_cases hfeed : c = '\n'
      · simp [hfeed]
      · simp [hfeed]
  | none =>
      obtain rfl := List.getLast?_eq_none_iff.1 htext
      have habove : ∀ x, above.getLast? = some x → Text.isBlank x = false := by
        intro x hx
        rw [hx] at h
        have hfeed : x = '\n' := by simpa using h
        rw [hfeed]
        rfl
      rw [List.nil_append, lead?_append hblank habove, if_pos h, lead?_blank hblank]
      simp

/-- Behind whole lines a tag stands alone on its line just as at the beginning of a text. -/
theorem of_append_left (h : above.getLast?.elim lineStart (· == '\n') = true) (tag : Tag)
    (before after : Text) :
    of tag lineStart (above ++ before) after = (of tag true before after).behind above := by
  refine of_eq_map ?_ rfl tag
  simp only [standalone?, lead?_append_left h]
  cases lead? true before with
  | none => rfl
  | some found => cases trail? after <;> rfl

end Margins

/-! ## The seam -/

/-- The step, so many bytes further on and with more text before the tag. -/
def Step.behind (above : Text) (n : Nat) (s : Step) : Step :=
  { s.shift n with text := above ++ s.text }

/-- No tag comes after the cursor in the template `source`, and the template ends with a line. -/
structure Cursor.Ends (c : Cursor) (source : Text) : Prop where
  atEnd : c.step = .ok none
  covers : ∃ passed, passed ++ c.rest = source ∧ c.offset = Text.size passed
  line : c.rest.getLast?.elim c.lineStart (· == '\n') = true

/-- The place where a text begins that is read with the delimiters `d`. -/
def Cursor.startWith (d : Delimiters) (source : Text) : Cursor :=
  ⟨0, source, true, d⟩

namespace Cursor

variable {c : Cursor} {source : Text}

/-- The last cursor of a template that ends with a line ends it. -/
theorem ends_last (hstep : (start source).last.step = .ok none) (hline : source.endsLine = true) :
    (start source).last.Ends source := by
  have hlast := (follows_start source).run.2
  refine ⟨hstep, ⟨_, hlast.append, hlast.offset⟩, ?_⟩
  rw [hlast.lineStart, ← Text.endsLine_append, hlast.append]
  exact hline

namespace Ends

theorem endsLine (h : c.Ends source) : c.rest.endsLine = true := by
  have hline := h.line
  rw [Text.endsLine]
  cases hlast : c.rest.getLast? with
  | none => rfl
  | some x => rwa [hlast] at hline

theorem size_eq (h : c.Ends source) : Text.size source = c.offset + Text.size c.rest := by
  obtain ⟨passed, happend, hoffset⟩ := h.covers
  rw [← happend, Text.size_append, hoffset]

/-- No delimiter is left in the text after the last tag. -/
theorem splitAtFirst?_eq_none (h : c.Ends source) :
    Text.splitAtFirst? c.delimiters.opening.text c.rest = none := by
  have hstep := h.atEnd
  unfold Cursor.step at hstep
  split at hstep
  · assumption
  · split at hstep <;> cases hstep

theorem stepOver_extend (h : c.Ends source) (b before : Text) (r : Tag.Reading) :
    (c.extend b).stepOver (c.rest ++ before) r =
      ((startWith c.delimiters b).stepOver before r).behind c.rest (Text.size source) := by
  have hmargins := Margins.of_append_left h.line r.tag before r.rest
  simp only [stepOver, extend, hmargins, h.size_eq, Text.size_append]
  simp only [Step.behind, Step.shift, shift, startWith, Margins.behind, Nat.zero_add,
    Nat.add_assoc]

/-- The step across the seam goes over the first tag of the text behind it. -/
theorem step_extend (h : c.Ends source) (b : Text) :
    (c.extend b).step =
      ((startWith c.delimiters b).step.map
        (Option.map (Step.behind c.rest (Text.size source)))).mapError
          (Error.shift (Text.size source)) := by
  have hfind := Text.splitAtFirst?_append_of_none c.delimiters.opening.solid h.endsLine
    h.splitAtFirst?_eq_none b
  have hrest : (c.extend b).rest = c.rest ++ b := rfl
  have hdelimiters : (c.extend b).delimiters = c.delimiters := rfl
  have hrest' : (startWith c.delimiters b).rest = b := rfl
  have hdelimiters' : (startWith c.delimiters b).delimiters = c.delimiters := rfl
  rw [Cursor.step, Cursor.step, hdelimiters, hrest, hdelimiters', hrest', hfind]
  cases Text.splitAtFirst? c.delimiters.opening.text b with
  | none => rfl
  | some found =>
      obtain ⟨before, t⟩ := found
      simp only [Option.map_some]
      cases Tag.read c.delimiters t with
      | ok r =>
          simp only [h.stepOver_extend]
          rfl
      | error fault =>
          simp only [Except.map, Except.mapError, Error.shift, Error.located, Option.map_some,
            Span.shift, extend, startWith, h.size_eq, Text.size_append, Nat.add_assoc,
            Nat.zero_add]

end Ends

end Cursor

/-! ## Parsing across the seam -/

namespace Builder

theorem foldlM_ofText (b : Builder) (offset : Nat) (t : Text) :
    (Token.ofText offset t).foldlM step b = .ok ⟨b.levels, b.nodes ++ Node.literals offset t⟩ := by
  rw [Token.ofText_eq, Node.literals]
  by_cases h : t = []
  · rw [if_pos h, if_pos h, List.append_nil]
    rfl
  · rw [if_neg h, if_neg h]
    rfl

/-- A run goes on where the machine is after the first tokens, if it gets there. -/
theorem run_append_eq_bind (fault : Option Error) (b : Builder) (tokens more : List Token) :
    b.run fault (tokens ++ more) =
      (tokens.foldlM step b).bind fun b' => b'.run fault more := by
  rw [run, List.foldlM_append]
  cases tokens.foldlM step b <;> rfl

theorem run_append {b b' : Builder} {tokens : List Token} (h : tokens.foldlM step b = .ok b')
    (fault : Option Error) (more : List Token) :
    b.run fault (tokens ++ more) = b'.run fault more := by
  rw [run_append_eq_bind, h]
  rfl

/-- Nodes that are there already stay in front of those that come. -/
theorem run_mk_nil (fault : Option Error) (nodes : List Node) (tokens : List Token) :
    run fault ⟨[], nodes⟩ tokens = (start.run fault tokens).map (nodes ++ ·) := by
  rw [run_eq_level, run_eq_level]
  show (Node.level fault [] tokens).bind _ = ((Node.level fault [] tokens).bind _).map _
  cases Node.level fault [] tokens <;> rfl

end Builder

/-- Behind the template the text `b` has the tokens that it has by itself, except that its first
text is joined with what is left of the template.  So the machine goes on from any state as if it had
got the literal of the joined text. -/
theorem Cursor.Ends.exists_run {c : Cursor} {source : Text} (h : c.Ends source) (b : Text) :
    ∃ text rest more fault, text ++ rest = b ∧
      (startWith c.delimiters b).tokens = (Token.ofText 0 text ++ more, fault) ∧
      ∀ levels nodes,
        Builder.run (c.extend b).tokens.2 ⟨levels, nodes⟩ (c.extend b).tokens.1 =
          Builder.run (fault.map (Error.shift (Text.size source)))
            ⟨levels, nodes ++ Node.literals c.offset (c.rest ++ text)⟩
            (more.map (Token.shift (Text.size source))) := by
  have hstep := h.step_extend b
  cases hs : (startWith c.delimiters b).step with
  | error e =>
      rw [hs] at hstep
      refine ⟨[], b, [], some e, rfl, tokens_of_step_error hs, ?_⟩
      intro levels nodes
      rw [tokens_of_step_error hstep]
      rfl
  | ok next =>
      rw [hs] at hstep
      cases next with
      | none =>
          refine ⟨b, [], [], none, List.append_nil b, ?_, ?_⟩
          · rw [tokens_of_step_none hs, List.append_nil]
            rfl
          · intro levels nodes
            have hrun := Builder.run_append
              (Builder.foldlM_ofText ⟨levels, nodes⟩ c.offset (c.rest ++ b)) none []
            rw [List.append_nil] at hrun
            rw [tokens_of_step_none hstep]
            exact hrun
      | some s =>
          -- Only the text before this tag is joined with what is left of the template; its token
          -- and all that come later are those of `b`, further on.
          let tag := Token.ofTag (0 + Text.size s.text + Text.size s.lead) s
          refine ⟨s.text, s.lead ++ s.lexeme ++ s.trail ++ s.next.rest, tag ++ s.next.tokens.1,
            s.next.tokens.2, ?_, ?_, ?_⟩
          · have happend : s.pieces ++ s.next.rest = b := append_of_step hs
            simpa [Step.pieces] using happend
          · rw [tokens_of_step_some hs, Token.ofStep, List.append_assoc]
            rfl
          · intro levels nodes
            have htag : Token.ofTag
                (c.offset + Text.size (c.rest ++ s.text) + Text.size s.lead)
                (s.behind c.rest (Text.size source)) = tag.map (Token.shift (Text.size source)) := by
              rw [← Token.ofTag_shift, h.size_eq, Text.size_append]
              simp only [Nat.zero_add, Nat.add_assoc]
              rfl
            have hnext : (s.behind c.rest (Text.size source)).next.tokens =
                (s.next.tokens.1.map (Token.shift (Text.size source)),
                  s.next.tokens.2.map (Error.shift (Text.size source))) :=
              tokens_shift _ s.next
            rw [tokens_of_step_some hstep, hnext, Token.ofStep, List.append_assoc,
              List.map_append, ← htag]
            exact Builder.run_append (Builder.foldlM_ofText _ _ _) _ _

namespace Node

/-- The nodes of the text `a`, of the text `b`, and of both in one.  Where the one ends and the other
begins there may be a literal in each, and in both together these are one. -/
inductive Joined (a b : Text) : (nodes nodes' joined : List Node) → Prop
  | mk (pre more : List Node) {passed above text rest : Text} :
    passed ++ above = a → text ++ rest = b →
    Joined a b (pre ++ literals (Text.size passed) above) (literals 0 text ++ more)
      (pre ++ literals (Text.size passed) (above ++ text) ++ shiftAll (Text.size a) more)

/-- The nodes of a template are those up to its last tag and the literal of the text after it. -/
theorem exists_literals_of_parse {source : Text} {nodes : List Node}
    (hparse : parse source = .ok nodes) :
    ∃ pre, ((Cursor.start source).steps.flatMap fun p => Token.ofStep p.1.offset p.2).foldlM
        Builder.step Builder.start = .ok ⟨[], pre⟩ ∧
      pre ++ literals (Cursor.start source).last.offset (Cursor.start source).last.rest =
        nodes := by
  obtain ⟨hfault, hfold⟩ := parse_eq_ok_iff.1 hparse
  rw [(Cursor.tokens_eq_of_snd_eq_none hfault).2, List.foldlM_append] at hfold
  cases hbuilt : ((Cursor.start source).steps.flatMap fun p =>
      Token.ofStep p.1.offset p.2).foldlM Builder.step Builder.start with
  | error e =>
      rw [hbuilt] at hfold
      cases hfold
  | ok built =>
      rw [hbuilt] at hfold
      have hlast := (Builder.foldlM_ofText built _ _).symm.trans hfold
      obtain ⟨levels, pre⟩ := built
      cases hlast
      exact ⟨pre, rfl, rfl⟩

/-- A template that ends with a line and leaves the usual delimiters in force, and behind it a
second one: this is malformed if the second one is, for the same reason and at the same place, and
otherwise it has the nodes of both. -/
theorem parse_append {a : Text} {nodes : List Node} (hparse : parse a = .ok nodes)
    (hline : a.endsLine = true) (hdelimiters : (Cursor.start a).last.delimiters = .braces)
    (b : Text) :
    (∃ cause span, parse b = .error ⟨cause, some span, some b⟩ ∧
        parse (a ++ b) = .error ⟨cause, some (span.shift (Text.size a)), some (a ++ b)⟩) ∨
      ∃ nodes' joined, parse b = .ok nodes' ∧ parse (a ++ b) = .ok joined ∧
        Joined a b nodes nodes' joined := by
  have hlast := (Cursor.tokens_eq_of_snd_eq_none (parse_eq_ok_iff.1 hparse).1).1
  have hends := Cursor.ends_last hlast hline
  obtain ⟨passed, happend, hoffset⟩ := hends.covers
  obtain ⟨text, rest, more, fault, htext, hstart, hrun⟩ := hends.exists_run b
  rw [hdelimiters] at hstart
  obtain ⟨pre, hpre, rfl⟩ := exists_literals_of_parse hparse
  -- Both runs go on with the tokens `more`, so they end alike.
  have hboth : Builder.start.run (Cursor.start (a ++ b)).tokens.2
      (Cursor.start (a ++ b)).tokens.1 =
        (((Builder.start.run fault more).map (shiftAll (Text.size a))).mapError
          (Error.shift (Text.size a))).map
            ((pre ++ literals (Text.size passed) ((Cursor.start a).last.rest ++ text)) ++ ·) := by
    show Builder.start.run ((Cursor.start a).extend b).tokens.2
      ((Cursor.start a).extend b).tokens.1 = _
    rw [Cursor.tokens_extend (c := Cursor.start a) hline b, Builder.run_append hpre, hrun,
      Builder.run_mk_nil, ← hoffset, ← Builder.run_shift, Builder.shift_start]
  have hsecond : Builder.start.run (Cursor.start b).tokens.2 (Cursor.start b).tokens.1 =
      (Builder.start.run fault more).map (literals 0 text ++ ·) := by
    show Builder.start.run (Cursor.startWith .braces b).tokens.2
      (Cursor.startWith .braces b).tokens.1 = _
    rw [hstart, Builder.run_append (Builder.foldlM_ofText _ _ _), ← Builder.run_mk_nil]
    rfl
  rw [parse_eq_mapError_run, parse_eq_mapError_run, hboth, hsecond]
  cases hmore : Builder.start.run fault more with
  | ok nodes' =>
      refine .inr ⟨_, _, rfl, rfl, ?_⟩
      rw [hoffset]
      exact .mk pre nodes' happend htext
  | error e =>
      rw [hmore] at hsecond
      obtain ⟨cause, span, rfl, -⟩ := Builder.located_of_run_start hsecond
      exact .inl ⟨cause, span, rfl, rfl⟩

end Node

/-! ## Rendering across the seam -/

/-- A span of a template covers the same piece with more text behind the template. -/
theorem Span.Covers.cut?_append {span : Span} {a piece : Text} (h : span.Covers a piece)
    (b : Text) : span.cut? (a ++ b) = some piece := by
  obtain ⟨before, after, ha, hoffset, hlength⟩ := h
  exact Span.cut?_eq_some_iff.2 ⟨before, after ++ b, by simp [ha], hoffset, hlength⟩

/-- A token of a template reads the same with more text behind the template. -/
theorem Token.symbol?_covered_append {a : Text} {token : Token} (h : token.CutFrom a) (b : Text) :
    token.symbol? (.covered (a ++ b)) = token.symbol? (.covered a) := by
  cases token with
  | text span =>
      obtain ⟨-, piece, hcovers⟩ := h
      have hcut : span.cut? a = some piece := Span.cut?_eq_some_iff.2 hcovers
      simp only [symbol?, Reading.covered, hcut, hcovers.cut?_append b]
  | tag role name nameSpan span indent => cases role <;> rfl

namespace Node

/-- The literals of a template cover the same texts with more text behind the template. -/
theorem outlines_covered_append {a : Text} {nodes : List Node} (hparse : parse a = .ok nodes)
    (b : Text) : outlines (.covered (a ++ b)) nodes = outlines (.covered a) nodes := by
  obtain ⟨hfault, hfold⟩ := parse_eq_ok_iff.1 hparse
  have hsymbols : (Cursor.start a).tokens.1.filterMap (Token.symbol? (.covered (a ++ b))) =
      (Cursor.start a).tokens.1.filterMap (Token.symbol? (.covered a)) := by
    refine List.filterMap_congr ?_
    intro token htoken
    exact Token.symbol?_covered_append (Cursor.cutFrom_of_mem_tokens htoken) b
  have hdraft := Builder.draft_foldlM (.covered (a ++ b)) .start (Cursor.start a).tokens.1
  have hdraft' := Builder.draft_foldlM (.covered a) .start (Cursor.start a).tokens.1
  rw [hfold, hsymbols, Builder.draft_start] at hdraft
  rw [hfold, Builder.draft_start, ← hdraft] at hdraft'
  exact congrArg Draft.outlines (Except.ok.inj hdraft').symm

section Render

variable {σ : Type} [Sink σ] [LawfulSink σ] (escaper : Escaper)
  (includePartial : Text → Text → Context → RenderM σ Unit) (context : Context)

/-- The literal of a piece of the template writes that piece. -/
theorem renderNodes_literals (before piece after : Text) :
    renderNodes escaper includePartial (before ++ piece ++ after) context
        (literals (Text.size before) piece) = writeText piece := by
  by_cases h : piece = []
  · rw [literals, if_pos h, h, Output.writeText_nil]
    rfl
  · have hcut := Span.cut?_eq_some_iff.2 (Span.covers_of_append before piece after)
    rw [literals, if_neg h, renderNodes_cons, renderNode, hcut, renderNodes_nil]
    exact bind_pure _

/-- Joined nodes are rendered as the nodes of the one text and then those of the other. -/
theorem Joined.renderNodes {a b : Text} {nodes nodes' joined : List Node}
    (h : Joined a b nodes nodes' joined)
    (hcovered : outlines (.covered (a ++ b)) nodes = outlines (.covered a) nodes) :
    Mustache.renderNodes escaper includePartial (a ++ b) context joined = (do
      Mustache.renderNodes escaper includePartial a context nodes
      Mustache.renderNodes escaper includePartial b context nodes') := by
  have hfirst := renderNodes_eq_of_outlines_eq escaper includePartial context hcovered
  cases h with
  | @mk pre more passed above text rest ha hb =>
      have hmore := renderNodes_eq_of_outlines_eq escaper includePartial context
        (outlines_shift a b more)
      have habove := renderNodes_literals escaper includePartial context passed above b
      have htext := renderNodes_literals escaper includePartial context [] text rest
      have hjoined := renderNodes_literals escaper includePartial context passed (above ++ text) rest
      have hsource : passed ++ (above ++ text) ++ rest = a ++ b := by simp [← ha, ← hb]
      rw [ha] at habove
      rw [List.nil_append, hb, Text.size_nil] at htext
      rw [hsource] at hjoined
      rw [← hfirst]
      simp only [renderNodes_append, hmore, habove, htext, hjoined, Output.writeText_append,
        bind_assoc]

end Render

end Node

/-! ## Templates -/

namespace Template

section Joined

variable {a second both : Template} (hsource : both.source = a.source ++ second.source)
  (hjoined : Node.Joined a.source second.source a.nodes second.nodes both.nodes)
  {τ : Type} [Partials τ] (partials : τ) (options : Options) (v : Value)
include hsource hjoined

/-- A template with joined nodes is rendered as the one template and then the other, into any
lawful sink, whether or not the sink refuses some of the text. -/
theorem renderTo_joined {σ : Type} [Sink σ] [LawfulSink σ] :
    (both.renderTo partials options v : RenderM σ Unit) = (do
      a.renderTo partials options v
      second.renderTo partials options v) := by
  rw [renderTo_eq, renderTo_eq, renderTo_eq, hsource]
  exact hjoined.renderNodes _ _ _ (Node.outlines_covered_append a.parsed second.source)

/-- So its output is that of the one and then that of the other. -/
theorem output_joined :
    both.output partials options v =
      a.output partials options v ++ second.output partials options v := by
  refine Output.eq_of_emit_eq ?_
  rw [Output.emit_append, ← renderTo_eq_emit, ← renderTo_eq_emit, ← renderTo_eq_emit]
  exact renderTo_joined hsource hjoined partials options v

end Joined

/-- Templates cut at the end of a line compose.  Let the template `a` be empty or end with a line
feed, and leave the delimiters in force that a template begins with.  Then any text `b` behind it is
malformed if it is by itself, with the same error at the same place of `b`.  And otherwise, into a
sink that takes everything, both together are rendered as `a` and then, unless that ended with an
error, as `b`. -/
theorem compile_append {a : Template} (hline : a.source.endsLine = true)
    (hdelimiters : (Cursor.start a.source).last.delimiters = .braces) (b : Text) :
    (∃ cause span, compile b = .error ⟨cause, some span, some b⟩ ∧
        compile (a.source ++ b) =
          .error ⟨cause, some (span.shift (Text.size a.source)), some (a.source ++ b)⟩) ∨
      ∃ second both, compile b = .ok second ∧ compile (a.source ++ b) = .ok both ∧
        ∀ {τ : Type} [Partials τ] (partials : τ) (options : Options) (v : Value)
          {σ : Type} [Sink σ] {good : σ → Prop} {text : σ → Text}, Sink.Records good text →
            let together : RenderM σ Unit := both.renderTo partials options v
            let inTurn : RenderM σ Unit := do
              a.renderTo partials options v
              second.renderTo partials options v
            ∀ s, good s → outcome (together s) = outcome (inTurn s) ∧
              text (sinkAfter (together s)) = text (sinkAfter (inTurn s)) := by
  rcases Node.parse_append a.parsed hline hdelimiters b with
    ⟨cause, span, hb, hboth⟩ | ⟨nodes', joined, hb, hboth, hjoined⟩
  · exact .inl ⟨cause, span, compile_eq_error_iff.2 hb, compile_eq_error_iff.2 hboth⟩
  · let second : Template := ⟨b, nodes', hb⟩
    let both : Template := ⟨a.source ++ b, joined, hboth⟩
    refine .inr ⟨second, both, compile_eq_ok_iff.2 rfl, compile_eq_ok_iff.2 rfl, ?_⟩
    intro τ _ partials options v σ _ good text hrecords together inTurn s hs
    have houtput : both.output partials options v =
        a.output partials options v ++ second.output partials options v :=
      output_joined rfl hjoined partials options v
    obtain ⟨houtcome, -, htext⟩ := both.renderTo_records hrecords partials options v s hs
    obtain ⟨houtcome', -, htext'⟩ := hrecords.compositional.append
      (a.renderTo_records hrecords partials options v)
      (second.renderTo_records hrecords partials options v) s hs
    rw [houtput] at houtcome htext
    exact ⟨houtcome.trans houtcome'.symm, htext.trans htext'.symm⟩

/-- A tag before the seam and one behind it that has its line to itself. -/
theorem compile_append_of_comment :
    let a : Template := ⟨"a{{x}}\n".toList,
      [.literal ⟨0, 1⟩, .interpolation ⟨['x'], []⟩ true, .literal ⟨6, 1⟩], by cbv⟩
    a.source.endsLine = true ∧ (Cursor.start a.source).last.delimiters = .braces ∧
      ∃ second both, compile " {{!c}}\nb".toList = .ok second ∧
        compile (a.source ++ " {{!c}}\nb".toList) = .ok both ∧
        Sink.Records (fun s : TextSink => s.room = none) TextSink.text ∧
        let together : RenderM TextSink Unit := both.renderTo NoPartials.mk {} .null
        let inTurn : RenderM TextSink Unit := do
          a.renderTo NoPartials.mk {} .null
          second.renderTo NoPartials.mk {} .null
        outcome (together (TextSink.empty none)) = outcome (inTurn (TextSink.empty none)) ∧
          (sinkAfter (together (TextSink.empty none))).text =
            (sinkAfter (inTurn (TextSink.empty none))).text := by
  intro a
  have hline : a.source.endsLine = true := by cbv
  have hdelimiters : (Cursor.start a.source).last.delimiters = .braces := by cbv
  have hparse : Node.parse " {{!c}}\nb".toList = .ok [.literal ⟨8, 1⟩] := by cbv
  refine ⟨hline, hdelimiters, ?_⟩
  rcases compile_append hline hdelimiters " {{!c}}\nb".toList with
    ⟨cause, span, hb, -⟩ | ⟨second, both, hb, hboth, hrender⟩
  · rw [compile_eq_error_iff, hparse] at hb
    cases hb
  · exact ⟨second, both, hb, hboth, TextSink.records,
      hrender NoPartials.mk {} .null TextSink.records (TextSink.empty none) rfl⟩

end Template

end Mustache
