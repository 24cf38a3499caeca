import Mustache.Proofs.Concatenation

/-!
# Lines that hold only a comment

A comment that stands alone on its line leaves nothing of the line behind.  So a
template means the same without the line, wherever in the template it is: between
the tags of a section, and with any delimiters in force.

Up to the line the two templates have the same tokens.  The seam is there, and it
is crossed twice: in the one template comes the comment and after it the rest of
the template, in the other the rest comes at once.  Two things are different then.
What comes after the line stands further on, and the text before the line is one
literal with the text after it or a literal of its own.  Neither is seen in what
the nodes write, so the comparison is made there: two lists of nodes are alike if
each of them writes in its template what the other writes in the other one.  The
machine that builds the nodes keeps its two states alike, token by token, and where
it fails, it does so for the same reason.

## Main results

* `Builder.Alike.step`, `Builder.Alike.run` — tokens that read alike keep two
  builders alike;
* `CommentLine.step_startWith` — the step over a line with only a comment on it;
* `Node.parallel_parse` — parsing with the line and without it;
* `Template.compile_commentLine` — a line with only a comment can be deleted.
-/

namespace Mustache

/-! ## Failing for the same reason -/

/-- Two computations that fail for the same reason, or have results that are related. -/
inductive Parallel {α β : Type} (rel : α → β → Prop) : Except Error α → Except Error β → Prop
  | error {e e' : Error} : e'.cause = e.cause → Parallel rel (.error e) (.error e')
  | ok {a : α} {b : β} : rel a b → Parallel rel (.ok a) (.ok b)

namespace Parallel

variable {α β γ δ : Type} {rel : α → β → Prop} {x : Except Error α} {y : Except Error β}

theorem bind {rel' : γ → δ → Prop} (h : Parallel rel x y) {f : α → Except Error γ}
    {g : β → Except Error δ} (hfg : ∀ a b, rel a b → Parallel rel' (f a) (g b)) :
    Parallel rel' (x.bind f) (y.bind g) := by
  cases h with
  | error hcause => exact .error hcause
  | ok hrel => exact hfg _ _ hrel

/-- Folds stay parallel if every step does. -/
theorem foldlM {tok : γ → δ → Prop} {f : α → γ → Except Error α} {g : β → δ → Except Error β}
    (hstep : ∀ a b c d, rel a b → tok c d → Parallel rel (f a c) (g b d)) {cs : List γ}
    {ds : List δ} (htokens : List.Forall₂ tok cs ds) {a : α} {b : β} (h : rel a b) :
    Parallel rel (cs.foldlM f a) (ds.foldlM g b) := by
  induction htokens generalizing a b with
  | nil => exact .ok h
  | cons htoken _ ih =>
      rw [List.foldlM_cons, List.foldlM_cons]
      exact (hstep _ _ _ _ h htoken).bind fun _ _ hnext => ih hnext

/-- A template may be named in an error afterwards. -/
theorem withSource (h : Parallel rel x y) (source source' : Text) :
    Parallel rel (x.mapError (Error.withSource source)) (y.mapError (Error.withSource source')) := by
  cases h with
  | error hcause =>
      refine .error ?_
      rw [Node.cause_withSource, Node.cause_withSource, hcause]
  | ok hrel => exact .ok hrel

end Parallel

/-! ## Nodes that write the same -/

/-- The nodes write in the one template what the others write in the other one. -/
def Node.WriteAlike (source source' : Text) (nodes nodes' : List Node) : Prop :=
  ∀ escaper inclusion context,
    outputs escaper inclusion source context nodes =
      outputs escaper inclusion source' context nodes'

namespace Node.WriteAlike

variable {source source' : Text} {nodes nodes' more more' : List Node}

theorem nil : WriteAlike source source' [] [] :=
  fun _ _ _ => rfl

theorem append (h : WriteAlike source source' nodes nodes')
    (hmore : WriteAlike source source' more more') :
    WriteAlike source source' (nodes ++ more) (nodes' ++ more') := by
  intro escaper inclusion context
  rw [outputs_append, outputs_append, h, hmore]

theorem literal {span span' : Span} (h : span'.cut? source' = span.cut? source) :
    WriteAlike source source' [.literal span] [.literal span'] := by
  intro escaper inclusion context
  rw [outputs_cons, outputs_cons, output, output, h]
  rfl

theorem block (h : WriteAlike source source' nodes nodes') (kind : SectionKind) (path : Path) :
    WriteAlike source source' [.block kind path nodes] [.block kind path nodes'] := by
  intro escaper inclusion context
  rw [outputs_cons, outputs_cons]
  cases kind with
  | normal => simp only [output, h escaper inclusion, outputs_nil]
  | inverted => simp only [output, h escaper inclusion, outputs_nil]

/-- Where a gap comes to stand between two texts, one literal for both writes as one for each. -/
theorem literals {source gap below passed above text rest : Text} (hsource : passed ++ above = source)
    (hbelow : text ++ rest = below)
    (h : WriteAlike (source ++ below) (source ++ (gap ++ below)) nodes nodes') :
    WriteAlike (source ++ below) (source ++ (gap ++ below))
      (nodes ++ Node.literals (Text.size passed) (above ++ text))
      (nodes' ++ Node.literals (Text.size passed) above ++
        Node.literals (Text.size (source ++ gap)) text) := by
  subst hsource hbelow
  intro escaper inclusion context
  have hboth := outputs_literals escaper inclusion context passed (above ++ text) rest
  have habove := outputs_literals escaper inclusion context passed above (gap ++ (text ++ rest))
  have htext := outputs_literals escaper inclusion context (passed ++ above ++ gap) text rest
  simp only [List.append_assoc] at hboth habove htext h ⊢
  rw [outputs_append, outputs_append, outputs_append, h, hboth, habove, htext,
    Output.ofText_append_ofText]

end Node.WriteAlike

/-! ## Building nodes side by side -/

/-- The token reads in the one template as the other does in the other one. -/
inductive Token.Alike (source source' : Text) : Token → Token → Prop
  | text {span span' : Span} : span'.cut? source' = span.cut? source →
    Alike source source' (.text span) (.text span')
  | tag (role : Role) (name : Text) (nameSpan nameSpan' span span' : Span) (indent : Text) :
    Alike source source' (.tag role name nameSpan span indent) (.tag role name nameSpan' span' indent)

/-- The open section has the same name, and the nodes before it write the same. -/
structure Level.Alike (source source' : Text) (l l' : Level) : Prop where
  kind : l'.kind = l.kind
  name : l'.opening.name = l.opening.name
  before : Node.WriteAlike source source' l.before l'.before

/-- The same sections are open, and all nodes so far write the same. -/
structure Builder.Alike (source source' : Text) (b b' : Builder) : Prop where
  levels : List.Forall₂ (Level.Alike source source') b.levels b'.levels
  nodes : Node.WriteAlike source source' b.nodes b'.nodes

namespace Token

/-- A token of the template reads alike whatever comes behind the template. -/
theorem CutFrom.alike {a : Text} {token : Token} (h : token.CutFrom a) (b b' : Text) :
    Alike (a ++ b) (a ++ b') token token := by
  cases token with
  | text span =>
      obtain ⟨-, piece, hcovers⟩ := h
      exact .text ((hcovers.cut?_append b').trans (hcovers.cut?_append b).symm)
  | tag role name nameSpan span indent => exact .tag role name _ _ _ _ indent

/-- A token reads alike behind any two texts. -/
theorem alike_shift (a a' b : Text) (token : Token) :
    Alike (a ++ b) (a' ++ b) (token.shift (Text.size a)) (token.shift (Text.size a')) := by
  cases token with
  | text span => exact .text ((span.cut?_shift a' b).trans (span.cut?_shift a b).symm)
  | tag role name nameSpan span indent => exact .tag role name _ _ _ _ indent

end Token

namespace Builder

variable {source source' : Text} {b b' : Builder}

theorem alike_start : Alike source source' start start :=
  ⟨.nil, .nil⟩

theorem Alike.add (h : Alike source source' b b') {node node' : Node}
    (hnode : Node.WriteAlike source source' [node] [node']) :
    Alike source source' (b.add node) (b'.add node') :=
  ⟨h.levels, h.nodes.append hnode⟩

/-- What the machine does with tokens that read alike. -/
theorem Alike.step {token token' : Token} (h : Alike source source' b b')
    (htoken : Token.Alike source source' token token') :
    Parallel (Alike source source') (b.step token) (b'.step token') := by
  cases htoken with
  | text hcut => exact .ok (h.add (.literal hcut))
  | tag role name nameSpan nameSpan' span span' indent =>
      cases role with
      | interpolation escaped => exact .ok (h.add fun _ _ _ => rfl)
      | inclusion => exact .ok (h.add fun _ _ _ => rfl)
      | opening kind =>
          have hlength : b'.levels.length = b.levels.length := h.levels.length_eq.symm
          simp only [Builder.step, opened, hlength]
          by_cases hdepth : b.levels.length < maxSectionDepth
          · rw [if_pos hdepth, if_pos hdepth]
            exact .ok ⟨.cons ⟨rfl, rfl, h.nodes⟩ h.levels, .nil⟩
          · rw [if_neg hdepth, if_neg hdepth]
            exact .error rfl
      | closing =>
          obtain ⟨levels, nodes⟩ := b
          obtain ⟨levels', nodes'⟩ := b'
          obtain ⟨hlevels, hnodes⟩ := h
          simp only [Builder.step, closed]
          cases hlevels with
          | nil => exact .error rfl
          | @cons innermost innermost' levels levels' hlevel hlevels =>
              simp only [hlevel.name, hlevel.kind]
              by_cases hname : innermost.opening.name = name
              · rw [if_pos hname, if_pos hname]
                exact .ok ⟨hlevels, hlevel.before.append (hnodes.block _ _)⟩
              · rw [if_neg hname, if_neg hname]
                exact .error rfl

/-- What the machine does at the end, if the tokens end in the same way. -/
theorem Alike.finish (h : Alike source source' b b') {fault fault' : Option Error}
    (hfault : fault'.map Error.cause = fault.map Error.cause) :
    Parallel (Node.WriteAlike source source') (b.finish fault) (b'.finish fault') := by
  obtain ⟨levels, nodes⟩ := b
  obtain ⟨levels', nodes'⟩ := b'
  obtain ⟨hlevels, hnodes⟩ := h
  cases fault with
  | some e =>
      obtain ⟨e', rfl, hcause⟩ := Option.map_eq_some_iff.1 hfault
      exact .error hcause
  | none =>
      obtain rfl := Option.map_eq_none_iff.1 hfault
      cases hlevels with
      | nil => exact .ok hnodes
      | cons hlevel hlevels =>
          refine .error ?_
          simp only [Error.located, hlevel.name]

/-- The machine gets from alike states to alike nodes. -/
theorem Alike.run (h : Alike source source' b b') {tokens tokens' : List Token}
    (htokens : List.Forall₂ (Token.Alike source source') tokens tokens')
    {fault fault' : Option Error} (hfault : fault'.map Error.cause = fault.map Error.cause) :
    Parallel (Node.WriteAlike source source') (b.run fault tokens) (b'.run fault' tokens') := by
  have hfold : Parallel (Alike source source') (tokens.foldlM Builder.step b)
      (tokens'.foldlM Builder.step b') :=
    .foldlM (fun _ _ _ _ hstates htoken => hstates.step htoken) htokens h
  exact hfold.bind fun _ _ hend => hend.finish hfault

end Builder

/-! ## The line of a comment -/

/-- A line with nothing on it but a comment between the delimiters `d`, and blanks.  The comment may
go over several lines. -/
structure CommentLine (d : Delimiters) where
  lead : Text
  body : Text
  trail : Text
  lineBreak : Text
  blank_lead : Text.Blank lead
  blank_trail : Text.Blank trail
  breaks : lineBreak = ['\n'] ∨ lineBreak = ['\r', '\n']
  /-- The closing delimiter after the content is the first one, also across the end of the
  content. -/
  first : ∀ x y, x ++ y = body ++ d.closing.text → x.length < body.length →
    ¬ d.closing.text <+: y

namespace CommentLine

variable {d : Delimiters}

/-- The line as it stands in a template. -/
def text (line : CommentLine d) : Text :=
  line.lead ++ d.opening.text ++ '!' :: line.body ++ d.closing.text ++ line.trail ++ line.lineBreak

theorem closesLine (line : CommentLine d) (rest : Text) :
    Text.ClosesLine (line.trail ++ line.lineBreak) rest := by
  rcases line.breaks with hbreak | hbreak
  · rw [hbreak]
    exact .lineFeed rest line.blank_trail
  · rw [hbreak]
    exact .carriageReturn rest line.blank_trail

theorem getLast?_lineBreak (line : CommentLine d) : line.lineBreak.getLast? = some '\n' := by
  rcases line.breaks with hbreak | hbreak <;> rw [hbreak] <;> rfl

/-- After its opening delimiter the line has a comment. -/
theorem read_comment (line : CommentLine d) (rest : Text) :
    Tag.read d ('!' :: (line.body ++ d.closing.text ++ rest)) =
      .ok ⟨.comment, d.opening.text ++ ['!'], line.body, d.closing.text, rest⟩ := by
  have hfirst : Text.splitAtFirst? d.closing.text (line.body ++ d.closing.text) =
      some (line.body, []) := by
    refine (Text.splitAtFirst?_eq_some_iff d.closing.nonempty).2 ⟨?_, line.first⟩
    rw [List.append_nil]
  have hfind := Text.splitAtFirst?_append d.closing.nonempty hfirst rest
  have hspace : Text.Spaces [] := nofun
  refine Tag.Form.read_eq (.comment hspace ?_)
  rw [Tag.readComment, hfind, List.append_nil, List.nil_append]

/-- The step over the line, where a text begins with it.  No text is left over before the comment, and
the next line begins where the line ends. -/
theorem step_startWith (line : CommentLine d) (below : Text) :
    ∃ s, (Cursor.startWith d (line.text ++ below)).step = .ok (some s) ∧ s.text = [] ∧
      s.tag = .comment ∧
      s.next = (Cursor.startWith d below).shift (Text.size line.text) := by
  have hstep := Cursor.step_eq_stepOverLine (c := .startWith d (line.text ++ below)) rfl
    (by simp [text, Cursor.startWith]) line.blank_lead
    (line.read_comment (line.trail ++ line.lineBreak ++ below)) rfl (line.closesLine below) rfl
  refine ⟨_, hstep, rfl, rfl, ?_⟩
  simp [Cursor.stepOverLine, Cursor.startWith, Cursor.shift, text, Tag.Reading.lexeme,
    Tag.delimitersAfter, List.getLast?_append, line.getLast?_lineBreak, Nat.add_assoc]

end CommentLine

/-- Behind a template that ends with a line, the line of a comment makes a literal of what is left of
the template, and the rest is read as if the template ended with the line of the comment. -/
theorem Cursor.Ends.run_commentLine {c : Cursor} {source : Text} (h : c.Ends source)
    (line : CommentLine c.delimiters) (below : Text) (levels : List Level) (nodes : List Node) :
    Builder.run (c.extend (line.text ++ below)).tokens.2 ⟨levels, nodes⟩
        (c.extend (line.text ++ below)).tokens.1 =
      Builder.run
        ((startWith c.delimiters below).tokens.2.map (Error.shift (Text.size (source ++ line.text))))
        ⟨levels, nodes ++ Node.literals c.offset c.rest⟩
        ((startWith c.delimiters below).tokens.1.map
          (Token.shift (Text.size (source ++ line.text)))) := by
  obtain ⟨s, hs, htext, htag, hnext⟩ := line.step_startWith below
  have hstep := h.step_extend (line.text ++ below)
  rw [hs] at hstep
  have hplace : (s.behind c.rest (Text.size source)).next =
      (startWith c.delimiters below).shift (Text.size (source ++ line.text)) := by
    rw [Text.size_append]
    show s.next.shift (Text.size source) = _
    rw [hnext]
    simp only [shift, Nat.add_assoc]
  have htokens : Token.ofStep (c.extend (line.text ++ below)).offset
      (s.behind c.rest (Text.size source)) = Token.ofText c.offset c.rest := by
    simp only [extend]
    simp only [Token.ofStep, Token.ofTag, Step.behind, Step.shift, htext, htag, List.append_nil]
  rw [tokens_of_step_some hstep, htokens, hplace, tokens_shift]
  exact Builder.run_append (Builder.foldlM_ofText ⟨levels, nodes⟩ c.offset c.rest) _ _

/-- A template with the line of a comment in it and the same template without the line fail to parse
for the same reason, or have nodes that write the same. -/
theorem Node.parallel_parse {above : Text} (hline : above.endsLine = true)
    (hlexed : (Cursor.start above).tokens.2 = none)
    (line : CommentLine (Cursor.start above).last.delimiters) (below : Text) :
    Parallel (WriteAlike (above ++ below) (above ++ line.text ++ below)) (parse (above ++ below))
      (parse (above ++ line.text ++ below)) := by
  obtain ⟨hend, htokens⟩ := Cursor.tokens_eq_of_snd_eq_none hlexed
  have hends := Cursor.ends_last hend hline
  obtain ⟨passed, happend, hoffset⟩ := hends.covers
  obtain ⟨text, rest, more, fault, htext, hstart, hrun⟩ := hends.exists_run below
  -- Up to the seam both runs are the same.
  let tokens := (Cursor.start above).steps.flatMap fun p => Token.ofStep p.1.offset p.2
  have hextend (b : Text) : Builder.start.run (Cursor.start (above ++ b)).tokens.2
      (Cursor.start (above ++ b)).tokens.1 =
        (tokens.foldlM Builder.step Builder.start).bind fun built =>
          built.run ((Cursor.start above).last.extend b).tokens.2
            ((Cursor.start above).last.extend b).tokens.1 := by
    show Builder.start.run ((Cursor.start above).extend b).tokens.2
      ((Cursor.start above).extend b).tokens.1 = _
    rw [Cursor.tokens_extend (c := Cursor.start above) hline b, Builder.run_append_eq_bind]
  have hfirst : Parallel (Builder.Alike (above ++ below) (above ++ (line.text ++ below)))
      (tokens.foldlM Builder.step Builder.start) (tokens.foldlM Builder.step Builder.start) := by
    refine .foldlM (fun _ _ _ _ hstates htoken => hstates.step htoken) ?_ Builder.alike_start
    refine List.forall₂_same.2 ?_
    intro token htoken
    have hmem : token ∈ (Cursor.start above).tokens.1 := by
      rw [htokens]
      exact List.mem_append_left _ htoken
    exact (Cursor.cutFrom_of_mem_tokens hmem).alike below (line.text ++ below)
  rw [parse_eq_mapError_run, parse_eq_mapError_run, List.append_assoc, hextend, hextend]
  refine (hfirst.bind ?_).withSource _ _
  rintro ⟨levels, nodes⟩ ⟨levels', nodes'⟩ ⟨hlevels, hnodes⟩
  simp only at hlevels hnodes
  have htext' : Token.ofText (Text.size (above ++ line.text)) text =
      (Token.ofText 0 text).map (Token.shift (Text.size (above ++ line.text))) :=
    Token.ofText_shift _ 0 text
  rw [hrun, hends.run_commentLine line below, hstart, List.map_append, ← htext',
    Builder.run_append (Builder.foldlM_ofText _ _ _), hoffset]
  refine Builder.Alike.run ⟨hlevels, hnodes.literals happend htext⟩ ?_ ?_
  · rw [List.forall₂_map_left_iff, List.forall₂_map_right_iff, List.forall₂_same,
      ← List.append_assoc]
    intro token _
    exact Token.alike_shift above (above ++ line.text) below token
  · cases fault <;> rfl

/-! ## Templates -/

namespace Template

/-- Templates whose nodes write the same are rendered in the same way, into any lawful sink. -/
theorem renderTo_eq_of_writeAlike {t t' : Template}
    (h : Node.WriteAlike t.source t'.source t.nodes t'.nodes) {τ : Type} [Partials τ]
    (partials : τ) (options : Options) (v : Value) {σ : Type} [Sink σ] [LawfulSink σ] :
    (t'.renderTo partials options v : RenderM σ Unit) = t.renderTo partials options v := by
  have houtput : t'.output partials options v = t.output partials options v :=
    (h options.escaper _ [v]).symm
  rw [renderTo_eq_emit, renderTo_eq_emit, houtput]

/-- A comment that is alone on its line can be deleted with the line.  Let the text `above` be empty
or end with a line feed, and let no tag in it be malformed; sections may still be open, and it may
have set other delimiters.  Then with the line and without it the text is malformed for the same
reason, or both templates are rendered to the same text with the same result.  Into any lawful sink
they are even rendered by the same computation. -/
theorem compile_commentLine {above : Text} (hline : above.endsLine = true)
    (hlexed : (Cursor.start above).tokens.2 = none)
    (line : CommentLine (Cursor.start above).last.delimiters) (below : Text) :
    (∃ e e', compile (above ++ below) = .error e ∧
        compile (above ++ line.text ++ below) = .error e' ∧ e'.cause = e.cause) ∨
      ∃ t t', compile (above ++ below) = .ok t ∧
        compile (above ++ line.text ++ below) = .ok t' ∧
        ∀ {τ : Type} [Partials τ] (partials : τ) (options : Options) (v : Value),
          t'.renderWith partials options v = t.renderWith partials options v ∧
            ∀ {σ : Type} [Sink σ] [LawfulSink σ],
              (t'.renderTo partials options v : RenderM σ Unit) =
                t.renderTo partials options v := by
  have hparse := Node.parallel_parse hline hlexed line below
  generalize hplain : Node.parse (above ++ below) = plain at hparse
  generalize hcommented : Node.parse (above ++ line.text ++ below) = commented at hparse
  cases hparse with
  | @error e e' hcause =>
      exact .inl ⟨e, e', compile_eq_error_iff.2 hplain, compile_eq_error_iff.2 hcommented, hcause⟩
  | @ok nodes nodes' hnodes =>
      let t : Template := ⟨above ++ below, nodes, hplain⟩
      let t' : Template := ⟨above ++ line.text ++ below, nodes', hcommented⟩
      refine .inr ⟨t, t', compile_eq_ok_iff.2 rfl, compile_eq_ok_iff.2 rfl, ?_⟩
      intro τ _ partials options v
      have hrender {σ : Type} [Sink σ] [LawfulSink σ] :
          (t'.renderTo partials options v : RenderM σ Unit) = t.renderTo partials options v :=
        renderTo_eq_of_writeAlike hnodes partials options v
      refine ⟨?_, hrender⟩
      unfold renderWith
      rw [hrender]

/-- A comment of two lines in a section, between other delimiters than braces. -/
theorem compile_commentLine_in_section :
    ∃ line : CommentLine (Cursor.start "{{=<% %>=}}\n<%#s%>\n".toList).last.delimiters,
      line.text = " <%!a\nb%>\t\r\n".toList ∧
        Text.endsLine "{{=<% %>=}}\n<%#s%>\n".toList = true ∧
        (Cursor.start "{{=<% %>=}}\n<%#s%>\n".toList).tokens.2 = none ∧
        ∃ t t', compile ("{{=<% %>=}}\n<%#s%>\n".toList ++ "x<%/s%>".toList) = .ok t ∧
          compile ("{{=<% %>=}}\n<%#s%>\n".toList ++ line.text ++ "x<%/s%>".toList) = .ok t' ∧
          t'.renderWith NoPartials.mk {} .null = t.renderWith NoPartials.mk {} .null := by
  have hline : Text.endsLine "{{=<% %>=}}\n<%#s%>\n".toList = true := by cbv
  have hlexed : (Cursor.start "{{=<% %>=}}\n<%#s%>\n".toList).tokens.2 = none := by cbv
  have hopening : (Cursor.start "{{=<% %>=}}\n<%#s%>\n".toList).last.delimiters.opening.text =
      "<%".toList := by cbv
  have hclosing : (Cursor.start "{{=<% %>=}}\n<%#s%>\n".toList).last.delimiters.closing.text =
      "%>".toList := by cbv
  let line : CommentLine (Cursor.start "{{=<% %>=}}\n<%#s%>\n".toList).last.delimiters :=
    { lead := [' ']
      body := "a\nb".toList
      trail := ['\t']
      lineBreak := ['\r', '\n']
      blank_lead := by decide
      blank_trail := by decide
      breaks := .inr rfl
      first := by
        intro x y hxy hlt
        refine Text.not_isPrefix_of_head? (Delimiter.nonempty _) ?_ hxy hlt
        rw [hclosing]
        simp }
  have htext : line.text = " <%!a\nb%>\t\r\n".toList := by
    simp only [CommentLine.text, hopening, hclosing, line]
    rfl
  refine ⟨line, htext, hline, hlexed, ?_⟩
  rcases compile_commentLine hline hlexed line "x<%/s%>".toList with
    ⟨e, e', he, -, -⟩ | ⟨t, t', ht, ht', hrender⟩
  · have hparse : Node.parse ("{{=<% %>=}}\n<%#s%>\n".toList ++ "x<%/s%>".toList) =
        .ok [.block .normal ⟨['s'], []⟩ [.literal ⟨19, 1⟩]] := by cbv
    rw [compile_eq_error_iff, hparse] at he
    cases he
  · exact ⟨t, t', ht, ht', (hrender NoPartials.mk {} .null).1⟩

end Template

end Mustache
