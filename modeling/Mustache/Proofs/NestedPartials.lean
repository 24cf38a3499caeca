import Mustache.Proofs.Output
import Mustache.Proofs.SectionStack
import Mustache.Proofs.TagForm

/-!
# Partials inside partials

A partial that stands alone on its line is indented like that line.  If its text
is again one such line, the blanks of the two lines come together: the text of the
partial is indented before it is read, so its line begins with the blanks of both,
and these are what the next partial is indented by.

So a chain of partials that include each other in this way ends with a text that
is indented once, by all the blanks on the way.  The induction along the chain is
on the lines that are left of it, with any blanks in front of the next one.  The
limit on partials has to leave room for them all.

## Main results

* `InclusionLine.parse_text` — what a line with an inclusion alone on it means;
* `Partials.output_chain` — what is left of a chain writes the text at its end;
* `Template.compile_chain` — a chain of partials from its first line on.
-/

namespace Mustache

/-! ## A line with an inclusion -/

/-- A line with nothing on it but the inclusion of a partial, after blanks. -/
structure InclusionLine where
  indent : Text
  name : Text
  blank : Text.Blank indent
  nonempty : name ≠ []
  /-- Nothing in the name ends it before the tag ends. -/
  solid : ∀ c ∈ name, Text.isSpace c = false ∧ c ≠ '}'

namespace InclusionLine

/-- The line as it stands in a template. -/
def text (line : InclusionLine) : Text :=
  line.indent ++ ['{', '{', '>'] ++ line.name ++ ['}', '}', '\n']

/-- The line with more blanks in front. -/
def behind {lead : Text} (hlead : Text.Blank lead) (line : InclusionLine) : InclusionLine :=
  { line with
    indent := lead ++ line.indent
    blank := hlead.append line.blank }

theorem lines_text (line : InclusionLine) : Text.lines line.text = [line.text] := by
  have hname : '\n' ∉ line.name := by
    intro hmem
    have hspace := (line.solid '\n' hmem).1
    contradiction
  have htag : '\n' ∉ line.indent ++ ['{', '{', '>'] ++ line.name ++ ['}', '}'] := by
    simp [line.blank.lineFeed_not_mem, hname]
  have htext : line.text =
      (line.indent ++ ['{', '{', '>'] ++ line.name ++ ['}', '}']) ++ ['\n'] := by
    simp [text]
  rw [htext, Text.lines_append_of_not_mem htag (List.cons_ne_nil _ _)]
  rfl

/-- Being one line, it is indented as a whole. -/
theorem indent_text {lead : Text} (hlead : Text.Blank lead) (line : InclusionLine) :
    Text.indent lead line.text = (line.behind hlead).text := by
  rw [Text.indent, lines_text]
  simp [text, behind]

/-- After its opening braces the line has the rest of the inclusion. -/
theorem read_name (line : InclusionLine) (rest : Text) :
    Tag.read .braces ('>' :: (line.name ++ (['}', '}'] ++ rest))) =
      .ok ⟨.named .inclusion, ['{', '{', '>'], line.name, ['}', '}'], rest⟩ := by
  have form : Tag.NameForm (Tag.stop .braces false)
      (Tag.brace false ++ (Delimiters.braces.closing.text ++ rest))
      (line.name ++ (['}', '}'] ++ rest)) [] line.name [] :=
    { append := rfl
      spaces := nofun
      spaces' := nofun
      nonempty := line.nonempty
      solid := fun c hc => (line.solid c hc).1
      first := by
        intro x y hxy hlt
        refine Text.not_isPrefix_of_head? Delimiters.braces.closing.nonempty ?_ hxy hlt
        intro c hc hhead
        exact (line.solid c hc).2 (Option.some.inj hhead).symm }
  have hspace : Text.Spaces [] := nofun
  exact Tag.Form.read_eq (.sigil hspace rfl (form.readNamed_eq .inclusion _))

theorem step_text (line : InclusionLine) :
    (Cursor.start line.text).step =
      .ok (some ⟨[], line.indent, .named .inclusion, ['{', '{', '>'], line.name, ['}', '}'], ['\n'],
        ⟨Text.size line.text, [], true, .braces⟩⟩) := by
  have hcloses : Text.ClosesLine ['\n'] [] := .lineFeed [] (nofun : Text.Blank [])
  have hstep := Cursor.step_eq_stepOverLine (c := .start line.text) rfl
    (by simp [text, Cursor.start, Delimiters.braces]) line.blank (line.read_name ['\n']) rfl hcloses
    rfl
  rw [hstep]
  simp [Cursor.stepOverLine, Cursor.start, text, Tag.Reading.lexeme, Tag.delimitersAfter,
    Nat.add_assoc]

/-- The line means the inclusion of the partial, indented like the line. -/
theorem parse_text (line : InclusionLine) :
    Node.parse line.text = .ok [.inclusion line.name line.indent] := by
  have htokens := Cursor.tokens_of_step_some line.step_text
  rw [Cursor.tokens_of_step_none (c := ⟨Text.size line.text, [], true, .braces⟩) rfl] at htokens
  rw [Node.parse_eq_ok_iff, htokens]
  exact ⟨rfl, rfl⟩

end InclusionLine

/-! ## Chains of partials -/

/-- The text from which a chain of lines goes on: the next line, or after the last one `text`. -/
def Text.chain (text : Text) : List InclusionLine → Text
  | [] => text
  | line :: _ => line.text

/-- The blanks in front of all the lines, one after the other. -/
def InclusionLine.indents (lines : List InclusionLine) : Text :=
  lines.flatMap InclusionLine.indent

/-- The partial that a line includes has the text from which the chain goes on after the line. -/
def Partials.Chained (partials : Text → Option Text) (text : Text) : List InclusionLine → Prop
  | [] => True
  | line :: lines =>
    partials line.name = some (text.chain lines) ∧ Chained partials text lines

section Chain

variable {partials : Text → Option Text} {text : Text}

theorem InclusionLine.blank_indents (lines : List InclusionLine) :
    Text.Blank (InclusionLine.indents lines) := by
  intro c hc
  obtain ⟨line, -, hmem⟩ := List.mem_flatMap.1 hc
  exact line.blank c hmem

/-- What is left of a chain, indented by any blanks, writes the text at its end, indented by these and
the blanks in front of all its lines. -/
theorem Partials.output_chain (options : Options) (htext : ¬ ['{', '{'] <:+: text)
    {lines : List InclusionLine} (htable : Chained partials text lines) {room : Nat}
    (hroom : lines.length ≤ room) {lead : Text} (hlead : Text.Blank lead) :
    ∃ nodes, Node.parse (Text.indent lead (text.chain lines)) = .ok nodes ∧
      ∀ context, Node.outputs options.escaper (output partials options room)
          (Text.indent lead (text.chain lines)) context nodes =
        .ofText (Text.indent (lead ++ InclusionLine.indents lines) text) := by
  -- Each line hands its blanks on to the next one, so the induction is for any blanks in front.
  induction lines generalizing room lead with
  | nil =>
      have hfind := (Text.splitAtFirst?_eq_none_iff (List.cons_ne_nil _ _)).2 htext
      have hstep : (Cursor.start (Text.indent lead text)).step = .ok none := by
        have hnone := Text.splitAtFirst?_indent_eq_none Delimiters.braces.opening.solid hlead hfind
        unfold Cursor.step
        simp only [Cursor.start, hnone]
      have hparse : Node.parse (Text.indent lead text) =
          .ok (Node.literals 0 (Text.indent lead text)) := by
        rw [Node.parse_of_step_none hstep, Node.literals]
        simp only [List.isEmpty_iff]
      refine ⟨_, hparse, ?_⟩
      intro context
      have hliteral := Node.outputs_literals options.escaper (output partials options room) context
        [] (Text.indent lead text) []
      simpa [InclusionLine.indents, Text.chain] using hliteral
  | cons line lines ih =>
      obtain ⟨room, rfl⟩ : ∃ n, room = n + 1 :=
        Nat.exists_eq_add_one.2 (Nat.lt_of_lt_of_le (Nat.zero_lt_succ _) hroom)
      obtain ⟨nodes, hparse, hwrites⟩ :=
        ih htable.2 (Nat.le_of_succ_le_succ hroom) (hlead.append line.blank)
      have hline : Text.indent lead (text.chain (line :: lines)) = (line.behind hlead).text :=
        line.indent_text hlead
      have hpartial (context : Context) :
          output partials options (room + 1) line.name (lead ++ line.indent) context =
            .ofText (Text.indent (lead ++ InclusionLine.indents (line :: lines)) text) := by
        rw [output, htable.1]
        simp only [hparse, hwrites, InclusionLine.indents, List.flatMap_cons, List.append_assoc]
      rw [hline]
      refine ⟨_, (line.behind hlead).parse_text, ?_⟩
      intro context
      rw [Node.outputs_cons, Node.outputs_nil, Output.append_nothing]
      exact hpartial context

end Chain

/-- Nested partials that stand alone on their lines indent by the blanks of all their lines
together.  Take lines with the inclusion of a partial on each, and a text without opening braces, and
let the text of the partial in a line be the next line, or for the last one the text.  Then the first
line is rendered, for any data and if the limit on partials leaves room for them all, as the text
indented by the blanks of all lines.  So every line of the text has these blanks in front once, and
where the text ends with a line feed, nothing comes after it. -/
theorem Template.compile_chain {τ : Type} [Partials τ] (table : τ) (lines : List InclusionLine)
    {text : Text} (htext : ¬ ['{', '{'] <:+: text)
    (htable : Partials.Chained (Partials.get? table) text lines) :
    ∃ t, compile (text.chain lines) = .ok t ∧
      ∀ (options : Options) (v : Value), lines.length ≤ options.partialDepth →
        ∃ rendered, t.renderWith table options v = .ok rendered ∧
          rendered = Text.indent (InclusionLine.indents lines) text ∧
          Text.lines rendered = (Text.lines text).map (InclusionLine.indents lines ++ ·) := by
  have hchain (options : Options) {room : Nat} (hroom : lines.length ≤ room) :=
    Partials.output_chain options htext htable hroom (nofun : Text.Blank [])
  simp only [Text.indent_nil, List.nil_append] at hchain
  obtain ⟨nodes, hparse, -⟩ := hchain {} (Nat.le_refl lines.length)
  refine ⟨⟨text.chain lines, nodes, hparse⟩, compile_eq_ok_iff.2 rfl, ?_⟩
  intro options v hroom
  obtain ⟨nodes', hparse', hwrites⟩ := hchain options hroom
  obtain rfl : nodes = nodes' := Except.ok.inj (hparse.symm.trans hparse')
  refine ⟨_, renderWith_eq_ok_iff.2 (hwrites [v]), rfl, ?_⟩
  exact Text.lines_indent (InclusionLine.blank_indents lines).lineFeed_not_mem text

/-- Two lines with blanks of either kind, and a text of two lines at the end. -/
theorem Template.compile_chain_of_two :
    let outer : InclusionLine :=
      ⟨"  ".toList, ['p'], by decide, by decide, List.forall_mem_singleton.2 (by decide)⟩
    let inner : InclusionLine :=
      ⟨"\t".toList, ['q'], by decide, by decide, List.forall_mem_singleton.2 (by decide)⟩
    let table : List (Text × Text) := [(['p'], "\t{{>q}}\n".toList), (['q'], "a\nb\n".toList)]
    ¬ ['{', '{'] <:+: "a\nb\n".toList ∧
      Partials.Chained (Partials.get? table) "a\nb\n".toList [outer, inner] ∧
      2 ≤ ({} : Options).partialDepth ∧
      ∃ t, compile "  {{>p}}\n".toList = .ok t ∧
        t.renderWith table {} .null = .ok "  \ta\n  \tb\n".toList := by
  intro outer inner table
  have htext : ¬ ['{', '{'] <:+: "a\nb\n".toList := by decide
  have htable : Partials.Chained (Partials.get? table) "a\nb\n".toList [outer, inner] :=
    ⟨rfl, rfl, trivial⟩
  refine ⟨htext, htable, by decide, ?_⟩
  obtain ⟨t, ht, hrender⟩ := compile_chain table [outer, inner] htext htable
  obtain ⟨rendered, hrendered, rfl, -⟩ := hrender {} .null (by decide)
  exact ⟨t, ht, hrendered⟩

end Mustache
