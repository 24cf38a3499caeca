import Mustache.Proofs.Occurrence
import Mustache.Proofs.Places
import Mustache.Proofs.RenderingMachine

/-!
# Slices of a text

Nodes keep the places of literals and no text, so whoever renders them has to have
the right text at hand, and there are many at the same time: the template, and every
partial that is open, each indented for the place where it stands.  In another text a
span might end in the middle of a character, or beyond the end.

Two things keep that from happening.  In its own text every place that the lexer
computes is right: `Text.Sliced` collects what is cut out of a text on the way through
it, also if the text is malformed in the end.  And nodes never part from their text.
`Task.Stands` says this of a task: the nodes that it is about stand in the text that
comes with it, and this text is compiled with the template.  Every step of a rendering
keeps that, because nodes come into it with their text, and what is inside a section
is passed on with the text of the section.  As everywhere, a limit on partials stands in
where none is set.

## Main results

* `Text.sliced` — whatever is cut out of a text is a piece of it;
* `Template.Compiles.literal` — the literals of a text that is compiled are pieces
  of it;
* `Moment.Stands.moves`, `Moment.Stands.reaches` — a step keeps nodes with their
  text, and so does a whole rendering;
* `Template.renderTo_sliced` — at every moment of a rendering the literals to be
  rendered are pieces of the text that comes with them.
-/

namespace Mustache

/-! ## What the lexer cuts out of a text -/

/-- Pieces that stand one after the other from an offset on, each with its span. -/
def Text.laidOut (offset : Nat) : List Text → List (Span × Text)
  | [] => []
  | piece :: pieces => (⟨offset, size piece⟩, piece) :: laidOut (offset + size piece) pieces

/-- What a step cuts what is left of a text into, with what is left after it at the end. -/
def Step.cuts (s : Step) : List Text :=
  [s.text, s.lead, s.before, s.body, s.after, s.trail, s.next.rest]

/-- The pieces of this step stand where they were, from the offset of the cursor on. -/
example : ∃ s, (Cursor.start "é {{x}}!".toList).step = .ok (some s) ∧
    Text.laidOut 0 s.cuts =
      [(⟨0, 3⟩, "é ".toList), (⟨3, 0⟩, []), (⟨3, 2⟩, ['{', '{']), (⟨5, 1⟩, ['x']),
        (⟨6, 2⟩, ['}', '}']), (⟨8, 0⟩, []), (⟨8, 1⟩, ['!'])] := by
  refine ⟨_, rfl, ?_⟩
  cbv

namespace Cursor

variable {c : Cursor} {s : Step} {source passed : Text}

/-- Pieces of what is left of a text cover it, if the offset is that of the first of them. -/
theorem Follows.covers_laidOut (h : c.Follows source passed) (pieces : List Text) (before : Text)
    (hrest : before ++ pieces.flatten = c.rest) :
    ∀ p ∈ Text.laidOut (c.offset + Text.size before) pieces, p.1.Covers source p.2 := by
  induction pieces generalizing before with
  | nil => exact nofun
  | cons piece pieces ih =>
      rw [List.flatten_cons, ← List.append_assoc] at hrest
      have hpieces := ih (before ++ piece) hrest
      rw [Text.size_append, ← Nat.add_assoc] at hpieces
      exact List.forall_mem_cons.2 ⟨h.covers hrest, hpieces⟩

theorem flatten_cuts_of_step (h : c.step = .ok (some s)) : s.cuts.flatten = c.rest := by
  rw [← append_of_step h, Step.cuts, Step.pieces, Step.lexeme]
  simp

end Cursor

/-- What is cut out of a text on the way through it is in it, between two of its characters. -/
structure Text.Sliced (source : Text) : Prop where
  /-- Where the lexer stands, everything that is still left of the text, and every piece of that. -/
  rest {c : Cursor} : (Cursor.start source).Leads c → ∀ before piece after,
    before ++ piece ++ after = c.rest →
      Span.Covers ⟨c.offset + Text.size before, Text.size piece⟩ source piece
  /-- Where a tag is found: the text before it, the blanks that belong to it, what comes before the
  name, the name or content, what comes after it, the rest of the line and the rest of the text. -/
  step {c : Cursor} {s : Step} : (Cursor.start source).Leads c → c.step = .ok (some s) →
    ∀ p ∈ laidOut c.offset s.cuts, p.1.Covers source p.2
  /-- Where a tag cannot be read: what there is of it. -/
  fault {c : Cursor} {e : Error} : (Cursor.start source).Leads c → c.step = .error e →
    ∃ span piece, e.span = some span ∧ span.Covers source piece
  /-- What the parser reads for a token. -/
  tokens {token : Token} : token ∈ (Cursor.start source).tokens.1 → token.CutFrom source

/-- Whatever is cut out of a text is a piece of it, whether the text is well formed or not. -/
theorem Text.sliced (source : Text) : source.Sliced where
  rest := by
    intro c hleads before piece after hrest
    obtain ⟨passed, hfollows⟩ := hleads.exists_follows (Cursor.follows_start source)
    exact hfollows.covers hrest
  step := by
    intro c s hleads hs
    obtain ⟨passed, hfollows⟩ := hleads.exists_follows (Cursor.follows_start source)
    exact hfollows.covers_laidOut s.cuts [] (Cursor.flatten_cuts_of_step hs)
  fault := by
    intro c e hleads hs
    obtain ⟨cause, span, rfl, -, hopens⟩ := hleads.located_of_step hs
    obtain ⟨piece, hcovers, -⟩ := hopens.covers
    exact ⟨span, piece, rfl, hcovers⟩
  tokens := Cursor.cutFrom_of_mem_tokens

/-! ## Nodes and their text -/

namespace Node

/-- What stands in a section stands where the section does. -/
theorem Occurs.of_child {node : Node} {kind : SectionKind} {path : Path}
    {children nodes : List Node} (h : Occurs (.block kind path children) nodes)
    (hnode : Occurs node children) : Occurs node nodes := by
  induction h with
  | here hmem => exact .inside hmem hnode
  | inside hmem _ ih => exact .inside hmem ih

end Node

namespace Template

variable {t : Template} {partials : Text → Option Text} {source : Text} {nodes : List Node}

/-- The literals of a text that is compiled are pieces of it, and none of them is empty. -/
theorem Compiles.literal (h : t.Compiles partials source nodes) {span : Span}
    (hoccurs : Node.Occurs (.literal span) nodes) :
    0 < span.length ∧ ∃ piece, span.Covers source piece := by
  obtain ⟨token, htoken, hmark⟩ := hoccurs.exists_token h.parse_eq (List.mem_singleton.2 rfl)
  cases token with
  | text span' =>
      cases hmark
      exact Cursor.cutFrom_of_mem_tokens htoken
  | tag role name nameSpan span' indent => cases role <;> cases hmark

/-- The text is compiled with the template, and the node stands in it. -/
def HasNode (t : Template) (partials : Text → Option Text) (source : Text) (node : Node) : Prop :=
  ∃ nodes, t.Compiles partials source nodes ∧ Node.Occurs node nodes

/-- What stands in nodes of a text stands in the text. -/
theorem HasNode.of_occurs (h : ∀ node ∈ nodes, t.HasNode partials source node) {node : Node}
    (hoccurs : Node.Occurs node nodes) : t.HasNode partials source node := by
  cases hoccurs with
  | here hmem => exact h node hmem
  | inside hmem hnode =>
      obtain ⟨all, hcompiles, hblock⟩ := h _ hmem
      exact ⟨all, hcompiles, hblock.of_child hnode⟩

/-- The children of a section stand in the text that the section stands in. -/
theorem HasNode.children {kind : SectionKind} {path : Path} {children : List Node}
    (h : t.HasNode partials source (.block kind path children)) :
    ∀ child ∈ children, t.HasNode partials source child := by
  intro child hchild
  have hblock : ∀ node ∈ [.block kind path children], t.HasNode partials source node :=
    List.forall_mem_singleton.2 h
  exact .of_occurs hblock (.inside List.mem_cons_self (.here hchild))

end Template

section Tasks

variable (t : Template) (partials : Text → Option Text)

/-- The nodes that a task is about stand in the text that comes with them. -/
def Task.Stands : Task → Prop
  | .node source n => t.HasNode partials source n
  | .rounds source children _ => ∀ child ∈ children, t.HasNode partials source child
  | .leaveScope | .leavePartial => True

/-- The nodes of every task stand in the text that comes with them. -/
def Moment.Stands (m : Moment) : Prop :=
  ∀ task ∈ m.tasks, task.Stands t partials

end Tasks

variable {t : Template} {partials : Text → Option Text} {options : Options}

/-- Nodes that stand in a text may be put in front of the tasks together with it. -/
theorem Task.stands_ofNodes {source : Text} {nodes : List Node} {tasks : List Task}
    (h : ∀ node ∈ nodes, t.HasNode partials source node)
    (htasks : ∀ task ∈ tasks, task.Stands t partials) :
    ∀ task ∈ ofNodes source nodes ++ tasks, task.Stands t partials :=
  List.forall_mem_append.2 ⟨List.forall_mem_map.2 h, htasks⟩

namespace Moment

/-- A step keeps nodes with their text. -/
theorem Stands.moves {task : Task} {tasks : List Task} {context : Context} {opened : List Text}
    {m : Moment} (h : Stands t partials ⟨task :: tasks, context, opened⟩)
    (hmoves : Moves partials options ⟨tasks, context, opened⟩ task m) : m.Stands t partials := by
  obtain ⟨htask, htasks⟩ := List.forall_mem_cons.1 h
  cases hmoves with
  | pass => exact htasks
  | normal _ => exact List.forall_mem_cons.2 ⟨htask.children, htasks⟩
  | inverted => exact Task.stands_ofNodes htask.children htasks
  | inclusion hget _ hparse =>
      -- The text of a partial is a new one, and its nodes come with it.
      obtain ⟨all, hcompiles, hoccurs⟩ := htask
      have hpartial := hcompiles.inclusion hoccurs hget hparse
      have hleave : Task.Stands t partials .leavePartial := trivial
      have hrest := List.forall_mem_cons.2 ⟨hleave, htasks⟩
      exact Task.stands_ofNodes (fun node hnode => ⟨_, hpartial, .here hnode⟩) hrest
  | done => exact htasks
  | @round source children scope scopes =>
      have hleave : Task.Stands t partials .leaveScope := trivial
      have hrounds : Task.Stands t partials (.rounds source children scopes) := htask
      have hrest := List.forall_mem_cons.2 ⟨hleave, List.forall_mem_cons.2 ⟨hrounds, htasks⟩⟩
      exact Task.stands_ofNodes htask hrest
  | leaveScope => exact htasks
  | leavePartial => exact htasks

theorem stands_begin (t : Template) (partials : Text → Option Text) (v : Value) :
    (t.begin v).Stands t partials := by
  have hnodes : ∀ node ∈ t.nodes, t.HasNode partials t.source node :=
    fun node hnode => ⟨t.nodes, .template, .here hnode⟩
  exact List.forall_mem_map.2 hnodes

variable {σ : Type} [Sink σ]

/-- Any number of steps keep nodes with their text. -/
theorem Stands.reaches {a b : Moment × σ} (h : a.1.Stands t partials)
    (hreaches : Reaches partials options a b) : b.1.Stands t partials :=
  Reaches.preserves Stands.moves hreaches h

end Moment

/-- A rendering never takes a piece of a text that is not there, or one of another text.  Whatever
the limit on partials, at every moment the nodes to be rendered together with a text stand in it,
the text is the template or a partial as it is included, and the span of every literal in these
nodes, at any depth, is that of a piece of this text which is not empty.  The last of these moments
is where the rendering ends.  And of every text, well formed or not, nothing is cut out on the way
through it but pieces of it. -/
theorem Template.renderTo_sliced {σ : Type} [Sink σ] {τ : Type} [Partials τ] (t : Template)
    (partials : τ) (options : Options) (v : Value) (s : σ) :
    let table := Partials.get? partials
    (∃ last, Moment.Reaches table options.limited (t.begin v, s) last ∧
      Moment.Ends table options.limited last (t.renderTo partials options v s)) ∧
    (∀ limit m sink, Moment.Reaches table ⟨options.escaper, limit⟩ (t.begin v, s) (m, sink) →
      ∀ source nodes, Task.ofNodes source nodes ⊆ m.tasks →
        (∀ node ∈ nodes, t.HasNode table source node) ∧
          ∀ span, Node.Occurs (.literal span) nodes →
            0 < span.length ∧ ∃ piece, span.Covers source piece) ∧
    ∀ source : Text, source.Sliced := by
  intro table
  refine ⟨t.ends_limited partials options v s, ?_, Text.sliced⟩
  intro limit m sink hreaches source nodes hnodes
  have hstands : m.Stands t table := (Moment.stands_begin t table v).reaches hreaches
  have hnode : ∀ node ∈ nodes, t.HasNode table source node := fun node hmem =>
    hstands _ (hnodes (List.mem_map_of_mem hmem))
  refine ⟨hnode, fun span hoccurs => ?_⟩
  obtain ⟨all, hcompiles, hliteral⟩ := HasNode.of_occurs hnode hoccurs
  exact hcompiles.literal hliteral

end Mustache
