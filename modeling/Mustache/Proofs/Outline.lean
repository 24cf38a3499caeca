import Mustache.Proofs.SectionStack
import Mustache.Template

/-!
# Outlines

Two templates may mean the same although their nodes are not equal: a literal is
a span, and a span says where in its own template a text stands.  Comparing two
templates therefore takes a common language for their nodes.  An outline is a
node in that language: it has the shape of the node, and of everything that is
not a section it keeps what a *reading* says, which may be nothing.

Outlines do not have to be computed from nodes.  `Draft` is a machine like
`Builder` that takes symbols instead of tokens and puts together outlines instead
of nodes; a symbol has no place, so neither have its errors.  `Builder.draft` maps
the states of the one machine to those of the other and commutes with their
steps.  Hence two templates have the same outlines, or fail for the same cause,
as soon as their tokens read as the same symbols, wherever they stand.

## Main results

* `Builder.draft_step`, `Builder.draft_foldlM` — the two machines run in step;
* `Node.outlines_parse` — the outlines of a template, and the cause of its
  error if it has none, come from the symbols of its tokens;
* `Node.renderNodes_eq_of_outlines_eq` — nodes with equal outlines, literals read
  as the texts that they cover, are rendered alike.
-/

namespace Mustache

/-! ## Outlines of nodes -/

/-- What stands in a template besides sections. -/
inductive Leaf
  /-- A literal, and the text that it covers if it covers one. -/
  | literal (text : Option Text)
  | interpolation (path : Path) (escaped : Bool)
  | inclusion (name indent : Text)
deriving DecidableEq, Repr

/-- The shape of a node, with leaves for everything but sections. -/
inductive Outline
  | leaf (l : Leaf)
  | block (kind : SectionKind) (path : Path) (children : List Outline)

/-- What is kept of a node that is no section. -/
abbrev Reading := Node → Option Leaf

/-- Everything is kept, and of a literal the text that it covers in `source`. -/
def Reading.covered (source : Text) : Reading
  | .literal span => some (.literal (span.cut? source))
  | .interpolation path escaped => some (.interpolation path escaped)
  | .inclusion name indent => some (.inclusion name indent)
  | .block _ _ _ => none

/-- Only tags are kept, and of an inclusion only the name. -/
def Reading.bare : Reading
  | .interpolation path escaped => some (.interpolation path escaped)
  | .inclusion name _ => some (.inclusion name [])
  | .literal _ | .block _ _ _ => none

namespace Node

mutual

/-- The outline of a node.  A node of which nothing is kept has none. -/
def outline (read : Reading) : Node → List Outline
  | .block kind path children => [.block kind path (outlines read children)]
  | .literal span => (read (.literal span)).toList.map .leaf
  | .interpolation path escaped => (read (.interpolation path escaped)).toList.map .leaf
  | .inclusion name indent => (read (.inclusion name indent)).toList.map .leaf

/-- The outlines of nodes, in order. -/
def outlines (read : Reading) : List Node → List Outline
  | [] => []
  | node :: nodes => outline read node ++ outlines read nodes

end

variable (read : Reading)

@[simp] theorem outlines_nil : outlines read [] = [] := rfl

@[simp] theorem outlines_cons (node : Node) (nodes : List Node) :
    outlines read (node :: nodes) = outline read node ++ outlines read nodes := rfl

@[simp] theorem outlines_append (a b : List Node) :
    outlines read (a ++ b) = outlines read a ++ outlines read b := by
  induction a with
  | nil => rfl
  | cons node a ih => rw [List.cons_append, outlines_cons, outlines_cons, ih, List.append_assoc]

theorem outlines_concat (nodes : List Node) (node : Node) :
    outlines read (nodes ++ [node]) = outlines read nodes ++ outline read node := by
  rw [outlines_append, outlines_cons, outlines_nil, List.append_nil]

end Node

/-! ## A machine that puts together outlines -/

/-- A token without its place. -/
inductive Symbol
  | leaf (l : Leaf)
  | opening (kind : SectionKind) (name : Text)
  | closing (name : Text)
deriving DecidableEq, Repr

/-- The symbol that a token reads as, if anything is kept of it. -/
def Token.symbol? (read : Reading) : Token → Option Symbol
  | .text span => (read (.literal span)).map .leaf
  | .tag (.interpolation escaped) name _ _ _ =>
    (read (.interpolation (.ofName name) escaped)).map .leaf
  | .tag .inclusion name _ _ indent => (read (.inclusion name indent)).map .leaf
  | .tag (.opening kind) name _ _ _ => some (.opening kind name)
  | .tag .closing name _ _ _ => some (.closing name)

/-- A section that was opened and is not closed yet. -/
structure Draft.Level where
  kind : SectionKind
  name : Text
  /-- The outlines before the section, on the level that it stands on. -/
  before : List Outline

/-- The state between two symbols. -/
structure Draft where
  /-- The open sections, the innermost first. -/
  levels : List Draft.Level
  /-- The outlines of the current level. -/
  outlines : List Outline

namespace Draft

/-- No section is open and there are no outlines. -/
def start : Draft := ⟨[], []⟩

/-- What one symbol does. -/
def step (d : Draft) : Symbol → Except Cause Draft
  | .leaf l => .ok { d with outlines := d.outlines ++ [.leaf l] }
  | .opening kind name =>
    if d.levels.length < maxSectionDepth then .ok ⟨⟨kind, name, d.outlines⟩ :: d.levels, []⟩
    else .error (.nestingLimit name maxSectionDepth)
  | .closing name =>
    match d.levels with
    | [] => .error (.unexpectedEnd name)
    | innermost :: levels =>
      if innermost.name = name then
        .ok ⟨levels, innermost.before ++ [.block innermost.kind (.ofName name) d.outlines]⟩
      else .error (.mismatchedEnd innermost.name name)

/-- What the end of the symbols does, where a fault may have ended them. -/
def finish (d : Draft) : Option Cause → Except Cause (List Outline)
  | some fault => .error fault
  | none =>
    match d.levels with
    | [] => .ok d.outlines
    | innermost :: _ => .error (.unclosedSection innermost.name)

/-- Takes one symbol after the other, and then the end. -/
def run (fault : Option Cause) (d : Draft) (symbols : List Symbol) :
    Except Cause (List Outline) :=
  (symbols.foldlM step d).bind fun d => d.finish fault

/-- Of a fault that ends the symbols only its kind shows in the kind of the error. -/
theorem code_run {fault fault' : Option Cause} (h : fault'.map Cause.code = fault.map Cause.code)
    (d : Draft) (symbols : List Symbol) :
    (d.run fault' symbols).mapError Cause.code = (d.run fault symbols).mapError Cause.code := by
  unfold run
  cases symbols.foldlM step d with
  | error e => rfl
  | ok last =>
      show (last.finish fault').mapError Cause.code = (last.finish fault).mapError Cause.code
      cases fault with
      | none =>
          have hnone : fault' = none := Option.map_eq_none_iff.1 h
          rw [hnone]
      | some cause =>
          obtain ⟨cause', rfl, hcode⟩ := Option.map_eq_some_iff.1 h
          exact congrArg Except.error hcode

end Draft

/-! ## The two machines in step -/

namespace Builder

variable (read : Reading)

/-- A state of the machine on tokens, as one of the machine on symbols. -/
def draft (b : Builder) : Draft where
  levels := b.levels.map fun l => ⟨l.kind, l.opening.name, Node.outlines read l.before⟩
  outlines := Node.outlines read b.nodes

@[simp] theorem draft_start : start.draft read = .start := rfl

@[simp] theorem length_levels_draft (b : Builder) :
    (b.draft read).levels.length = b.levels.length :=
  List.length_map ..

/-- Adding a node that is no section is taking its leaf, if it has one. -/
theorem draft_add (b : Builder) {node : Node}
    (h : Node.outline read node = (read node).toList.map .leaf) :
    Except.ok ((b.add node).draft read) =
      ((read node).map Symbol.leaf).toList.foldlM Draft.step (b.draft read) := by
  have hadd : (b.add node).draft read =
      { b.draft read with
        outlines := (b.draft read).outlines ++ (read node).toList.map .leaf } := by
    rw [← h]
    simp only [draft, add, Node.outlines_concat]
  rw [hadd]
  cases read node with
  | none => simp [pure, Except.pure]
  | some l => rfl

/-- One step of both machines. -/
theorem draft_step (b : Builder) (token : Token) :
    ((b.step token).map (draft read)).mapError Error.cause =
      (token.symbol? read).toList.foldlM Draft.step (b.draft read) := by
  cases token with
  | text span => exact draft_add read b rfl
  | tag role name nameSpan span indent =>
      cases role with
      | interpolation escaped => exact draft_add read b rfl
      | inclusion => exact draft_add read b rfl
      | opening kind =>
          show _ = (b.draft read).step (.opening kind name) >>= pure
          rw [bind_pure, step, opened, Draft.step, length_levels_draft]
          by_cases hdepth : b.levels.length < maxSectionDepth
          · rw [if_pos hdepth, if_pos hdepth]
            rfl
          · rw [if_neg hdepth, if_neg hdepth]
            rfl
      | closing =>
          show _ = (b.draft read).step (.closing name) >>= pure
          obtain ⟨levels, nodes⟩ := b
          rw [bind_pure, step, closed]
          cases levels with
          | nil => rfl
          | cons innermost levels =>
              simp only [Draft.step, draft, List.map_cons]
              by_cases hname : innermost.opening.name = name
              · rw [if_pos hname, if_pos hname]
                simp only [Except.map, Except.mapError, draft, Node.outlines_concat]
                rw [Node.outline]
              · rw [if_neg hname, if_neg hname]
                rfl

/-- Any number of steps of both machines. -/
theorem draft_foldlM (b : Builder) (tokens : List Token) :
    ((tokens.foldlM step b).map (draft read)).mapError Error.cause =
      (tokens.filterMap (Token.symbol? read)).foldlM Draft.step (b.draft read) := by
  induction tokens generalizing b with
  | nil => rfl
  | cons token tokens ih =>
      have hsymbols : (token :: tokens).filterMap (Token.symbol? read) =
          (token.symbol? read).toList ++ tokens.filterMap (Token.symbol? read) := by
        rw [List.filterMap_cons]
        cases token.symbol? read <;> rfl
      rw [hsymbols, List.foldlM_append, ← draft_step, List.foldlM_cons]
      cases b.step token with
      | error e => rfl
      | ok next => exact ih next

/-- The two machines come to the same end. -/
theorem draft_run (fault : Option Error) (b : Builder) (tokens : List Token) :
    ((b.run fault tokens).map (Node.outlines read)).mapError Error.cause =
      (b.draft read).run (fault.map Error.cause) (tokens.filterMap (Token.symbol? read)) := by
  rw [run, Draft.run, ← draft_foldlM]
  cases tokens.foldlM step b with
  | error e => rfl
  | ok last =>
      show ((last.finish fault).map (Node.outlines read)).mapError Error.cause =
        (last.draft read).finish (fault.map Error.cause)
      obtain ⟨levels, nodes⟩ := last
      cases fault with
      | some e => rfl
      | none => cases levels <;> rfl

end Builder

/-! ## The outlines of a template -/

namespace Node

theorem cause_withSource (source : Text) (e : Error) : (e.withSource source).cause = e.cause := by
  rw [Error.withSource]
  split <;> rfl

/-- The outlines of a template come from the symbols that its tokens read as, and so does the cause
of its error if it has one. -/
theorem outlines_parse (read : Reading) (source : Text) :
    ((parse source).map (outlines read)).mapError Error.cause =
      Draft.start.run ((Cursor.start source).tokens.2.map Error.cause)
        ((Cursor.start source).tokens.1.filterMap (Token.symbol? read)) := by
  rw [parse_eq_mapError_run, ← Builder.draft_start read, ← Builder.draft_run]
  cases Builder.start.run (Cursor.start source).tokens.2 (Cursor.start source).tokens.1 with
  | error e => exact congrArg Except.error (cause_withSource source e)
  | ok nodes => rfl

/-! ## Rendering outlines -/

theorem length_outline_covered (source : Text) (node : Node) :
    (outline (.covered source) node).length = 1 := by
  cases node <;> rfl

/-- Nodes one after the other have the same outlines only if each of them has. -/
theorem outlines_covered_cons_inj {source source' : Text} {node node' : Node}
    {nodes nodes' : List Node}
    (h : outlines (.covered source) (node :: nodes) =
      outlines (.covered source') (node' :: nodes')) :
    outline (.covered source) node = outline (.covered source') node' ∧
      outlines (.covered source) nodes = outlines (.covered source') nodes' := by
  have hlength : (outline (.covered source) node).length =
      (outline (.covered source') node').length := by
    rw [length_outline_covered, length_outline_covered]
  exact List.append_inj h hlength

variable {σ : Type} [Sink σ] (escaper : Escaper)
  (includePartial : Text → Text → Context → RenderM σ Unit) {source source' : Text}

mutual

/-- A node is rendered as its outline says, wherever its literals stand. -/
theorem renderNode_eq_of_outline_eq (context : Context) {node node' : Node}
    (h : outline (.covered source) node = outline (.covered source') node') :
    renderNode escaper includePartial source context node =
      renderNode escaper includePartial source' context node' := by
  cases node with
  | literal span =>
      cases node' with
      | literal span' =>
          have htext : span.cut? source = span'.cut? source' := by
            simpa [outline, Reading.covered] using h
          rw [renderNode, renderNode, htext]
      | _ => cases h
  | interpolation path escaped =>
      cases node' with
      | interpolation path' escaped' =>
          cases h
          rw [renderNode, renderNode]
      | _ => cases h
  | block kind path children =>
      cases node' with
      | block kind' path' children' =>
          obtain ⟨rfl, rfl, hchildren⟩ : kind = kind' ∧ path = path' ∧
              outlines (.covered source) children = outlines (.covered source') children' := by
            simpa [outline] using h
          have hrender (scopes : Context) :
              renderNodes escaper includePartial source scopes children =
                renderNodes escaper includePartial source' scopes children' :=
            renderNodes_eq_of_outlines_eq scopes hchildren
          cases kind with
          | normal => simp only [renderNode, hrender]
          | inverted => simp only [renderNode, hrender]
      | _ => cases h
  | inclusion name indent =>
      cases node' with
      | inclusion name' indent' =>
          cases h
          rw [renderNode, renderNode]
      | _ => cases h

/-- Nodes are rendered as their outlines say, wherever their literals stand. -/
theorem renderNodes_eq_of_outlines_eq (context : Context) {nodes nodes' : List Node}
    (h : outlines (.covered source) nodes = outlines (.covered source') nodes') :
    renderNodes escaper includePartial source context nodes =
      renderNodes escaper includePartial source' context nodes' := by
  cases nodes with
  | nil =>
      cases nodes' with
      | nil => rfl
      | cons node' nodes' =>
          have hlength := congrArg List.length h
          rw [outlines_nil, outlines_cons, List.length_append, length_outline_covered] at hlength
          rw [List.length_nil] at hlength
          omega
  | cons node nodes =>
      cases nodes' with
      | nil =>
          have hlength := congrArg List.length h
          rw [outlines_nil, outlines_cons, List.length_append, length_outline_covered] at hlength
          rw [List.length_nil] at hlength
          omega
      | cons node' nodes' =>
          obtain ⟨hnode, hnodes⟩ := outlines_covered_cons_inj h
          rw [renderNodes_cons, renderNodes_cons, renderNode_eq_of_outline_eq context hnode,
            renderNodes_eq_of_outlines_eq context hnodes]

end

end Node

end Mustache
