import Mustache.Proofs.RenderingMachine
import Mustache.Proofs.SectionStack

/-!
# How far rendering nests

A partial may include itself, and a value may contain itself many times over, so a
rendering can go on for long.  What must not grow without bounds is what it keeps
in the meantime.  Two limits see to that.  No more partials are open inside one
another than the options allow; and in the text of the template, and of each
partial, no more than `maxSectionDepth` sections are open at once, because there
are no nodes for a text in which more are.  So with room for `limit` partials there
are `limit + 1` texts at most that are in the middle of being rendered, and besides
the value that a template is rendered for there is at most one value in scope for
each section that is open in one of them.

The bound on sections is one on nodes, `Node.depth`, and it is shown of the machine
that puts nodes together.  Then `Task.Fits` says of the tasks of a rendering that
carrying them out stays below the bound that holds for as many partials as are open
at the time.  Every step keeps that.

## Main results

* `Node.depths_le_of_parse` — the sections of a text nest only so deep;
* `Moment.Bounded.moves` — a step keeps the bounds;
* `Template.renderTo_nesting` — with a limit on partials a rendering ends, and
  until then it stays within the bounds.
-/

namespace Mustache

/-! ## Sections in sections -/

namespace Node

mutual

/-- How many sections are inside one another in a node, the node itself counted in. -/
def depth : Node → Nat
  | .block _ _ children => depths children + 1
  | .literal _ | .interpolation _ _ | .inclusion _ _ => 0

/-- How many sections are inside one another in nodes. -/
def depths : List Node → Nat
  | [] => 0
  | node :: nodes => max (depth node) (depths nodes)

end

@[simp] theorem depths_nil : depths [] = 0 := rfl

@[simp] theorem depths_cons (node : Node) (nodes : List Node) :
    depths (node :: nodes) = max node.depth (depths nodes) := rfl

theorem depths_concat (nodes : List Node) (node : Node) :
    depths (nodes ++ [node]) = max (depths nodes) node.depth := by
  induction nodes with
  | nil => simp
  | cons first nodes ih => rw [List.cons_append, depths_cons, depths_cons, ih, Nat.max_assoc]

end Node

namespace Builder

/-- The nodes of a level, and those of the levels around it, nest no deeper than the number of open
sections allows. -/
def Shallow : List Level → List Node → Prop
  | [], nodes => Node.depths nodes ≤ maxSectionDepth
  | innermost :: levels, nodes =>
    Node.depths nodes + (innermost :: levels).length ≤ maxSectionDepth ∧
      Shallow levels innermost.before

theorem Shallow.depths_le {levels : List Level} {nodes : List Node} (h : Shallow levels nodes) :
    Node.depths nodes + levels.length ≤ maxSectionDepth := by
  cases levels with
  | nil => exact h
  | cons innermost levels => exact h.1

/-- A node that is not too deep may be added. -/
theorem Shallow.concat {levels : List Level} {nodes : List Node} (h : Shallow levels nodes)
    {node : Node} (hnode : node.depth + levels.length ≤ maxSectionDepth) :
    Shallow levels (nodes ++ [node]) := by
  have hnodes := h.depths_le
  cases levels with
  | nil =>
      simp only [Shallow, Node.depths_concat, List.length_nil] at hnodes hnode ⊢
      omega
  | cons innermost levels =>
      refine ⟨?_, h.2⟩
      rw [Node.depths_concat]
      omega

theorem Shallow.step {b b' : Builder} {token : Token} (h : Shallow b.levels b.nodes)
    (hstep : b.step token = .ok b') : Shallow b'.levels b'.nodes := by
  have hlevels := h.depths_le
  have hadd (node : Node) (hdepth : node.depth = 0) :
      Shallow (b.add node).levels (b.add node).nodes :=
    h.concat (by omega)
  cases moves_of_step hstep with
  | text => exact hadd _ rfl
  | interpolation => exact hadd _ rfl
  | inclusion => exact hadd _ rfl
  | opening kind name nameSpan span indent hroom =>
      refine ⟨?_, h⟩
      rw [Node.depths_nil, List.length_cons]
      omega
  | closing innermost levels nodes nameSpan span indent =>
      have hinner : Node.depths nodes + (levels.length + 1) ≤ maxSectionDepth := h.1
      refine h.2.concat ?_
      rw [Node.depth]
      omega

end Builder

/-- The sections of a text nest only so deep. -/
theorem Node.depths_le_of_parse {source : Text} {nodes : List Node}
    (h : parse source = .ok nodes) : depths nodes ≤ maxSectionDepth := by
  have hstart : Builder.Shallow Builder.start.levels Builder.start.nodes :=
    Nat.zero_le maxSectionDepth
  exact Builder.foldlM_keeps (I := fun b => Builder.Shallow b.levels b.nodes)
    (fun _ _ _ _ hshallow hstep => hshallow.step hstep) hstart (parse_eq_ok_iff.1 h).2

/-! ## The values in scope -/

/-- How many values may be in scope while so many partials are open. -/
def Context.bound (opened : Nat) : Nat :=
  1 + maxSectionDepth * (opened + 1)

theorem Context.bound_succ (opened : Nat) :
    bound (opened + 1) = bound opened + maxSectionDepth := by
  rw [bound, bound, Nat.mul_add maxSectionDepth (opened + 1) 1]
  omega

theorem Context.bound_le {opened limit : Nat} (h : opened ≤ limit) :
    bound opened ≤ bound limit :=
  Nat.add_le_add_left (Nat.mul_le_mul_left maxSectionDepth (Nat.succ_le_succ h)) 1

namespace Task

/-- With so many values in scope and so many partials open, the tasks can be carried out without
exceeding the bound on values, whatever the data. -/
def Fits (height opened : Nat) : List Task → Prop
  | [] => height ≤ Context.bound opened
  | .node _ n :: tasks => height + n.depth ≤ Context.bound opened ∧ Fits height opened tasks
  | .rounds _ children _ :: tasks =>
    height + (Node.depths children + 1) ≤ Context.bound opened ∧ Fits height opened tasks
  | .leaveScope :: tasks => height ≤ Context.bound opened ∧ Fits (height - 1) opened tasks
  | .leavePartial :: tasks => Fits height (opened - 1) tasks

variable {height opened : Nat} {tasks : List Task}

theorem Fits.height_le (h : Fits height opened tasks) : height ≤ Context.bound opened := by
  induction tasks generalizing height opened with
  | nil => exact h
  | cons task tasks ih =>
      cases task with
      | node source node => exact Nat.le_trans (Nat.le_add_right _ _) h.1
      | rounds source children scopes => exact Nat.le_trans (Nat.le_add_right _ _) h.1
      | leaveScope => exact h.1
      | leavePartial =>
          exact Nat.le_trans (ih h) (Context.bound_le (Nat.sub_le opened 1))

/-- Nodes that are not too deep may be put in front. -/
theorem Fits.ofNodes (h : Fits height opened tasks) (source : Text) {nodes : List Node}
    (hdepths : height + Node.depths nodes ≤ Context.bound opened) :
    Fits height opened (Task.ofNodes source nodes ++ tasks) := by
  induction nodes with
  | nil => exact h
  | cons node nodes ih =>
      rw [Node.depths_cons] at hdepths
      exact ⟨by omega, ih (by omega)⟩

end Task

namespace Moment

/-- At most `limit` partials are open, and what is in scope stays below the bound. -/
structure Bounded (limit : Nat) (m : Moment) : Prop where
  opened_le : m.opened.length ≤ limit
  fits : Task.Fits m.context.length m.opened.length m.tasks

/-- A step keeps the bounds. -/
theorem Bounded.moves {partials : Text → Option Text} {options : Options} {limit : Nat}
    (hlimit : options.maxPartialDepth = some limit) {task : Task} {tasks : List Task}
    {context : Context} {opened : List Text} {m : Moment}
    (h : Bounded limit ⟨task :: tasks, context, opened⟩)
    (hmoves : Moves partials options ⟨tasks, context, opened⟩ task m) : Bounded limit m := by
  have hopened : opened.length ≤ limit := h.opened_le
  have hfits : Task.Fits context.length opened.length (task :: tasks) := h.fits
  cases hmoves with
  | pass => exact ⟨hopened, hfits.2⟩
  | normal _ => exact ⟨hopened, hfits.1, hfits.2⟩
  | @inverted source path children =>
      have hdepths : context.length + (Node.depths children + 1) ≤ Context.bound opened.length :=
        hfits.1
      exact ⟨hopened, hfits.2.ofNodes source (by omega)⟩
  | @inclusion source name indent text nodes _ hroom hparse =>
      have hlt : opened.length < limit := by simpa [hlimit] using hroom
      have hheight := hfits.2.height_le
      have hdepths := Node.depths_le_of_parse hparse
      have hrest : Task.Fits context.length (opened.length + 1) (.leavePartial :: tasks) := hfits.2
      refine ⟨hlt, hrest.ofNodes _ ?_⟩
      rw [Context.bound_succ]
      omega
  | done => exact ⟨hopened, hfits.2⟩
  | @round source children scope scopes =>
      have hdepths : context.length + (Node.depths children + 1) ≤ Context.bound opened.length :=
        hfits.1
      have hrest : Task.Fits (context.length + 1) opened.length
          (.leaveScope :: .rounds source children scopes :: tasks) :=
        ⟨by omega, hfits⟩
      exact ⟨hopened, hrest.ofNodes source (by omega)⟩
  | leaveScope =>
      refine ⟨hopened, ?_⟩
      show Task.Fits context.tail.length opened.length tasks
      rw [List.length_tail]
      exact hfits.2
  | leavePartial =>
      constructor
      · show opened.tail.length ≤ limit
        rw [List.length_tail]
        exact Nat.le_trans (Nat.sub_le _ 1) hopened
      · show Task.Fits context.length opened.tail.length tasks
        rw [List.length_tail]
        exact hfits

variable {σ : Type} [Sink σ] {partials : Text → Option Text} {options : Options} {limit : Nat}

/-- Any number of steps keep the bounds. -/
theorem Bounded.reaches (hlimit : options.maxPartialDepth = some limit) {a b : Moment × σ}
    (h : Bounded limit a.1) (hreaches : Reaches partials options a b) : Bounded limit b.1 :=
  Reaches.preserves (fun hbounded hmoves => hbounded.moves hlimit hmoves) hreaches h

theorem bounded_begin (limit : Nat) (t : Template) (v : Value) : Bounded limit (t.begin v) := by
  refine ⟨Nat.zero_le limit, ?_⟩
  show Task.Fits 1 0 (Task.ofNodes t.source t.nodes)
  rw [← List.append_nil (Task.ofNodes t.source t.nodes)]
  have hdepths : 1 + Node.depths t.nodes ≤ Context.bound 0 :=
    Nat.add_le_add_left (Node.depths_le_of_parse t.parsed) 1
  have hnil : Task.Fits 1 0 [] := Nat.le_add_right 1 _
  exact hnil.ofNodes t.source hdepths

end Moment

/-- With a limit on partials a rendering comes to an end, in success or with an error, whatever the
template, the partials and the data: from every moment of it the machine comes to the same last
one, and the end there is that of `Template.renderTo`.  Until then no more partials are open inside
one another than the limit allows, and no more values are in scope than the sections of so many
texts and of the template can bring there. -/
theorem Template.renderTo_nesting {σ : Type} [Sink σ] {τ : Type} [Partials τ] (t : Template)
    (partials : τ) (escaper : Escaper) (limit : Nat) (v : Value) (s : σ) :
    let options : Options := ⟨escaper, some limit⟩
    let table := Partials.get? partials
    ∃ last, Moment.Ends table options last (t.renderTo partials options v s) ∧
      ∀ m sink, Moment.Reaches table options (t.begin v, s) (m, sink) →
        Moment.Reaches table options (m, sink) last ∧
          m.opened.length ≤ limit ∧ m.context.length ≤ 1 + maxSectionDepth * (limit + 1) := by
  intro options table
  obtain ⟨last, hlast, hends⟩ := t.ends_renderTo partials escaper limit v s
  refine ⟨last, hends, ?_⟩
  intro m sink hm
  have hbounded : m.Bounded limit :=
    Moment.Bounded.reaches rfl (Moment.bounded_begin limit t v) hm
  have hheight : m.context.length ≤ Context.bound limit :=
    Nat.le_trans hbounded.fits.height_le (Context.bound_le hbounded.opened_le)
  exact ⟨Moment.Reaches.of_ends hlast hends hm, hbounded.opened_le, hheight⟩

end Mustache
