import Mathlib.Logic.Relation
import Mustache.Proofs.RaisedErrors

/-!
# Rendering one step at a time

`renderNodes` and `renderPartial` are recursive functions.  They say what a
rendering writes and how it ends, but nothing about what goes on until then: how
many values are in scope in the meantime, or how many partials are open inside one
another.  Nor do they say why a rendering ends, since a definition by recursion has
to end to be one at all.

This file renders with a machine that has no recursion.  What is still to be done
is a list of tasks; there is one stack of values in scope, and one list of the
partials that are open.  A step takes the first task off the list and does a
little of it: it writes a literal or a value, or brings a value into scope, or
opens a partial and puts its nodes in front of the other tasks.  Whether there is
room for another partial is decided by counting the open ones.  Nothing keeps such
a machine from going on for ever, and without a limit on partials it may.

With a limit it comes to an end, and to the end that the recursive functions have.
`Moment.Performs` says what it is for a stretch of a run to do what a computation
does.  It holds of stretches one after the other if it holds of each, and the
recursion of `renderNodes` is followed by recursion, that of `renderPartial` by
induction on the room that is left.

## Main results

* `Moment.yields_stepTask` — what a step can do to a moment, and why it can fail;
* `Moment.Reaches.preserves` — what every step keeps, a run keeps;
* `Moment.Performs.trans` — stretches of a run, one after the other;
* `Moment.performs_nodes`, `Moment.performs_inclusion` — the machine does for nodes
  and for partials what the recursive functions do;
* `Template.ends_renderTo` — with a limit on partials the machine ends as
  `Template.renderTo` does;
* `Template.ends_limited` — with the limit that stands in where none is set it does so
  for any options;
* `Template.ends_of_maxPartialDepth_eq_none` — without any limit it ends as
  `Template.renderTo` does where that did not come up against the limit;
* `Moment.Reaches.of_ends` — from every moment of a run it comes to the same end.
-/

namespace Mustache

/-! ## The machine -/

/-- A piece of work that a rendering has before it. -/
inductive Task
  /-- Render a node whose literals are spans of `source`. -/
  | node (source : Text) (node : Node)
  /-- Render the children of a section for each of these values, one after the other. -/
  | rounds (source : Text) (children : List Node) (scopes : List Value)
  /-- Take the innermost value out of scope. -/
  | leaveScope
  /-- Go back from the innermost partial to the text that includes it. -/
  | leavePartial

/-- The tasks of rendering nodes. -/
def Task.ofNodes (source : Text) (nodes : List Node) : List Task :=
  nodes.map (.node source)

/-- Where a rendering stands between two steps. -/
structure Moment where
  /-- What is still to be done, in this order. -/
  tasks : List Task
  /-- The values in scope, the innermost first. -/
  context : Context
  /-- The names of the partials that are open inside one another, the innermost first. -/
  opened : List Text

namespace Moment

section Steps

variable {σ : Type} [Sink σ] (partials : Text → Option Text) (options : Options)

/-- Takes up a node: writes what it writes by itself, and puts the rest in front of the tasks. -/
def stepNode (source : Text) (m : Moment) : Node → RenderM σ Moment
  | .literal span => do
    writeText ((span.cut? source).getD [])
    return m
  | .interpolation path escaped =>
    match m.context.resolve path with
    | .nothing => pure m
    | .found v => do
      writeValue (if escaped then some options.escaper else none) v
      return m
    | .failed reason => throw (.unreadable reason)
  | .block .normal path children =>
    match m.context.resolve path with
    | .nothing => pure m
    | .found v => pure { m with tasks := .rounds source children v.scopes :: m.tasks }
    | .failed reason => throw (.unreadable reason)
  | .block .inverted path children =>
    match m.context.resolve path with
    | .nothing => pure { m with tasks := Task.ofNodes source children ++ m.tasks }
    | .found v =>
      if v.isTruthy then pure m
      else pure { m with tasks := Task.ofNodes source children ++ m.tasks }
    | .failed reason => throw (.unreadable reason)
  | .inclusion name indent =>
    match partials name with
    | none => pure m
    | some text =>
      if options.maxPartialDepth.any (· ≤ m.opened.length) then
        throw (.placeless (.partialLimit name options.partialDepth))
      else
        let source := Text.indent indent text
        match Node.parse source with
        | .error e => throw e
        | .ok nodes => pure
          { m with
            tasks := Task.ofNodes source nodes ++ .leavePartial :: m.tasks
            opened := name :: m.opened }

/-- Takes up a task that has been taken off the list. -/
def stepTask (m : Moment) : Task → RenderM σ Moment
  | .node source node => m.stepNode partials options source node
  | .rounds _ _ [] => pure m
  | .rounds source children (scope :: scopes) => pure
    { m with
      tasks := Task.ofNodes source children ++ .leaveScope :: .rounds source children scopes ::
        m.tasks
      context := scope :: m.context }
  | .leaveScope => pure { m with context := m.context.tail }
  | .leavePartial => pure { m with opened := m.opened.tail }

/-- What a step over a task that does not fail makes of the rest of the moment. -/
inductive Moves (m : Moment) : Task → Moment → Prop
  /-- A node that writes at most, or a section that renders nothing, or a partial that is not
  there. -/
  | pass {source : Text} {node : Node} : Moves m (.node source node) m
  | normal {source : Text} {path : Path} {children : List Node} {v : Value} :
    m.context.resolve path = .found v → Moves m (.node source (.block .normal path children))
      { m with tasks := .rounds source children v.scopes :: m.tasks }
  | inverted {source : Text} {path : Path} {children : List Node} :
    Moves m (.node source (.block .inverted path children))
      { m with tasks := Task.ofNodes source children ++ m.tasks }
  /-- A partial is opened only where the limit leaves room for it. -/
  | inclusion {source name indent text : Text} {nodes : List Node} :
    partials name = some text → options.maxPartialDepth.any (· ≤ m.opened.length) = false →
    Node.parse (Text.indent indent text) = .ok nodes →
    Moves m (.node source (.inclusion name indent))
      { m with
        tasks := Task.ofNodes (Text.indent indent text) nodes ++ .leavePartial :: m.tasks
        opened := name :: m.opened }
  | done {source : Text} {children : List Node} : Moves m (.rounds source children []) m
  | round {source : Text} {children : List Node} {scope : Value} {scopes : List Value} :
    Moves m (.rounds source children (scope :: scopes))
      { m with
        tasks := Task.ofNodes source children ++ .leaveScope :: .rounds source children scopes ::
          m.tasks
        context := scope :: m.context }
  | leaveScope : Moves m .leaveScope { m with context := m.context.tail }
  | leavePartial : Moves m .leavePartial { m with opened := m.opened.tail }

/-- What a step over a task reports if it fails. -/
inductive Fails (m : Moment) : Task → Error → Prop
  /-- The sink refused a text, or the escaper refused to go on. -/
  | refused {task : Task} : Fails m task (.placeless .refusedOutput)
  /-- What a node needs of the data cannot be read. -/
  | unreadable {source : Text} {node : Node} (reason : Text) :
    Fails m (.node source node) (.unreadable reason)
  /-- There is a partial, and no room for it. -/
  | full {source name indent text : Text} : partials name = some text →
    options.maxPartialDepth.any (· ≤ m.opened.length) = true →
    Fails m (.node source (.inclusion name indent))
      (.placeless (.partialLimit name options.partialDepth))
  /-- There is a partial, and indented it is malformed. -/
  | malformed {source name indent text : Text} {e : Error} : partials name = some text →
    Node.parse (Text.indent indent text) = .error e →
    Fails m (.node source (.inclusion name indent)) e

/-- What comes of a step over a task. -/
def Yields (m : Moment) (task : Task) : EStateM.Result Error σ Moment → Prop
  | .ok m' _ => Moves partials options m task m'
  | .error e _ => Fails partials options m task e

/-- One step leads from the one moment and sink to the other. -/
inductive Next : Moment × σ → Moment × σ → Prop
  | step {task : Task} {tasks : List Task} {context : Context} {opened : List Text} {s s' : σ}
    {m : Moment} : stepTask partials options ⟨tasks, context, opened⟩ task s = .ok m s' →
    Next (⟨task :: tasks, context, opened⟩, s) (m, s')

/-- Any number of steps lead from the one moment and sink to the other. -/
abbrev Reaches : Moment × σ → Moment × σ → Prop :=
  Relation.ReflTransGen (Next partials options)

/-- The rendering ends here: nothing is left to be done, or the next step fails. -/
inductive Ends : Moment × σ → EStateM.Result Error σ Unit → Prop
  | finished {context : Context} {opened : List Text} {s : σ} :
    Ends (⟨[], context, opened⟩, s) (.ok () s)
  | failed {task : Task} {tasks : List Task} {context : Context} {opened : List Text} {s s' : σ}
    {e : Error} : stepTask partials options ⟨tasks, context, opened⟩ task s = .error e s' →
    Ends (⟨task :: tasks, context, opened⟩, s) (.error e s')

end Steps

end Moment

/-- The moment at which the rendering of a template for a value begins. -/
def Template.begin (t : Template) (v : Value) : Moment :=
  ⟨Task.ofNodes t.source t.nodes, [v], []⟩

namespace Moment

variable {σ : Type} [Sink σ] {partials : Text → Option Text} {options : Options}

/-! ## What a step does -/

omit [Sink σ] in
theorem yields_write {computation : RenderM σ Unit} {m : Moment} {source : Text} {node : Node}
    (h : Raises (Fails partials options m (.node source node)) computation) (s : σ) :
    Yields partials options m (.node source node)
      ((do computation; return m : RenderM σ Moment) s) := by
  show Yields partials options m (.node source node)
    (EStateM.bind computation (fun _ => pure m) s)
  unfold EStateM.bind
  cases hc : computation s with
  | ok u s' => exact Moves.pass
  | error e s' => exact h _ _ _ hc

theorem yields_stepNode (m : Moment) (source : Text) (node : Node) (s : σ) :
    Yields partials options m (.node source node)
      (stepNode partials options source m node s) := by
  cases node with
  | literal span => exact yields_write (raises_writeText .refused _) s
  | interpolation path escaped =>
      rw [stepNode]
      cases m.context.resolve path with
      | nothing => exact Moves.pass
      | found v => exact yields_write (raises_writeValue .refused .unreadable _ v) s
      | failed reason => exact Fails.unreadable reason
  | block kind path children =>
      cases kind with
      | normal =>
          rw [stepNode]
          cases hv : m.context.resolve path with
          | nothing => exact Moves.pass
          | found v => exact Moves.normal hv
          | failed reason => exact Fails.unreadable reason
      | inverted =>
          rw [stepNode]
          cases m.context.resolve path with
          | nothing => exact Moves.inverted
          | found v =>
              simp only
              split
              · exact Moves.pass
              · exact Moves.inverted
          | failed reason => exact Fails.unreadable reason
  | inclusion name indent =>
      rw [stepNode]
      cases hget : partials name with
      | none => exact Moves.pass
      | some text =>
          simp only
          cases hfull : options.maxPartialDepth.any (· ≤ m.opened.length) with
          | true => exact Fails.full hget hfull
          | false =>
              rw [if_neg Bool.false_ne_true]
              cases hparse : Node.parse (Text.indent indent text) with
              | error e => exact Fails.malformed hget hparse
              | ok nodes => exact Moves.inclusion hget hfull hparse

/-- What comes of a step is one of the moves, or one of the failures. -/
theorem yields_stepTask (m : Moment) (task : Task) (s : σ) :
    Yields partials options m task (stepTask partials options m task s) := by
  cases task with
  | node source node => exact yields_stepNode m source node s
  | rounds source children scopes =>
      cases scopes with
      | nil => exact Moves.done
      | cons scope scopes => exact Moves.round
  | leaveScope => exact Moves.leaveScope
  | leavePartial => exact Moves.leavePartial

theorem moves_of_stepTask {task : Task} {m m' : Moment} {s s' : σ}
    (h : stepTask partials options m task s = .ok m' s') : Moves partials options m task m' := by
  have hyields : Yields partials options m task (stepTask partials options m task s) :=
    yields_stepTask m task s
  rwa [h] at hyields

theorem fails_of_stepTask {task : Task} {m : Moment} {e : Error} {s s' : σ}
    (h : stepTask partials options m task s = .error e s') : Fails partials options m task e := by
  have hyields : Yields partials options m task (stepTask partials options m task s) :=
    yields_stepTask m task s
  rwa [h] at hyields

/-- What every step keeps holds at every moment of a run that it holds at the beginning of. -/
theorem Reaches.preserves {P : Moment → Prop}
    (hmoves : ∀ {task tasks context opened m}, P ⟨task :: tasks, context, opened⟩ →
      Moves partials options ⟨tasks, context, opened⟩ task m → P m)
    {a b : Moment × σ} (hreaches : Reaches partials options a b) (h : P a.1) : P b.1 := by
  induction hreaches with
  | refl => exact h
  | tail _ hnext ih =>
      cases hnext with
      | step hstep => exact hmoves ih (moves_of_stepTask hstep)

/-! ## There is one way to go on -/

theorem next_rightUnique : Relator.RightUnique (Next (σ := σ) partials options) := by
  intro a b c hb hc
  cases hb with
  | step hb =>
      cases hc with
      | step hc =>
          rw [hb] at hc
          cases hc
          rfl

theorem Ends.not_next {a b : Moment × σ} {r : EStateM.Result Error σ Unit}
    (h : Ends partials options a r) : ¬ Next partials options a b := by
  intro hnext
  cases h with
  | finished => cases hnext
  | failed hfail =>
      cases hnext with
      | step hstep =>
          rw [hfail] at hstep
          cases hstep

/-- From every moment of a run that comes to an end it comes to this end. -/
theorem Reaches.of_ends {a last b : Moment × σ} {r : EStateM.Result Error σ Unit}
    (hlast : Reaches partials options a last) (hends : Ends partials options last r)
    (hb : Reaches partials options a b) : Reaches partials options b last := by
  rcases Relation.ReflTransGen.total_of_right_unique next_rightUnique hlast hb with h | h
  · rcases Relation.ReflTransGen.cases_head h with rfl | ⟨c, hnext, -⟩
    · exact .refl
    · exact absurd hnext hends.not_next
  · exact h

/-! ## Stretches of a run -/

/-- From the moment `a` on the machine does what the computation does, and comes to the moment `b`
unless the computation fails. -/
def Performs (partials : Text → Option Text) (options : Options) (a b : Moment)
    (computation : RenderM σ Unit) : Prop :=
  ∀ s, match computation s with
    | .ok _ s' => Reaches partials options (a, s) (b, s')
    | .error e s' => ∃ last, Reaches partials options (a, s) last ∧
        Ends partials options last (.error e s')

/-- Nothing is done in no steps. -/
theorem Performs.refl (a : Moment) :
    Performs partials options a a (pure () : RenderM σ Unit) :=
  fun _ => .refl

/-- One step. -/
theorem Performs.of_step {task : Task} {tasks : List Task} {context : Context}
    {opened : List Text} {b : Moment} {computation : RenderM σ Unit}
    (h : stepTask partials options ⟨tasks, context, opened⟩ task = (do computation; return b)) :
    Performs partials options ⟨task :: tasks, context, opened⟩ b computation := by
  intro s
  have hs : stepTask partials options ⟨tasks, context, opened⟩ task s =
      EStateM.bind computation (fun _ => pure b) s := congrFun h s
  unfold EStateM.bind at hs
  cases hc : computation s with
  | ok u s' =>
      rw [hc] at hs
      exact .single (.step hs)
  | error e s' =>
      rw [hc] at hs
      exact ⟨_, .refl, .failed hs⟩

/-- One stretch after the other does one computation after the other. -/
theorem Performs.trans {a b c : Moment} {first second : RenderM σ Unit}
    (hfirst : Performs partials options a b first)
    (hsecond : Performs partials options b c second) :
    Performs partials options a c (do first; second) := by
  intro s
  show match EStateM.bind first (fun _ => second) s with
    | .ok _ s' => Reaches partials options (a, s) (c, s')
    | .error e s' => ∃ last, Reaches partials options (a, s) last ∧
        Ends partials options last (.error e s')
  have hfirst := hfirst s
  unfold EStateM.bind
  cases hf : first s with
  | error e s' =>
      rw [hf] at hfirst
      exact hfirst
  | ok u s' =>
      rw [hf] at hfirst
      have hsecond := hsecond s'
      simp only
      cases hr : second s' with
      | ok u s'' =>
          rw [hr] at hsecond
          exact hfirst.trans hsecond
      | error e s'' =>
          rw [hr] at hsecond
          obtain ⟨last, hreaches, hends⟩ := hsecond
          exact ⟨last, hfirst.trans hreaches, hends⟩

/-- A step that writes nothing, and what comes after it. -/
theorem Performs.silent {task : Task} {tasks : List Task} {context : Context}
    {opened : List Text} {b c : Moment} {computation : RenderM σ Unit}
    (h : (stepTask partials options ⟨tasks, context, opened⟩ task : RenderM σ Moment) = pure b)
    (hrest : Performs partials options b c computation) :
    Performs partials options ⟨task :: tasks, context, opened⟩ c computation := by
  have hstep : Performs partials options ⟨task :: tasks, context, opened⟩ b
      (pure () : RenderM σ Unit) :=
    .of_step h
  exact hstep.trans hrest

/-! ## Nodes -/

section Nodes

variable {source : Text} {opened : List Text}
  {includePartial : Text → Text → Context → RenderM σ Unit}

/-- The rounds of a section, each with a value that is in scope for as long as the round lasts. -/
theorem performs_rounds {children : List Node} {context : Context}
    {round : Value → RenderM σ Unit}
    (h : ∀ scope tasks, Performs partials options
      ⟨Task.ofNodes source children ++ tasks, scope :: context, opened⟩
      ⟨tasks, scope :: context, opened⟩ (round scope)) (tasks : List Task)
    (scopes : List Value) :
    Performs partials options ⟨.rounds source children scopes :: tasks, context, opened⟩
      ⟨tasks, context, opened⟩ (scopes.forM round) := by
  induction scopes with
  | nil => exact .of_step rfl
  | cons scope scopes ih =>
      refine .silent rfl ?_
      exact (h scope _).trans (.silent rfl ih)

mutual

theorem performs_node
    (hinclude : ∀ name indent context tasks, Performs partials options
      ⟨.node source (.inclusion name indent) :: tasks, context, opened⟩
      ⟨tasks, context, opened⟩ (includePartial name indent context))
    (context : Context) (tasks : List Task) (node : Node) :
    Performs partials options ⟨.node source node :: tasks, context, opened⟩
      ⟨tasks, context, opened⟩
      (renderNode options.escaper includePartial source context node) := by
  cases node with
  | literal span => exact .of_step rfl
  | interpolation path escaped =>
      rw [renderNode]
      cases hv : context.resolve path with
      | nothing => exact .of_step (by simp only [stepTask, stepNode, hv]; rfl)
      | found v => exact .of_step (by simp only [stepTask, stepNode, hv])
      | failed reason => exact .of_step (by simp only [stepTask, stepNode, hv]; rfl)
  | block kind path children =>
      cases kind with
      | normal =>
          rw [renderNode]
          cases hv : context.resolve path with
          | nothing => exact .of_step (by simp only [stepTask, stepNode, hv]; rfl)
          | found v =>
              have hround (scope : Value) (tasks : List Task) :=
                performs_nodes hinclude (scope :: context) tasks children
              have hrounds := performs_rounds hround tasks v.scopes
              exact .silent (by simp only [stepTask, stepNode, hv]) hrounds
          | failed reason => exact .of_step (by simp only [stepTask, stepNode, hv]; rfl)
      | inverted =>
          rw [renderNode]
          have hchildren := performs_nodes hinclude context tasks children
          cases hv : context.resolve path with
          | nothing => exact .silent (by simp only [stepTask, stepNode, hv]) hchildren
          | found v =>
              simp only
              split
              · rename_i htruthy
                exact .of_step (by simp only [stepTask, stepNode, hv, htruthy]; rfl)
              · rename_i htruthy
                refine .silent (by simp only [stepTask, stepNode, hv, htruthy]; rfl) ?_
                exact hchildren
          | failed reason => exact .of_step (by simp only [stepTask, stepNode, hv]; rfl)
  | inclusion name indent =>
      rw [renderNode]
      exact hinclude name indent context tasks

/-- The machine does for nodes what `renderNodes` does, if it does for inclusions what
`includePartial` does. -/
theorem performs_nodes
    (hinclude : ∀ name indent context tasks, Performs partials options
      ⟨.node source (.inclusion name indent) :: tasks, context, opened⟩
      ⟨tasks, context, opened⟩ (includePartial name indent context))
    (context : Context) (tasks : List Task) (nodes : List Node) :
    Performs partials options ⟨Task.ofNodes source nodes ++ tasks, context, opened⟩
      ⟨tasks, context, opened⟩
      (renderNodes options.escaper includePartial source context nodes) := by
  cases nodes with
  | nil => exact .refl _
  | cons node nodes =>
      exact (performs_node hinclude context _ node).trans
        (performs_nodes hinclude context tasks nodes)

end

end Nodes

/-! ## Partials -/

/-- The machine does for an inclusion what `renderPartial` does, if the partials that are open and
those that there is room for add up to the limit. -/
theorem performs_inclusion {room : Nat} {opened : List Text}
    (hroom : options.maxPartialDepth = some (opened.length + room)) (source name indent : Text)
    (context : Context) (tasks : List Task) :
    Performs partials options ⟨.node source (.inclusion name indent) :: tasks, context, opened⟩
      ⟨tasks, context, opened⟩
      (renderPartial partials options room name indent context : RenderM σ Unit) := by
  induction room generalizing source opened name indent context tasks with
  | zero =>
      rw [renderPartial]
      cases hget : partials name with
      | none => exact .of_step (by simp only [stepTask, stepNode, hget]; rfl)
      | some text =>
          have hfull : options.maxPartialDepth.any (· ≤ opened.length) = true := by
            simp [hroom]
          exact .of_step (by simp only [stepTask, stepNode, hget, hfull]; rfl)
  | succ room ih =>
      rw [renderPartial]
      cases hget : partials name with
      | none => exact .of_step (by simp only [stepTask, stepNode, hget]; rfl)
      | some text =>
          have hfree : options.maxPartialDepth.any (· ≤ opened.length) = false := by
            simp [hroom]
          simp only
          cases hparse : Node.parse (Text.indent indent text) with
          | error e => exact .of_step (by simp only [stepTask, stepNode, hget, hfree, hparse]; rfl)
          | ok nodes =>
              have hopened : options.maxPartialDepth =
                  some ((name :: opened).length + room) := by
                rw [hroom, List.length_cons, Nat.add_right_comm]
                rfl
              have hinclude := ih hopened (Text.indent indent text)
              have hnodes := performs_nodes hinclude context (.leavePartial :: tasks) nodes
              have hboth := hnodes.trans (.silent rfl (.refl ⟨tasks, context, opened⟩))
              rw [bind_pure_unit] at hboth
              exact .silent (by simp only [stepTask, stepNode, hget, hfree, hparse]; rfl) hboth

end Moment

/-- With a limit on partials the machine comes to an end, and to that of `Template.renderTo`. -/
theorem Template.ends_renderTo {σ : Type} [Sink σ] {τ : Type} [Partials τ] (t : Template)
    (partials : τ) (escaper : Escaper) (limit : Nat) (v : Value) (s : σ) :
    ∃ last, Moment.Reaches (Partials.get? partials) ⟨escaper, some limit⟩ (t.begin v, s) last ∧
      Moment.Ends (Partials.get? partials) ⟨escaper, some limit⟩ last
        (t.renderTo partials ⟨escaper, some limit⟩ v s) := by
  have hroom : (⟨escaper, some limit⟩ : Options).maxPartialDepth =
      some (([] : List Text).length + limit) := by
    rw [List.length_nil, Nat.zero_add]
  have hinclude (name indent : Text) (context : Context) (tasks : List Task) :
      Moment.Performs (Partials.get? partials) ⟨escaper, some limit⟩
        ⟨.node t.source (.inclusion name indent) :: tasks, context, []⟩ ⟨tasks, context, []⟩
        (renderPartial (Partials.get? partials) ⟨escaper, some limit⟩ limit name indent context :
          RenderM σ Unit) :=
    Moment.performs_inclusion hroom t.source name indent context tasks
  have hperforms := Moment.performs_nodes hinclude [v] [] t.nodes s
  rw [List.append_nil] at hperforms
  rw [t.renderTo_eq partials ⟨escaper, some limit⟩ v]
  split at hperforms
  · rename_i u s' hresult
    rw [Options.partialDepth, Option.getD_some, hresult]
    exact ⟨_, hperforms, .finished⟩
  · rename_i e s' hresult
    rw [Options.partialDepth, Option.getD_some, hresult]
    exact hperforms

/-! ## Without a limit -/

/-- The same options, with the limit spelled out that stands in where none is set. -/
def Options.limited (o : Options) : Options :=
  ⟨o.escaper, some o.partialDepth⟩

theorem renderPartial_limited {σ : Type} [Sink σ] (partials : Text → Option Text)
    (options : Options) (room : Nat) :
    (renderPartial partials options.limited room : Text → Text → Context → RenderM σ Unit) =
      renderPartial partials options room := by
  funext name indent context
  induction room generalizing name indent context with
  | zero =>
      rw [renderPartial, renderPartial]
      rfl
  | succ room ih =>
      have hroom : (renderPartial partials options.limited room :
          Text → Text → Context → RenderM σ Unit) = renderPartial partials options room := by
        funext name indent context
        exact ih name indent context
      rw [renderPartial, renderPartial]
      simp only [hroom]
      rfl

/-- A rendering does not notice whether the limit that it obeys is spelled out. -/
theorem Template.renderTo_limited {σ : Type} [Sink σ] {τ : Type} [Partials τ] (t : Template)
    (partials : τ) (options : Options) (v : Value) :
    (t.renderTo partials options.limited v : RenderM σ Unit) = t.renderTo partials options v := by
  rw [renderTo_eq, renderTo_eq, renderPartial_limited]
  rfl

/-- With the limit spelled out, the machine ends as the rendering does, whatever the options. -/
theorem Template.ends_limited {σ : Type} [Sink σ] {τ : Type} [Partials τ] (t : Template)
    (partials : τ) (options : Options) (v : Value) (s : σ) :
    ∃ last, Moment.Reaches (Partials.get? partials) options.limited (t.begin v, s) last ∧
      Moment.Ends (Partials.get? partials) options.limited last
        (t.renderTo partials options v s) := by
  rw [← t.renderTo_limited]
  exact t.ends_renderTo partials options.escaper options.partialDepth v s

namespace Moment

variable {σ : Type} [Sink σ] {partials : Text → Option Text} {escaper : Escaper} {limit : Nat}

/-- A limit makes no difference to a step but to stop it. -/
theorem stepTask_of_limit (m : Moment) (task : Task) (s : σ) :
    (∃ name s', stepTask partials ⟨escaper, some limit⟩ m task s =
        .error (.placeless (.partialLimit name limit)) s') ∨
      stepTask partials ⟨escaper, none⟩ m task s =
        stepTask partials ⟨escaper, some limit⟩ m task s := by
  cases task with
  | node source node =>
      cases node with
      | inclusion name indent =>
          simp only [stepTask, stepNode]
          cases partials name with
          | none => exact .inr rfl
          | some text =>
              by_cases hfull : limit ≤ m.opened.length
              · have hany : (some limit).any (· ≤ m.opened.length) = true := decide_eq_true hfull
                simp only [hany, if_pos]
                exact .inl ⟨name, s, rfl⟩
              · have hany : (some limit).any (· ≤ m.opened.length) = false := decide_eq_false hfull
                simp only [hany, Option.any_none]
                exact .inr rfl
      | literal span => exact .inr rfl
      | interpolation path escaped => exact .inr rfl
      | block kind path children => cases kind <;> exact .inr rfl
  | rounds source children scopes => cases scopes <;> exact .inr rfl
  | leaveScope => exact .inr rfl
  | leavePartial => exact .inr rfl

theorem Reaches.of_limit {a b : Moment × σ}
    (h : Reaches partials ⟨escaper, some limit⟩ a b) : Reaches partials ⟨escaper, none⟩ a b := by
  induction h with
  | refl => exact .refl
  | tail _ hnext ih =>
      cases hnext with
      | @step task tasks context opened s s' m hstep =>
          rcases stepTask_of_limit ⟨tasks, context, opened⟩ task s with ⟨name, s', hfull⟩ | hsame
          · rw [hfull] at hstep
            cases hstep
          · exact ih.tail (.step (hsame.trans hstep))

theorem Ends.of_limit {last : Moment × σ} {r : EStateM.Result Error σ Unit}
    (h : Ends partials ⟨escaper, some limit⟩ last r)
    (hfree : ∀ e s', r = .error e s' → ∀ name limit, e.cause ≠ .partialLimit name limit) :
    Ends partials ⟨escaper, none⟩ last r := by
  cases h with
  | finished => exact .finished
  | @failed task tasks context opened s s' e hfail =>
      rcases stepTask_of_limit ⟨tasks, context, opened⟩ task s with ⟨name, s', hfull⟩ | hsame
      · rw [hfull] at hfail
        cases hfail
        exact absurd rfl (hfree _ _ rfl name limit)
      · exact .failed (hsame.trans hfail)

end Moment

/-- Where no limit is set, `Template.renderTo` has one all the same.  But the machine has none then,
and it comes to the same end, unless `Template.renderTo` came up against its limit. -/
theorem Template.ends_of_maxPartialDepth_eq_none {σ : Type} [Sink σ] {τ : Type} [Partials τ]
    (t : Template) (partials : τ) (escaper : Escaper) (v : Value) (s : σ)
    (h : ∀ e s', t.renderTo partials ⟨escaper, none⟩ v s = .error e s' →
      ∀ name limit, e.cause ≠ .partialLimit name limit) :
    ∃ last, Moment.Reaches (Partials.get? partials) ⟨escaper, none⟩ (t.begin v, s) last ∧
      Moment.Ends (Partials.get? partials) ⟨escaper, none⟩ last
        (t.renderTo partials ⟨escaper, none⟩ v s) := by
  obtain ⟨last, hreaches, hends⟩ := t.ends_limited partials ⟨escaper, none⟩ v s
  exact ⟨last, hreaches.of_limit, hends.of_limit h⟩

end Mustache
