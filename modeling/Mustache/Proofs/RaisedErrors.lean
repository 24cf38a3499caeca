import Mustache.Template

/-!
# Errors that a rendering raises

Rendering passes on the errors of its parts, through sections, partials and the
template as a whole.  On the way out there are texts at hand that an error has
nothing to do with, and at the last station one of them, the text of the template,
is attached to the error in case that it points somewhere and has no text yet.

It never comes to that.  Whatever is raised while nodes are rendered either points
nowhere or is the error of a partial, and that has got the text of the partial where
this was parsed.  `Raises` says of a computation what errors it can raise.  It goes
from parts to the whole, and for the errors that a text can no longer be attached to
it shows that rendering a template is rendering its nodes.

## Main results

* `Raises.bind`, `Raises.forM` — one computation after the other raises what they
  raise;
* `raises_writeValue`, `raises_renderNodes`, `raises_renderPartial` — what the parts
  of a rendering raise;
* `Error.settled_of_parse` — the error of a text has this text;
* `Template.renderTo_eq` — rendering a template is rendering its nodes, and its text
  is attached to no error.
-/

namespace Mustache

/-- If the computation fails then with an error that has the property. -/
def Raises {σ α : Type} (P : Error → Prop) (computation : RenderM σ α) : Prop :=
  ∀ s e s', computation s = .error e s' → P e

section Computations

variable {σ α β : Type} {P : Error → Prop}

theorem raises_pure (a : α) : Raises P (pure a : RenderM σ α) := nofun

theorem raises_throw {e : Error} (h : P e) : Raises P (throw e : RenderM σ α) := by
  rintro s _ s' ⟨⟩
  exact h

theorem Raises.bind {m : RenderM σ α} {f : α → RenderM σ β} (hm : Raises P m)
    (hf : ∀ a, Raises P (f a)) : Raises P (m >>= f) := by
  intro s e s' h
  replace h : EStateM.bind m f s = .error e s' := h
  unfold EStateM.bind at h
  cases hr : m s with
  | ok a s'' =>
      rw [hr] at h
      exact hf a _ _ _ h
  | error e' s'' =>
      rw [hr] at h
      cases h
      exact hm _ _ _ hr

theorem Raises.forM {f : α → RenderM σ Unit} (hf : ∀ a, Raises P (f a)) (xs : List α) :
    Raises P (xs.forM f) := by
  induction xs with
  | nil => exact raises_pure ()
  | cons x xs ih => exact (hf x).bind fun _ => ih

end Computations

/-! ## Parts of a rendering -/

section Rendering

variable {σ : Type} [Sink σ] {P : Error → Prop}

theorem raises_writeText (hrefused : P (.placeless .refusedOutput)) (t : Text) :
    Raises P (writeText t : RenderM σ Unit) := by
  intro s e s' h
  unfold writeText at h
  split at h
  · cases h
  · cases h
    exact hrefused

theorem raises_writePiece (hrefused : P (.placeless .refusedOutput)) (escaper : Option Escaper)
    (t : Text) : Raises P (writePiece escaper t : RenderM σ Unit) := by
  cases escaper with
  | none => exact raises_writeText hrefused t
  | some escaper =>
      refine (Raises.forM (raises_writeText hrefused) _).bind fun _ => ?_
      split
      · exact raises_pure ()
      · exact raises_throw hrefused

/-- Writing a value fails because the output is refused, or because the value cannot be read. -/
theorem raises_writeValue (hrefused : P (.placeless .refusedOutput))
    (hunreadable : ∀ reason, P (.unreadable reason)) (escaper : Option Escaper) (v : Value) :
    Raises P (writeValue escaper v : RenderM σ Unit) := by
  unfold writeValue
  split
  · exact raises_throw (hunreadable _)
  · exact .forM (raises_writePiece hrefused _) _

variable {escaper : Escaper} {includePartial : Text → Text → Context → RenderM σ Unit}
  {source : Text}

mutual

theorem raises_renderNode (hrefused : P (.placeless .refusedOutput))
    (hunreadable : ∀ reason, P (.unreadable reason))
    (hinclude : ∀ name indent context, Raises P (includePartial name indent context))
    (context : Context) (node : Node) :
    Raises P (renderNode escaper includePartial source context node) := by
  cases node with
  | literal span => exact raises_writeText hrefused _
  | interpolation path escaped =>
      rw [renderNode]
      cases context.resolve path with
      | nothing => exact raises_pure ()
      | found v => exact raises_writeValue hrefused hunreadable _ v
      | failed reason => exact raises_throw (hunreadable reason)
  | block kind path children =>
      have hchildren (context : Context) := raises_renderNodes hrefused hunreadable hinclude context
        children
      cases kind with
      | normal =>
          rw [renderNode]
          cases context.resolve path with
          | nothing => exact raises_pure ()
          | found v => exact .forM (fun scope => hchildren (scope :: context)) v.scopes
          | failed reason => exact raises_throw (hunreadable reason)
      | inverted =>
          rw [renderNode]
          cases context.resolve path with
          | nothing => exact hchildren context
          | found v =>
              simp only
              split
              · exact raises_pure ()
              · exact hchildren context
          | failed reason => exact raises_throw (hunreadable reason)
  | inclusion name indent =>
      rw [renderNode]
      exact hinclude name indent context

/-- Nodes raise what their inclusions raise, besides the errors about output and data. -/
theorem raises_renderNodes (hrefused : P (.placeless .refusedOutput))
    (hunreadable : ∀ reason, P (.unreadable reason))
    (hinclude : ∀ name indent context, Raises P (includePartial name indent context))
    (context : Context) (nodes : List Node) :
    Raises P (renderNodes escaper includePartial source context nodes) := by
  cases nodes with
  | nil => exact raises_pure ()
  | cons node nodes =>
      exact (raises_renderNode hrefused hunreadable hinclude context node).bind fun _ =>
        raises_renderNodes hrefused hunreadable hinclude context nodes

end

theorem raises_renderPartial {partials : Text → Option Text} {options : Options}
    (hrefused : P (.placeless .refusedOutput)) (hunreadable : ∀ reason, P (.unreadable reason))
    (hlimit : ∀ name, P (.placeless (.partialLimit name options.partialDepth)))
    (hparse : ∀ source e, Node.parse source = .error e → P e) (room : Nat) (name indent : Text)
    (context : Context) :
    Raises P (renderPartial partials options room name indent context : RenderM σ Unit) := by
  induction room generalizing name indent context with
  | zero =>
      rw [renderPartial]
      cases partials name with
      | none => exact raises_pure ()
      | some text => exact raises_throw (hlimit name)
  | succ room ih =>
      rw [renderPartial]
      cases partials name with
      | none => exact raises_pure ()
      | some text =>
          simp only
          cases hnodes : Node.parse (Text.indent indent text) with
          | error e => exact raises_throw (hparse _ e hnodes)
          | ok nodes => exact raises_renderNodes hrefused hunreadable ih context nodes

end Rendering

/-! ## Errors that have their text -/

namespace Error

/-- No text can be attached to the error any more. -/
def Settled (e : Error) : Prop :=
  ∀ source, e.withSource source = e

theorem settled_placeless (cause : Cause) : (placeless cause).Settled :=
  fun source => withSource_of_span_eq_none rfl source

theorem settled_withSource (source : Text) (e : Error) : (e.withSource source).Settled :=
  fun other => withSource_withSource e source other

/-- The error of a text has got this text, if it points anywhere. -/
theorem settled_of_parse {source : Text} {e : Error} (h : Node.parse source = .error e) :
    e.Settled := by
  unfold Node.parse at h
  split at h
  split at h
  · cases h
    exact settled_withSource source _
  · cases h

end Error

namespace Template

variable {σ : Type} [Sink σ] {τ : Type} [Partials τ]

theorem settled_of_renderNodes (t : Template) (partials : τ) (options : Options) (v : Value) :
    Raises Error.Settled (renderNodes options.escaper
      (renderPartial (Partials.get? partials) options options.partialDepth) t.source [v] t.nodes :
        RenderM σ Unit) := by
  refine raises_renderNodes (Error.settled_placeless _) (fun _ => Error.settled_placeless _) ?_ [v]
    t.nodes
  exact raises_renderPartial (Error.settled_placeless _) (fun _ => Error.settled_placeless _)
    (fun _ => Error.settled_placeless _) (fun _ _ => Error.settled_of_parse) options.partialDepth

/-- Rendering a template is rendering its nodes.  Its text is attached to no error, since every
error that has a place comes with a text of its own. -/
theorem renderTo_eq (t : Template) (partials : τ) (options : Options) (v : Value) :
    (t.renderTo partials options v : RenderM σ Unit) = renderNodes options.escaper
      (renderPartial (Partials.get? partials) options options.partialDepth) t.source [v]
      t.nodes := by
  funext s
  rw [renderTo]
  split
  · rename_i h
    exact h.symm
  · rename_i e s' h
    rw [h, t.settled_of_renderNodes partials options v s e s' h]

end Template

end Mustache
