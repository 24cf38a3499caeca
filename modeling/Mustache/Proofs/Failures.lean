import Mustache.Proofs.Output
import Mustache.Proofs.Places

/-!
# How a rendering fails

A rendering can fail of itself, or because the place that its output goes to
refuses some of it.  What it does of itself is in its output, so the first kind of
failure can be told without a sink.  There are four reasons for it: an escaper
that refuses to go on, data that cannot be read, a partial inside too many others,
and a partial that is malformed.  Sections have none to add; they pass on what their
parts report.

## Main results

* `Node.failsOnly_outputs` — nodes fail as their escaped texts and their inclusions do;
* `Template.failsOnly_output` — a template fails of itself for one of the four
  reasons.
-/

namespace Mustache

/-- The errors that a rendering ends with of itself. -/
inductive Failure (partials : Text → Option Text) (options : Options) : Error → Prop
  /-- The escaper refuses to go on after a text. -/
  | refused {t : Text} : (options.escaper t).accepted = false →
    Failure partials options (.placeless .refusedOutput)
  /-- Something in the data cannot be read. -/
  | unreadable (reason : Text) : Failure partials options (.unreadable reason)
  /-- There is a partial, and too many others around it. -/
  | limit {name text : Text} : partials name = some text →
    Failure partials options (.placeless (.partialLimit name options.partialDepth))
  /-- There is a partial, and indented it is malformed. -/
  | malformed {name text indent : Text} {e : Error} : partials name = some text →
    Node.parse (Text.indent indent text) = .error e → Failure partials options e

/-- With an escaper that always goes on, a rendering does not report refused output of itself. -/
theorem Failure.cause_ne_refusedOutput {partials : Text → Option Text} {options : Options}
    {e : Error} (h : Failure partials options e)
    (haccepts : ∀ t, (options.escaper t).accepted = true) : e.cause ≠ .refusedOutput := by
  cases h with
  | @refused t hrefused =>
      rw [haccepts t] at hrefused
      cases hrefused
  | unreadable reason => nofun
  | limit _ => nofun
  | malformed _ hparse =>
      obtain ⟨cause, span, rfl, hsyntactic, -⟩ := Node.exists_span_of_parse hparse
      rintro rfl
      cases hsyntactic

namespace Output

/-- An error in the output has the property. -/
def FailsOnly (P : Error → Prop) (o : Output) : Prop :=
  ∀ e, o.error? = some e → P e

variable {P : Error → Prop}

theorem failsOnly_nothing : nothing.FailsOnly P := nofun

theorem failsOnly_ofText (t : Text) : (ofText t).FailsOnly P := nofun

theorem failsOnly_ofError {e : Error} (h : P e) : (ofError e).FailsOnly P := by
  rintro e' ⟨⟩
  exact h

/-- One output after the other fails as one of them does. -/
theorem FailsOnly.append {a b : Output} (ha : a.FailsOnly P) (hb : b.FailsOnly P) :
    (a ++ b).FailsOnly P := by
  cases h : a.error? with
  | none =>
      rw [append_of_error?_eq_none h]
      exact hb
  | some e =>
      rw [append_of_error?_eq_some h]
      exact ha

theorem FailsOnly.concat {α : Type} {f : α → Output} (h : ∀ x, (f x).FailsOnly P) (xs : List α) :
    (concat (xs.map f)).FailsOnly P := by
  induction xs with
  | nil => exact failsOnly_nothing
  | cons x xs ih => exact (h x).append ih

end Output

section Values

variable {P : Error → Prop} {escaper : Escaper}

/-- What the escaper writes fails only if it refuses to go on. -/
theorem Escaped.failsOnly_output
    (h : ∀ t, (escaper t).accepted = false → P (.placeless .refusedOutput)) (t : Text) :
    (escaper t).output.FailsOnly P := by
  intro e he
  unfold output at he
  cases haccepted : (escaper t).accepted with
  | true => simp [haccepted] at he
  | false =>
      rw [haccepted] at he
      cases he
      exact h t haccepted

theorem Value.failsOnly_output
    (h : ∀ t, (escaper t).accepted = false → P (.placeless .refusedOutput))
    (hunreadable : ∀ reason, P (.unreadable reason)) (escaped : Bool) (v : Value) :
    (v.output (if escaped then some escaper else none)).FailsOnly P := by
  have hpiece (t : Text) :
      (Output.ofPiece (v.escaper (if escaped then some escaper else none)) t).FailsOnly P := by
    unfold Value.escaper
    cases escaped with
    | true =>
        cases v with
        | raw markup => exact Output.failsOnly_ofText t
        | _ => exact Escaped.failsOnly_output h t
    | false => cases v <;> exact Output.failsOnly_ofText t
  unfold Value.output
  cases v.shown with
  | error reason => exact Output.failsOnly_ofError (hunreadable reason)
  | ok pieces => exact .concat hpiece pieces

end Values

/-! ## Nodes and partials -/

namespace Node

section Nodes

variable {P : Error → Prop} {escaper : Escaper} {inclusion : Text → Text → Context → Output}
  (source : Text)

mutual

theorem failsOnly_output
    (hescaper : ∀ t, (escaper t).accepted = false → P (.placeless .refusedOutput))
    (hunreadable : ∀ reason, P (.unreadable reason))
    (hinclusion : ∀ name indent context, (inclusion name indent context).FailsOnly P)
    (context : Context) (node : Node) :
    (output escaper inclusion source context node).FailsOnly P := by
  cases node with
  | literal span => exact Output.failsOnly_ofText _
  | interpolation path escaped =>
      rw [output]
      cases context.resolve path with
      | nothing => exact Output.failsOnly_nothing
      | found v => exact v.failsOnly_output hescaper hunreadable escaped
      | failed reason => exact Output.failsOnly_ofError (hunreadable reason)
  | block kind path children =>
      have hchildren (context : Context) :=
        failsOnly_outputs hescaper hunreadable hinclusion context children
      cases kind with
      | normal =>
          rw [output]
          cases context.resolve path with
          | nothing => exact Output.failsOnly_nothing
          | found v => exact .concat (fun scope => hchildren (scope :: context)) v.scopes
          | failed reason => exact Output.failsOnly_ofError (hunreadable reason)
      | inverted =>
          rw [output]
          cases context.resolve path with
          | nothing => exact hchildren context
          | found v =>
              simp only
              split
              · exact Output.failsOnly_nothing
              · exact hchildren context
          | failed reason => exact Output.failsOnly_ofError (hunreadable reason)
  | inclusion name indent =>
      rw [output]
      exact hinclusion name indent context

/-- Nodes fail as their escaped texts and their inclusions do. -/
theorem failsOnly_outputs
    (hescaper : ∀ t, (escaper t).accepted = false → P (.placeless .refusedOutput))
    (hunreadable : ∀ reason, P (.unreadable reason))
    (hinclusion : ∀ name indent context, (inclusion name indent context).FailsOnly P)
    (context : Context) (nodes : List Node) :
    (outputs escaper inclusion source context nodes).FailsOnly P := by
  cases nodes with
  | nil => exact Output.failsOnly_nothing
  | cons node nodes =>
      exact (failsOnly_output hescaper hunreadable hinclusion context node).append
        (failsOnly_outputs hescaper hunreadable hinclusion context nodes)

end

end Nodes

end Node

theorem Partials.failsOnly_output (partials : Text → Option Text) (options : Options) (room : Nat)
    (name indent : Text) (context : Context) :
    (output partials options room name indent context).FailsOnly (Failure partials options) := by
  induction room generalizing name indent context with
  | zero =>
      rw [output]
      cases hget : partials name with
      | none => exact Output.failsOnly_nothing
      | some text => exact Output.failsOnly_ofError (.limit hget)
  | succ room ih =>
      rw [output]
      cases hget : partials name with
      | none => exact Output.failsOnly_nothing
      | some text =>
          simp only
          cases hparse : Node.parse (Text.indent indent text) with
          | error e => exact Output.failsOnly_ofError (.malformed hget hparse)
          | ok nodes =>
              exact Node.failsOnly_outputs _ (fun _ => .refused) .unreadable ih context nodes

/-- A template fails of itself because its escaper refuses to go on, because of the data, which
cannot be read, or because of a partial: there are too many others around it, or it is malformed. -/
theorem Template.failsOnly_output {τ : Type} [Partials τ] (t : Template) (partials : τ)
    (options : Options) (v : Value) :
    (t.output partials options v).FailsOnly (Failure (Partials.get? partials) options) :=
  Node.failsOnly_outputs t.source (fun _ => .refused) .unreadable
    (Partials.failsOnly_output _ options options.partialDepth) [v] t.nodes

end Mustache
