import Mustache.Proofs.BoundedSink
import Mustache.Proofs.Places

/-!
# The limit on partials

Partials may include each other, and themselves, and the limit on their depth is
what ends a rendering that would go on for ever.  A limit should do nothing else.
A rendering that stays below it must not notice it, and one that is stopped must
have been right up to there.

Two renderings with different limits are compared by what they write.  As long as
the smaller limit is not exceeded they write the same, piece by piece; where it is
exceeded, the one with the smaller limit ends and the other goes on.  So what the
smaller limit leaves of an output is either all of it or a beginning of it, with an
error at the end that says why.  `Output.Truncates` is this relation.  It holds of
outputs one after the other if it holds of each, and that carries it through nodes,
sections and partials.

## Main results

* `Output.Truncates.append`, `Output.Truncates.concat` — cutting short commutes
  with writing one output after the other;
* `Partials.truncates_output` — what a smaller limit makes of a partial;
* `Template.renderTo_partialDepth` — two renderings of a template with different
  limits.
-/

namespace Mustache

/-- The error says that partials are open too deep inside one another. -/
def Error.IsPartialLimit (e : Error) : Prop :=
  ∃ name limit, e.cause = .partialLimit name limit

theorem Error.not_isPartialLimit_of_isSyntactic {e : Error} (h : e.cause.isSyntactic = true) :
    ¬ e.IsPartialLimit := by
  rintro ⟨name, limit, hcause⟩
  rw [hcause] at h
  contradiction

/-! ## Outputs that are cut short -/

namespace Output

/-- What is left of the output `full` under a limit on partials: all of it, unless it ends because
of too deep partials, or a beginning of it and the error that the limit is exceeded. -/
inductive Truncates (limit : Nat) (full : Output) : Output → Prop
  | whole : (∀ e, full.error? = some e → ¬ e.IsPartialLimit) → Truncates limit full full
  | cut {text name : Text} : text <+: full.text →
    Truncates limit full ⟨text, some (.placeless (.partialLimit name limit))⟩

variable {limit : Nat} {a a' b b' : Output}

theorem text_isPrefix_append (a b : Output) : a.text <+: (a ++ b).text := by
  cases h : a.error? with
  | none =>
      rw [append_of_error?_eq_none h]
      exact List.prefix_append _ _
  | some e =>
      rw [append_of_error?_eq_some h]

/-- An output that ends well is there whole. -/
theorem Truncates.of_error?_eq_none (h : a.error? = none) : Truncates limit a a :=
  .whole (by simp [h])

/-- That data cannot be read has nothing to do with a limit. -/
theorem truncates_unreadable (limit : Nat) (reason : Text) :
    (ofError (.unreadable reason)).Truncates limit (ofError (.unreadable reason)) := by
  refine .whole fun e he => ?_
  cases he
  rintro ⟨name, limit', hcause⟩
  cases hcause

/-- Cutting short commutes with writing one output after the other. -/
theorem Truncates.append (ha : Truncates limit a a') (hb : Truncates limit b b') :
    Truncates limit (a ++ b) (a' ++ b') := by
  cases ha with
  | @cut text name hbegins =>
      have happend : (⟨text, some (.placeless (.partialLimit name limit))⟩ : Output) ++ b' =
          ⟨text, some (.placeless (.partialLimit name limit))⟩ :=
        append_of_error?_eq_some rfl b'
      rw [happend]
      exact .cut (hbegins.trans (text_isPrefix_append a b))
  | whole hfree =>
      cases h : a.error? with
      | some e =>
          rw [append_of_error?_eq_some h, append_of_error?_eq_some h]
          exact .whole hfree
      | none =>
          rw [append_of_error?_eq_none h, append_of_error?_eq_none h]
          cases hb with
          | whole hfree' => exact .whole hfree'
          | cut hbegins => exact .cut ((List.prefix_append_right_inj _).2 hbegins)

/-- Cutting short commutes with writing any number of outputs one after the other. -/
theorem Truncates.concat {α : Type} {f f' : α → Output}
    (h : ∀ x, Truncates limit (f x) (f' x)) (xs : List α) :
    Truncates limit (concat (xs.map f)) (concat (xs.map f')) := by
  induction xs with
  | nil => exact .of_error?_eq_none rfl
  | cons x xs ih => exact (h x).append ih

end Output

/-! ## Nodes and partials -/

/-- No limit on partials cuts a piece of a value short. -/
theorem Output.truncates_ofPiece (limit : Nat) (escaper : Option Escaper) (t : Text) :
    (ofPiece escaper t).Truncates limit (ofPiece escaper t) := by
  cases escaper with
  | none => exact .of_error?_eq_none rfl
  | some escaper =>
      refine .whole fun error herror => ?_
      simp only [ofPiece, Escaped.output] at herror
      split at herror
      · cases herror
      · cases herror
        rintro ⟨name, limit', hcause⟩
        cases hcause

/-- Nor a value as a whole. -/
theorem Value.truncates_output (limit : Nat) (escaper : Option Escaper) (v : Value) :
    (v.output escaper).Truncates limit (v.output escaper) := by
  unfold Value.output
  cases v.shown with
  | error reason => exact Output.truncates_unreadable limit reason
  | ok pieces => exact .concat (Output.truncates_ofPiece limit _) pieces

namespace Node

section Nodes

variable {limit : Nat} (escaper : Escaper) {inclusion inclusion' : Text → Text → Context → Output}
  (source : Text)

mutual

theorem truncates_output
    (hinclusion : ∀ name indent context,
      (inclusion name indent context).Truncates limit (inclusion' name indent context))
    (context : Context) (node : Node) :
    (output escaper inclusion source context node).Truncates limit
      (output escaper inclusion' source context node) := by
  cases node with
  | literal span => exact .of_error?_eq_none rfl
  | interpolation path escaped =>
      rw [output, output]
      cases context.resolve path with
      | nothing => exact .of_error?_eq_none rfl
      | found v => exact v.truncates_output limit _
      | failed reason => exact Output.truncates_unreadable limit reason
  | block kind path children =>
      cases kind with
      | normal =>
          rw [output, output]
          cases context.resolve path with
          | nothing => exact .of_error?_eq_none rfl
          | found v =>
              refine .concat (fun scope => ?_) v.scopes
              exact truncates_outputs hinclusion (scope :: context) children
          | failed reason => exact Output.truncates_unreadable limit reason
      | inverted =>
          rw [output, output]
          cases context.resolve path with
          | nothing => exact truncates_outputs hinclusion context children
          | found v =>
              simp only
              split
              · exact .of_error?_eq_none rfl
              · exact truncates_outputs hinclusion context children
          | failed reason => exact Output.truncates_unreadable limit reason
  | inclusion name indent =>
      rw [output, output]
      exact hinclusion name indent context

/-- If a limit cuts short what inclusions write, it cuts short what nodes write. -/
theorem truncates_outputs
    (hinclusion : ∀ name indent context,
      (inclusion name indent context).Truncates limit (inclusion' name indent context))
    (context : Context) (nodes : List Node) :
    (outputs escaper inclusion source context nodes).Truncates limit
      (outputs escaper inclusion' source context nodes) := by
  cases nodes with
  | nil => exact .of_error?_eq_none rfl
  | cons node nodes =>
      rw [outputs_cons, outputs_cons]
      exact (truncates_output hinclusion context node).append
        (truncates_outputs hinclusion context nodes)

end

end Nodes

end Node

/-- With less room a partial writes the same, or less and the error that the limit is exceeded. -/
theorem Partials.truncates_output (partials : Text → Option Text) (escaper : Escaper)
    {limit limit' room room' : Nat} (h : room ≤ room') (name indent : Text) (context : Context) :
    (output partials ⟨escaper, some limit'⟩ room' name indent context).Truncates limit
      (output partials ⟨escaper, some limit⟩ room name indent context) := by
  induction room generalizing room' name indent context with
  | zero =>
      rw [output, output]
      cases partials name with
      | none => exact .of_error?_eq_none rfl
      | some text => exact .cut (List.nil_prefix)
  | succ room ih =>
      obtain ⟨room', rfl⟩ : ∃ n, room' = n + 1 := ⟨room' - 1, by omega⟩
      have hle : room ≤ room' := by omega
      rw [output, output]
      cases partials name with
      | none => exact .of_error?_eq_none rfl
      | some text =>
          simp only
          cases hparse : Node.parse (Text.indent indent text) with
          | error e =>
              obtain ⟨cause, span, rfl, hcause, -⟩ := Node.exists_span_of_parse hparse
              refine .whole fun e he => ?_
              cases he
              exact Error.not_isPartialLimit_of_isSyntactic hcause
          | ok nodes =>
              exact Node.truncates_outputs escaper _ (fun name indent context =>
                ih hle name indent context) context nodes

/-! ## Writing what is left -/

namespace Output

/-- An output is written into an empty sink as a whole, or it does not fit and is refused. -/
theorem emit_empty (o : Output) (room : Option Nat) :
    (Mustache.outcome (o.emit (TextSink.empty room)) = o.outcome ∧
        (sinkAfter (o.emit (TextSink.empty room))).text = o.text ∧
        ∀ n, room = some n → Text.size o.text ≤ n) ∨
      ∃ n, room = some n ∧ n < Text.size o.text ∧
        Mustache.outcome (o.emit (TextSink.empty room)) = .error (.placeless .refusedOutput) ∧
        (sinkAfter (o.emit (TextSink.empty room))).text = (Text.fit n o.text).1 := by
  cases room with
  | none =>
      have hemit := o.emit_unbounded
      exact .inl ⟨hemit.1, hemit.2, nofun⟩
  | some n =>
      obtain ⟨houtcome, htext⟩ := o.emit_bounded n
      by_cases hfits : Text.size o.text ≤ n
      · rw [if_pos hfits] at houtcome
        rw [Text.fit_of_size_le hfits] at htext
        refine .inl ⟨houtcome, htext, ?_⟩
        intro m hm
        cases hm
        exact hfits
      · rw [if_neg hfits] at houtcome
        exact .inr ⟨n, rfl, Nat.lt_of_not_le hfits, houtcome, htext⟩

theorem not_isPartialLimit_refused : ¬ (Error.placeless .refusedOutput).IsPartialLimit := by
  rintro ⟨name, limit, hcause⟩
  cases hcause

/-- If an output ends because of a limit on partials wherever it is written, it was written whole. -/
theorem of_isPartialLimit {o : Output} {room : Option Nat} {e : Error}
    (he : Mustache.outcome (o.emit (TextSink.empty room)) = .error e) (hlimit : e.IsPartialLimit) :
    o.error? = some e ∧ (sinkAfter (o.emit (TextSink.empty room))).text = o.text ∧
      ∀ n, room = some n → Text.size o.text ≤ n := by
  rcases o.emit_empty room with ⟨houtcome, htext, hfits⟩ | ⟨n, -, -, houtcome, -⟩
  · rw [houtcome, outcome] at he
    cases herror : o.error? with
    | none =>
        rw [herror] at he
        cases he
    | some e' =>
        rw [herror] at he
        cases he
        exact ⟨rfl, htext, hfits⟩
  · rw [houtcome] at he
    cases he
    exact absurd hlimit not_isPartialLimit_refused

/-- An output and what a limit leaves of it, written into a sink that may have a limit of its own.
If the shorter one does not end because of the limit on partials, nothing was cut off that would
have been written. -/
theorem Truncates.emit_eq {limit : Nat} {full short : Output} (h : full.Truncates limit short)
    {room : Option Nat}
    (hshort : ∀ e, Mustache.outcome (short.emit (TextSink.empty room)) = .error e →
      ¬ e.IsPartialLimit) :
    Mustache.outcome (full.emit (TextSink.empty room)) =
        Mustache.outcome (short.emit (TextSink.empty room)) ∧
      (sinkAfter (full.emit (TextSink.empty room))).text =
        (sinkAfter (short.emit (TextSink.empty room))).text := by
  cases h with
  | whole hfree => exact ⟨rfl, rfl⟩
  | @cut text name hbegins =>
      obtain ⟨rest, hrest⟩ := hbegins
      generalize hs : (⟨text, some (.placeless (.partialLimit name limit))⟩ : Output) = short
        at hshort ⊢
      have htext : short.text = text := by rw [← hs]
      rcases short.emit_empty room with ⟨houtcome, -, -⟩ | ⟨n, hroom, hlt, houtcome, hwritten⟩
      · have hlimit : short.outcome = .error (.placeless (.partialLimit name limit)) := by
          rw [← hs]
          rfl
        rw [hlimit] at houtcome
        exact absurd ⟨name, limit, rfl⟩ (hshort _ houtcome)
      · rw [htext] at hlt hwritten
        have hlt' : n < Text.size full.text := by
          rw [← hrest, Text.size_append]
          omega
        rcases full.emit_empty room with ⟨-, -, hfits⟩ | ⟨m, hroom', -, houtcome', hwritten'⟩
        · have := hfits n hroom
          omega
        · rw [hroom] at hroom'
          cases hroom'
          rw [houtcome, houtcome', hwritten, hwritten', ← hrest, Text.fit_append_of_lt_size hlt]
          exact ⟨rfl, rfl⟩

/-- If an output ends because of a limit on partials, so does what a smaller limit leaves of it, and
that writes a beginning of what the output writes. -/
theorem Truncates.emit_isPrefix {limit : Nat} {full short : Output}
    (h : full.Truncates limit short) {room : Option Nat} {e : Error}
    (he : Mustache.outcome (full.emit (TextSink.empty room)) = .error e)
    (hlimit : e.IsPartialLimit) :
    (∃ name, Mustache.outcome (short.emit (TextSink.empty room)) =
        .error (.placeless (.partialLimit name limit))) ∧
      (sinkAfter (short.emit (TextSink.empty room))).text <+:
        (sinkAfter (full.emit (TextSink.empty room))).text := by
  obtain ⟨herror, hwritten, hfits⟩ := of_isPartialLimit he hlimit
  cases h with
  | whole hfree => exact absurd hlimit (hfree e herror)
  | @cut text name hbegins =>
      have hle : Text.size text ≤ Text.size full.text := by
        obtain ⟨rest, hrest⟩ := hbegins
        rw [← hrest, Text.size_append]
        exact Nat.le_add_right _ _
      rcases emit_empty ⟨text, some (.placeless (.partialLimit name limit))⟩ room with
        ⟨houtcome, htext, -⟩ | ⟨n, hroom, hlt, -, -⟩
      · rw [hwritten, htext]
        exact ⟨⟨name, houtcome⟩, hbegins⟩
      · have := hfits n hroom
        simp only at hlt
        omega

end Output

/-! ## Renderings with different limits -/

/-- A larger limit on partials matters only where the smaller one is exceeded.  If a rendering does
not end because partials are open too deep inside one another, it is the same with a larger limit.
And if it ends so with the larger limit, it also does with the smaller one, and what it wrote until
then is a beginning of what it wrote with the larger one. -/
theorem Template.renderTo_partialDepth {τ : Type} [Partials τ] (t : Template) (partials : τ)
    (escaper : Escaper) (v : Value) (room : Option Nat) {limit limit' : Nat}
    (h : limit < limit') :
    let run (limit : Nat) := t.renderTo partials ⟨escaper, some limit⟩ v (TextSink.empty room)
    ((∀ e, outcome (run limit) = .error e → ¬ e.IsPartialLimit) →
        outcome (run limit') = outcome (run limit) ∧
          (sinkAfter (run limit')).text = (sinkAfter (run limit)).text) ∧
      ∀ e, outcome (run limit') = .error e → e.IsPartialLimit →
        (∃ name, outcome (run limit) = .error (.placeless (.partialLimit name limit))) ∧
          (sinkAfter (run limit)).text <+: (sinkAfter (run limit')).text := by
  intro run
  have hrun (limit : Nat) : run limit =
      (t.output partials ⟨escaper, some limit⟩ v).emit (TextSink.empty room) := by
    rw [← renderTo_eq_emit]
  have htruncates : (t.output partials ⟨escaper, some limit'⟩ v).Truncates limit
      (t.output partials ⟨escaper, some limit⟩ v) :=
    Node.truncates_outputs escaper t.source
      (Partials.truncates_output (Partials.get? partials) escaper (Nat.le_of_lt h)) [v] t.nodes
  rw [hrun, hrun]
  refine ⟨htruncates.emit_eq, ?_⟩
  intro e he hlimit
  exact htruncates.emit_isPrefix he hlimit

/-- A partial that includes itself writes less with room for one than with room for two. -/
theorem Template.renderTo_partialDepth_of_recursion :
    let t : Template := ⟨"{{>p}}".toList, [.inclusion ['p'] []], by cbv⟩
    let partials : List (Text × Text) := [(['p'], "x{{>p}}".toList)]
    let run (limit : Nat) := t.renderTo partials ⟨.html, some limit⟩ .null (TextSink.empty none)
    1 < 2 ∧ outcome (run 2) = .error (.placeless (.partialLimit ['p'] 2)) ∧
      (∃ name, outcome (run 1) = .error (.placeless (.partialLimit name 1))) ∧
      (sinkAfter (run 1)).text <+: (sinkAfter (run 2)).text := by
  intro t partials run
  have hlimit : outcome (t.renderTo partials ⟨.html, some 2⟩ .null (TextSink.empty none)) =
      .error (.placeless (.partialLimit ['p'] 2)) := by cbv
  refine ⟨by decide, hlimit, ?_⟩
  exact (renderTo_partialDepth t partials .html .null none (by decide)).2 _ hlimit ⟨_, _, rfl⟩

end Mustache
