import Mustache.Proofs.Output

/-!
# Output with a limit

A sink with a limit takes whole characters while they fit and then refuses.  It
may refuse in the middle of anything: a literal, one piece of a value, an entity
that the escaper makes of a single character, the tenth round of a section
inside a partial.  Rendering must then stop, for a smaller character further on
might fit again.

With `Template.renderTo_eq_emit` all these places are one: the output of the
template is written as one text, and the limit falls somewhere in it.

## Main results

* `Text.fills_fit` — `Text.fit` takes the longest beginning that fits;
* `Output.emit_bounded` — what is left in a text sink with a limit after an
  output was written to it;
* `Template.renderTo_bounded` — with a limit a template writes as much of its
  whole output as fits, and fails for lack of room exactly if that is not all.
-/

namespace Mustache

namespace Text

/-- The text `taken` is the longest beginning of `t` that has at most `room` bytes. -/
structure Fills (room : Nat) (t taken : Text) : Prop where
  isPrefix : taken <+: t
  size_le : size taken ≤ room
  longest : ∀ other, other <+: t → size other ≤ room → other <+: taken

theorem fills_fit (room : Nat) (t : Text) : Fills room t (fit room t).1 where
  isPrefix := ⟨(fit room t).2, fit_append room t⟩
  size_le := size_fit_le room t
  longest := by
    rintro other ⟨r, rfl⟩ hle
    rw [fit_append_of_size_le hle]
    exact List.prefix_append _ _

end Text

/-! ## Writing into a sink with a limit -/

namespace Output

/-- With a limit the part of an output that fits is written.  If that is all of it, the output ends
as it would anyway. -/
theorem emit_bounded (o : Output) (n : Nat) :
    Mustache.outcome (o.emit (TextSink.empty (some n))) =
        (if Text.size o.text ≤ n then o.outcome else .error (.placeless .refusedOutput)) ∧
      (sinkAfter (o.emit (TextSink.empty (some n)))).text = (Text.fit n o.text).1 := by
  have hwrite : Sink.write o.text (TextSink.empty (some n)) =
      ((Text.fit n o.text).2.isEmpty,
        ⟨(Text.fit n o.text).1.reverse ++ [], some (n - Text.size (Text.fit n o.text).1)⟩) := rfl
  generalize hs : (⟨(Text.fit n o.text).1.reverse ++ [],
    some (n - Text.size (Text.fit n o.text).1)⟩ : TextSink) = s at hwrite
  have htext : s.text = (Text.fit n o.text).1 := by
    rw [← hs]
    simp [TextSink.text]
  by_cases h : Text.size o.text ≤ n
  · rw [Text.fit_of_size_le h] at hwrite
    have hemit : o.emit (TextSink.empty (some n)) = raise o.error? s := by
      simp [emit, writeText, bind, EStateM.bind, hwrite]
    obtain ⟨houtcome, hsink⟩ := raise_eq o s
    rw [hemit, if_pos h]
    refine ⟨houtcome, ?_⟩
    rw [hsink, htext]
  · have hrest : (Text.fit n o.text).2.isEmpty = false :=
      List.isEmpty_eq_false_iff.2 (Text.fit_snd_ne_nil_of_lt_size (Nat.lt_of_not_le h))
    rw [hrest] at hwrite
    have hemit : o.emit (TextSink.empty (some n)) = .error (.placeless .refusedOutput) s := by
      simp [emit, writeText, bind, EStateM.bind, hwrite]
    rw [hemit, if_neg h]
    exact ⟨rfl, htext⟩

end Output

/-- Rendering into a sink with a limit writes the longest beginning of the whole output that fits
into the limit, in whole characters.  It ends as the rendering without a limit does if the whole
output fits, and otherwise with the error that output was refused. -/
theorem Template.renderTo_bounded {τ : Type} [Partials τ] (t : Template) (partials : τ)
    (options : Options) (v : Value) (n : Nat) :
    let full := t.renderTo partials options v (TextSink.empty none)
    let bounded := t.renderTo partials options v (TextSink.empty (some n))
    Text.Fills n (sinkAfter full).text (sinkAfter bounded).text ∧
      outcome bounded =
        if Text.size (sinkAfter full).text ≤ n then outcome full
        else .error (.placeless .refusedOutput) := by
  intro full bounded
  have hfull : full = (t.output partials options v).emit (TextSink.empty none) := by
    rw [← renderTo_eq_emit]
  have hbounded : bounded = (t.output partials options v).emit (TextSink.empty (some n)) := by
    rw [← renderTo_eq_emit]
  obtain ⟨hout, htext⟩ := (t.output partials options v).emit_unbounded
  obtain ⟨hout', htext'⟩ := (t.output partials options v).emit_bounded n
  rw [hfull, hbounded, htext, htext', hout, hout']
  exact ⟨Text.fills_fit n _, rfl⟩

end Mustache
