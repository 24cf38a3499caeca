import Mustache.Proofs.Places
import Mustache.Proofs.RenderingMachine

/-!
# Where errors point

The span of an error is worth something only together with the right text.  An
error of the template itself points into the template.  But a partial is put
together when a rendering comes to it, deep inside other partials maybe, and the
error of such a text passes through everything that was going on around it, where
there are other texts at hand.  The last of them, the text of the template, is
attached to every error that has a place and no text.  The one that belongs to the
error is the text at which the rendering stopped.

So where a rendering stops is what the statements here are about, and the machine
that renders one step at a time says it.  There are few reasons for a single step to
fail, and only one of them, a malformed partial, is about the form of a text.  The
machine ends where its last step fails, so the partial that this step came to is the
one that the error is about.  The machine attaches no text to anything; that the
rendering of a template has the same errors is `Template.renderTo_eq`.  Where no limit
on partials is set, it is the machine with the limit that stands in.

## Main results

* `Moment.Ends.placed` — a run that fails does so without a place, or at a partial,
  in whose text the error has its place;
* `error_placed` — the same of everything that compiles or renders.
-/

namespace Mustache

/-! ## What an error says about its place -/

/-- The text in the error is this one, and the span in the error opens a tag in it. -/
structure Error.PointsInto (e : Error) (source : Text) : Prop where
  source_eq : e.source = some source
  exists_span : ∃ span, e.span = some span ∧ span.OpensTag source

/-- An error about the form of a template is the error of one of these texts and points into it.
Any other error points nowhere. -/
structure Error.Placed (among : Text → Prop) (e : Error) : Prop where
  located : e.cause.isSyntactic = true →
    ∃ source, among source ∧ Node.parse source = .error e ∧ e.PointsInto source
  placeless : e.cause.isSyntactic = false → e.span = none ∧ e.source = none

namespace Error

variable {among : Text → Prop} {source : Text} {e : Error}

theorem Placed.mono {among' : Text → Prop} (h : e.Placed among)
    (hamong : ∀ source, among source → among' source) : e.Placed among' where
  located hsyntactic :=
    let ⟨source, hsource, hparse⟩ := h.located hsyntactic
    ⟨source, hamong source hsource, hparse⟩
  placeless := h.placeless

theorem placed_placeless {cause : Cause} (h : cause.isSyntactic = false) :
    (placeless cause).Placed among where
  located hsyntactic := Bool.noConfusion (h.symm.trans hsyntactic)
  placeless _ := ⟨rfl, rfl⟩

theorem placed_of_parse (hamong : among source) (h : Node.parse source = .error e) :
    e.Placed among := by
  obtain ⟨cause, span, rfl, hsyntactic, hopens⟩ := Node.exists_span_of_parse h
  constructor
  · intro _
    exact ⟨source, hamong, h, rfl, span, rfl, hopens⟩
  · intro hplaceless
    exact Bool.noConfusion (hplaceless.symm.trans hsyntactic)

end Error

/-! ## Where a run ends -/

namespace Moment

/-- The next step has to include a partial, and this is its text, indented as it is included. -/
inductive Includes (partials : Text → Option Text) : Moment → Text → Prop
  | intro {source name indent text : Text} {tasks : List Task} {context : Context}
    {opened : List Text} : partials name = some text →
    Includes partials ⟨.node source (.inclusion name indent) :: tasks, context, opened⟩
      (Text.indent indent text)

variable {σ : Type} [Sink σ] {partials : Text → Option Text} {options : Options}

/-- A run that fails does so without a place, or because of the partial that comes next. -/
theorem Ends.placed {last : Moment × σ} {e : Error} {s' : σ}
    (h : Ends partials options last (.error e s')) : e.Placed (last.1.Includes partials) := by
  cases h with
  | failed hstep =>
      cases fails_of_stepTask hstep with
      | refused => exact Error.placed_placeless rfl
      | unreadable reason => exact Error.placed_placeless rfl
      | full _ _ => exact Error.placed_placeless rfl
      | malformed hget hparse => exact Error.placed_of_parse (.intro hget) hparse

end Moment

/-! ## Templates -/

namespace Template

variable {τ : Type} [Partials τ]

/-- The rendering of the template into the sink ends where it has to include a partial, and this is
the text of the partial, indented as it is included. -/
def EndsAtPartial {σ : Type} [Sink σ] (t : Template) (partials : τ) (options : Options) (v : Value)
    (s : σ) (source : Text) : Prop :=
  let table := Partials.get? partials
  ∃ last, Moment.Reaches table options.limited (t.begin v, s) last ∧
    Moment.Ends table options.limited last (t.renderTo partials options v s) ∧
    last.1.Includes table source

variable {t : Template} {partials : τ} {options : Options} {v : Value} {e : Error}

theorem placed_of_renderTo {σ : Type} [Sink σ] {s s' : σ}
    (h : t.renderTo partials options v s = .error e s') :
    e.Placed (t.EndsAtPartial partials options v s) := by
  obtain ⟨last, hreaches, hends⟩ := t.ends_limited partials options v s
  rw [h] at hends
  refine hends.placed.mono fun source hincludes => ⟨last, hreaches, ?_, hincludes⟩
  rw [h]
  exact hends

theorem placed_of_renderWith (h : t.renderWith partials options v = .error e) :
    e.Placed (t.EndsAtPartial partials options v (TextSink.empty none)) := by
  unfold renderWith at h
  split at h
  · cases h
  · rename_i hrender
    cases h
    exact placed_of_renderTo hrender

/-- A stream reports its own failures without a place, and any other error as it is. -/
theorem placed_of_stream {σ : Type} [ByteStream σ] {s s' : σ}
    (h : t.stream partials options v s = some (.error e s')) :
    e.Placed (t.EndsAtPartial partials options v (StreamSink.mk s none)) := by
  unfold stream at h
  split at h
  · split at h
    · cases h
    · cases h
      exact Error.placed_placeless rfl
  · rename_i hrender
    split at h
    · cases h
    · cases h
      exact Error.placed_placeless rfl
    · cases h
      exact placed_of_renderTo hrender

end Template

/-! ## Compiling and rendering at once -/

section Texts

variable {source : Text} {τ : Type} [Partials τ] {partials : τ} {options : Options} {v : Value}
  {e : Error}

theorem Template.placed_of_compile (h : compile source = .error e) : e.Placed (· = source) :=
  Error.placed_of_parse rfl (compile_eq_error_iff.1 h)

/-- Compiling a text and rendering it stops at this text: at the text itself, or at that of a
partial which the rendering ends at. -/
def Text.StopsAt {σ : Type} [Sink σ] (source : Text) (partials : τ) (options : Options) (v : Value)
    (s : σ) (text : Text) : Prop :=
  text = source ∨ ∃ t : Template, t.source = source ∧ t.EndsAtPartial partials options v s text

variable {σ : Type} [Sink σ] {s : σ}

theorem Text.stopsAt_of_compile (h : Template.compile source = .error e) :
    e.Placed (source.StopsAt partials options v s) :=
  (Template.placed_of_compile h).mono fun _ => .inl

theorem Text.stopsAt_of_template {t : Template} (hcompile : Template.compile source = .ok t)
    (h : e.Placed (t.EndsAtPartial partials options v s)) :
    e.Placed (source.StopsAt partials options v s) :=
  h.mono fun _ hends => .inr ⟨t, Template.compile_eq_ok_iff.1 hcompile, hends⟩

end Texts

/-- Every error says where it belongs or names no place at all.  An error about the form of a
template has a span that is not empty, lies between characters of the text that comes with it, and
begins with the opening delimiter in force there.  For an error of the template itself that text is
the template.  For any other it is the text of the partial that the rendering ended at, indented as
it is included, and the error is that of this text.  An error about anything else has neither span
nor text.  This holds for compiling, and for every way of rendering: into any sink, to a string and
to any stream, with a compiled template or from its text. -/
theorem error_placed {τ : Type} [Partials τ] (source : Text) (partials : τ) (options : Options)
    (v : Value) :
    (∀ e, Template.compile source = .error e → e.Placed (· = source)) ∧
    (∀ t : Template,
      (∀ {σ : Type} [Sink σ] (s s' : σ) e, t.renderTo partials options v s = .error e s' →
        e.Placed (t.EndsAtPartial partials options v s)) ∧
      (∀ e, t.renderWith partials options v = .error e →
        e.Placed (t.EndsAtPartial partials options v (TextSink.empty none))) ∧
      ∀ {σ : Type} [ByteStream σ] (s s' : σ) e,
        t.stream partials options v s = some (.error e s') →
        e.Placed (t.EndsAtPartial partials options v (StreamSink.mk s none))) ∧
    (∀ {σ : Type} [Sink σ] (s s' : σ) e, renderTo source partials options v s = .error e s' →
      e.Placed (source.StopsAt partials options v s)) ∧
    (∀ e, renderWith source partials options v = .error e →
      e.Placed (source.StopsAt partials options v (TextSink.empty none))) ∧
    ∀ {σ : Type} [ByteStream σ] (s s' : σ) e,
      stream source partials options v s = some (.error e s') →
      e.Placed (source.StopsAt partials options v (StreamSink.mk s none)) := by
  refine ⟨fun _ => Template.placed_of_compile, fun t => ⟨fun _ _ _ => Template.placed_of_renderTo,
    fun _ => Template.placed_of_renderWith, fun _ _ _ => Template.placed_of_stream⟩, ?_, ?_, ?_⟩
  · intro σ _ s s' e h
    unfold renderTo at h
    cases hcompile : Template.compile source with
    | ok t =>
        rw [hcompile] at h
        exact Text.stopsAt_of_template hcompile (Template.placed_of_renderTo h)
    | error e' =>
        rw [hcompile] at h
        cases h
        exact Text.stopsAt_of_compile hcompile
  · intro e h
    unfold renderWith at h
    cases hcompile : Template.compile source with
    | ok t =>
        rw [hcompile] at h
        exact Text.stopsAt_of_template hcompile (Template.placed_of_renderWith h)
    | error e' =>
        rw [hcompile] at h
        cases h
        exact Text.stopsAt_of_compile hcompile
  · intro σ _ s s' e h
    unfold stream at h
    cases hcompile : Template.compile source with
    | ok t =>
        rw [hcompile] at h
        exact Text.stopsAt_of_template hcompile (Template.placed_of_stream h)
    | error e' =>
        rw [hcompile] at h
        cases h
        exact Text.stopsAt_of_compile hcompile

/-- A section is left open in a partial, behind a character of two bytes.  The error points into the
partial as it is indented, and names the tag there.  Where data cannot be read the error points
nowhere. -/
theorem error_placed_of_partial :
    let t : Template := ⟨"x\n  {{>p}}\n".toList,
      [.literal ⟨0, 2⟩, .inclusion ['p'] [' ', ' ']], by cbv⟩
    let u : Template := ⟨"{{x}}".toList, [.interpolation ⟨['x'], []⟩ true], by cbv⟩
    let table : List (Text × Text) := [(['p'], "é\n{{#s}}".toList)]
    let source : Text := "  é\n  {{#s}}".toList
    t.renderWith table {} (.ofData .unit) =
        .error ⟨.unclosedSection ['s'], some ⟨7, 6⟩, some source⟩ ∧
      Span.OpensTag ⟨7, 6⟩ source ∧
      ∃ e, u.renderWith table {} (.ofData (.unreadable .record none ['?'])) = .error e ∧
        e.cause = .unreadableData ['?'] ∧ e.span = none ∧ e.source = none := by
  intro t u table source
  have h : t.renderWith table {} (.ofData .unit) =
      .error ⟨.unclosedSection ['s'], some ⟨7, 6⟩, some source⟩ := by
    cbv
  have h' : u.renderWith table {} (.ofData (.unreadable .record none ['?'])) =
      .error (.unreadable ['?']) := by
    cbv
  have hplaced := ((error_placed t.source table {} (.ofData .unit)).2.1 t).2.1 _ h
  have hplaced' := ((error_placed u.source table {} _).2.1 u).2.1 _ h'
  obtain ⟨source', -, -, hpoints⟩ := hplaced.located rfl
  obtain ⟨span, hspan, hopens⟩ := hpoints.exists_span
  cases hpoints.source_eq
  cases hspan
  exact ⟨h, hopens, _, h', rfl, hplaced'.placeless rfl⟩

end Mustache
