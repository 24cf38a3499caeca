import Mustache.Rendering
import Mustache.Sink.Stream

/-!
# Templates

A template is a text that has been checked: it comes with its nodes and with the
fact that these are the nodes of this text. So everything that can be wrong with
the text itself is found when it is compiled, before anything is written; what
remains for rendering are malformed or endless partials and output that is
refused.

`Template.renderTo` is the general way to render, into any sink. An error that has
a place but no text yet gets the text of the template; the errors of partials have
texts of their own by then. `renderWith` collects the output, and `stream` writes it
to a stream of bytes and reports a failure of the stream as such. A stream may keep
a rendering busy for ever, and then `stream` has no result.

Every way to render takes options, and where these set no limit on partials,
`Options.partialDepth` stands in for it. A statement about every choice of options says
of those without a limit what becomes of a rendering up to there.
`Template.ends_of_maxPartialDepth_eq_none`, about the machine that renders step by step,
says that this is what becomes of it with no limit at all, unless it comes up against
the one that stands in.

## Main results

* `compile_eq_ok_iff` — compiling a text gives the template of that text;
* `compile_eq_error_iff` — it fails exactly for the texts without nodes, for the
  same reason.
-/

namespace Mustache

/-- A text and its nodes. -/
structure Template where
  source : Text
  nodes : List Node
  parsed : Node.parse source = .ok nodes

namespace Template

/-- Checks a text. -/
def compile (source : Text) : Except Error Template :=
  match h : Node.parse source with
  | .error e => .error e
  | .ok nodes => .ok ⟨source, nodes, h⟩

theorem compile_eq_ok_iff {source : Text} {t : Template} :
    compile source = .ok t ↔ t.source = source := by
  obtain ⟨source', nodes, parsed⟩ := t
  rw [compile]
  constructor
  · split
    · nofun
    · rintro ⟨⟩
      rfl
  · rintro rfl
    split
    · rename_i h
      rw [h] at parsed
      cases parsed
    · rename_i h
      rw [h] at parsed
      cases parsed
      rfl

theorem compile_eq_error_iff {source : Text} {e : Error} :
    compile source = .error e ↔ Node.parse source = .error e := by
  rw [compile]
  split <;> simp_all

variable {τ : Type} [Partials τ]

/-- Renders a template into a sink. -/
def renderTo {σ : Type} [Sink σ] (t : Template) (partials : τ) (options : Options) (v : Value) :
    RenderM σ Unit := fun s =>
  let room := options.partialDepth
  match renderNodes options.escaper (renderPartial (Partials.get? partials) options room) t.source
    [v] t.nodes s with
  | .ok u s => .ok u s
  | .error e s => .error (e.withSource t.source) s

/-- The text of a template, rendered for a value. -/
def renderWith (t : Template) (partials : τ) (options : Options) (v : Value) :
    Except Error Text :=
  match t.renderTo partials options v (TextSink.empty none) with
  | .ok _ sink => .ok sink.text
  | .error e _ => .error e

/-- The text of a template, rendered for some data with no partials at hand. -/
def render (t : Template) (d : Data) : Except Error Text :=
  t.renderWith NoPartials.mk {} (.ofData d)

/-- Renders a template to a stream and flushes the stream. There is no result if the stream never
comes to an end with what is written to it. -/
def stream {σ : Type} [ByteStream σ] (t : Template) (partials : τ) (options : Options)
    (v : Value) (s : σ) : Option (EStateM.Result Error σ Unit) :=
  match t.renderTo partials options v (StreamSink.mk s none) with
  | .ok _ sink =>
    match ByteStream.flush sink.stream with
    | (.ok (), s) => some (.ok () s)
    | (.error fault, s) => some (.error (.placeless (.brokenStream fault)) s)
  | .error e sink =>
    match e.cause, sink.trouble with
    | _, some .stalled => none
    | .refusedOutput, some (.failed fault) =>
      some (.error (.placeless (.brokenStream fault)) sink.stream)
    | _, _ => some (.error e sink.stream)

end Template

/-! ## Compiling and rendering at once -/

variable {τ : Type} [Partials τ]

/-- Compiles a template and renders it into a sink. Nothing is written unless the whole template
is well formed. -/
def renderTo {σ : Type} [Sink σ] (source : Text) (partials : τ) (options : Options) (v : Value) :
    RenderM σ Unit :=
  match Template.compile source with
  | .ok t => t.renderTo partials options v
  | .error e => throw e

/-- Compiles a template and renders it for a value. -/
def renderWith (source : Text) (partials : τ) (options : Options) (v : Value) :
    Except Error Text := do
  (← Template.compile source).renderWith partials options v

/-- Compiles a template and renders it for some data with no partials at hand. -/
def render (source : Text) (d : Data) : Except Error Text := do
  (← Template.compile source).render d

/-- Compiles a template and renders it to a stream. -/
def stream {σ : Type} [ByteStream σ] (source : Text) (partials : τ) (options : Options)
    (v : Value) (s : σ) : Option (EStateM.Result Error σ Unit) :=
  match Template.compile source with
  | .ok t => t.stream partials options v s
  | .error e => some (.error e s)

end Mustache
