import Mustache.Context
import Mustache.Escaper
import Mustache.Node.Parser
import Mustache.Partials
import Mustache.Sink
import Mustache.Text.Lines

/-!
# Rendering

Rendering walks the nodes of a template with the values in scope and writes into
a sink. It stops at the first error; what was written until then stays written.

Two recursions are involved, and each has its own measure. Inside one template it
is on the nodes. From a template into its partials it is on the number of
partials that may still be opened inside one another: a partial is compiled when
it is included, so that number is all that keeps a partial which includes itself
from going on for ever. Where no limit is set there is still one here, for
otherwise this recursion would have no measure. It is larger than the number of
bytes of any memory, so a rendering that comes up against it would not have got
that far; whatever is said about renderings with any options is said about those
without a limit in this sense.

## Main results

* `renderNodes_append` — nodes are rendered one after the other.
-/

namespace Mustache

/-- How many partials may be open inside one another, unless something else is asked for. -/
def defaultPartialDepth : Nat := 256

/-- How to render. -/
structure Options where
  /-- What the text of an escaped interpolation goes through. -/
  escaper : Escaper := .html
  /-- How many partials may be open inside one another, if there is a limit. -/
  maxPartialDepth : Option Nat := some defaultPartialDepth

namespace Options

/-- The limit on open partials. Where none is set it is beyond what any memory can hold, and stands
in for a rendering that goes on until the memory is used up. -/
def partialDepth (o : Options) : Nat :=
  o.maxPartialDepth.getD UInt64.size

end Options

/-- Writing into a sink, until an error. -/
abbrev RenderM (σ : Type) := EStateM Error σ

variable {σ : Type} [Sink σ]

/-! ## Text -/

/-- Writes a text. -/
def writeText (t : Text) : RenderM σ Unit := fun s =>
  match Sink.write t s with
  | (true, s) => .ok () s
  | (false, s) => .error (.placeless .refusedOutput) s

/-- Writes what an escaper makes of a text. -/
def writeEscaped (escaper : Escaper) (t : Text) : RenderM σ Unit := do
  let escaped := escaper t
  escaped.pieces.forM writeText
  if escaped.accepted then pure () else throw (.placeless .refusedOutput)

/-- Writes a piece of the text of a value, through an escaper if there is one. -/
def writePiece : Option Escaper → Text → RenderM σ Unit
  | none => writeText
  | some escaper => writeEscaped escaper

/-- The escaper that the text of a value goes through, if there is one. Markup goes through none. -/
def Value.escaper (v : Value) (escaper : Option Escaper) : Option Escaper :=
  match v with
  | .raw _ => none
  | _ => escaper

/-- Writes a value, piece by piece. -/
def writeValue (escaper : Option Escaper) (v : Value) : RenderM σ Unit :=
  match v.shown with
  | .error reason => throw (.unreadable reason)
  | .ok pieces => pieces.forM (writePiece (v.escaper escaper))

/-! ## Nodes -/

section Nodes

variable (escaper : Escaper) (includePartial : Text → Text → Context → RenderM σ Unit)
  (source : Text)

mutual

/-- Renders a node whose literals are spans of `source`. -/
def renderNode (context : Context) : Node → RenderM σ Unit
  | .literal span => writeText ((span.cut? source).getD [])
  | .interpolation path escaped =>
    match context.resolve path with
    | .nothing => pure ()
    | .found v => writeValue (if escaped then some escaper else none) v
    | .failed reason => throw (.unreadable reason)
  | .block .normal path children =>
    match context.resolve path with
    | .nothing => pure ()
    | .found v => v.scopes.forM fun scope => renderNodes (scope :: context) children
    | .failed reason => throw (.unreadable reason)
  | .block .inverted path children =>
    match context.resolve path with
    | .nothing => renderNodes context children
    | .found v => if v.isTruthy then pure () else renderNodes context children
    | .failed reason => throw (.unreadable reason)
  | .inclusion name indent => includePartial name indent context

/-- Renders nodes one after the other. -/
def renderNodes (context : Context) : List Node → RenderM σ Unit
  | [] => pure ()
  | node :: nodes => do
    renderNode context node
    renderNodes context nodes

end

@[simp] theorem renderNodes_nil (context : Context) :
    renderNodes escaper includePartial source context [] = pure () := rfl

@[simp] theorem renderNodes_cons (context : Context) (node : Node) (nodes : List Node) :
    renderNodes escaper includePartial source context (node :: nodes) = (do
      renderNode escaper includePartial source context node
      renderNodes escaper includePartial source context nodes) := rfl

theorem renderNodes_append (context : Context) (a b : List Node) :
    renderNodes escaper includePartial source context (a ++ b) = (do
      renderNodes escaper includePartial source context a
      renderNodes escaper includePartial source context b) := by
  induction a with
  | nil => simp
  | cons node a ih => simp [ih]

end Nodes

/-! ## Partials -/

/-- Renders the partial of a name with every line indented, if there is one and `room` for it:
the number of partials that may be opened inside one another from here on. -/
def renderPartial (partials : Text → Option Text) (options : Options) :
    (room : Nat) → (name indent : Text) → Context → RenderM σ Unit
  | room, name, indent, context =>
    match partials name with
    | none => pure ()
    | some text =>
      match room with
      | 0 => throw (.placeless (.partialLimit name options.partialDepth))
      | room + 1 =>
        let source := Text.indent indent text
        match Node.parse source with
        | .error e => throw e
        | .ok nodes =>
          renderNodes options.escaper (renderPartial partials options room) source context nodes

end Mustache
