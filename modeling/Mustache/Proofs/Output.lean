import Mustache.Proofs.RaisedErrors

/-!
# What a rendering writes, without a sink

Rendering is defined as a sequence of writes, because that is how it runs.  What
it writes does not depend on the sink, though, as long as nothing is refused, and
once a text is refused it writes nothing more.  So a rendering has a meaning of
its own: the text that it would write if it could, and the error that would end
it.  `Output` is this meaning, and `Template.output` computes it by recursion on
the nodes, with no sink in sight.

What it is for a computation to write an output depends on the sink.  Any such
notion that goes piece by piece, in the sense of `Output.Compositional`, reaches
from single writes to whole templates.  Two of them are used.  The first says that
the computation is the same as writing the text of the output at once and then
failing with its error; for this a sink must not care how a text is cut into
pieces, which is the law `LawfulSink`.  The second is about a sink that takes
everything and remembers it, in whatever way: `Sink.Records`.

## Main results

* `Output.Compositional.renderTo` — rendering a template writes its output;
* `Template.renderTo_eq_emit` — rendering a template into any lawful sink is
  writing its output;
* `Template.renderTo_records` — a sink that takes everything gets the text of the
  output;
* `Template.renderWith_eq_ok_iff` — collecting the output gives its text.
-/

namespace Mustache

/-! ## Sinks that do not care about pieces -/

/-- A sink that takes a text in two pieces just as it takes it at once.  What a failed write leaves
behind is up to the first piece that was refused. -/
class LawfulSink (σ : Type) [Sink σ] : Prop where
  write_nil (s : σ) : Sink.write [] s = (true, s)
  write_append (a b : Text) (s : σ) :
    Sink.write (a ++ b) s =
      match Sink.write a s with
      | (true, s) => Sink.write b s
      | (false, s) => (false, s)

namespace Text

theorem fit_append_of_size_le {room : Nat} {a : Text} (h : size a ≤ room) (b : Text) :
    fit room (a ++ b) = (a ++ (fit (room - size a) b).1, (fit (room - size a) b).2) := by
  induction a generalizing room with
  | nil => simp
  | cons c a ih =>
      rw [size_cons] at h
      rw [List.cons_append, fit_cons, if_pos (by omega), ih (by omega), size_cons, Nat.sub_sub]
      rfl

/-- Of a text that does not fit, only the characters up to the first that does not fit count. -/
theorem fit_append_of_lt_size {room : Nat} {a : Text} (h : room < size a) (b : Text) :
    fit room (a ++ b) = ((fit room a).1, (fit room a).2 ++ b) := by
  induction a generalizing room with
  | nil => simp at h
  | cons c a ih =>
      rw [size_cons] at h
      rw [List.cons_append, fit_cons, fit_cons]
      by_cases hc : c.utf8Size ≤ room
      · rw [if_pos hc, if_pos hc, ih (by omega)]
      · rw [if_neg hc, if_neg hc]
        rfl

theorem fit_snd_ne_nil_of_lt_size {room : Nat} {a : Text} (h : room < size a) :
    (fit room a).2 ≠ [] := by
  intro hnil
  have happend := fit_append room a
  have hle := size_fit_le room a
  rw [hnil, List.append_nil] at happend
  rw [happend] at hle
  omega

end Text

instance : LawfulSink TextSink where
  write_nil s := by
    obtain ⟨taken, room⟩ := s
    cases room with
    | none => rfl
    | some room => rfl
  write_append a b s := by
    obtain ⟨taken, room⟩ := s
    cases room with
    | none => simp [Sink.write]
    | some room =>
        simp only [Sink.write]
        by_cases h : Text.size a ≤ room
        · rw [Text.fit_append_of_size_le h, Text.fit_of_size_le h]
          simp [Nat.sub_sub]
        · have hlt : room < Text.size a := Nat.lt_of_not_le h
          have hne := Text.fit_snd_ne_nil_of_lt_size hlt
          have hrest : (Text.fit room a).2.isEmpty = false := List.isEmpty_eq_false_iff.2 hne
          have hboth : ((Text.fit room a).2 ++ b).isEmpty = false :=
            List.isEmpty_eq_false_iff.2 (List.append_ne_nil_of_left_ne_nil hne b)
          rw [Text.fit_append_of_lt_size hlt, hrest, hboth]

/-! ## Outputs -/

/-- What a rendering writes, and the error that ends it. -/
structure Output where
  text : Text
  error? : Option Error
deriving DecidableEq, Repr

namespace Output

/-- Nothing is written. -/
def nothing : Output := ⟨[], none⟩

/-- A text is written. -/
def ofText (t : Text) : Output := ⟨t, none⟩

/-- An error occurs before anything is written. -/
def ofError (e : Error) : Output := ⟨[], some e⟩

/-- One output after the other.  After an error nothing comes. -/
def append (a b : Output) : Output :=
  match a.error? with
  | none => ⟨a.text ++ b.text, b.error?⟩
  | some _ => a

instance : Append Output := ⟨append⟩

/-- Outputs one after the other. -/
def concat : List Output → Output
  | [] => nothing
  | o :: os => o ++ concat os

theorem append_of_error?_eq_none {a : Output} (h : a.error? = none) (b : Output) :
    a ++ b = ⟨a.text ++ b.text, b.error?⟩ := by
  show append a b = _
  rw [append, h]

theorem append_of_error?_eq_some {a : Output} {e : Error} (h : a.error? = some e) (b : Output) :
    a ++ b = a := by
  show append a b = _
  rw [append, h]

theorem ofText_append (t : Text) (o : Output) : ofText t ++ o = ⟨t ++ o.text, o.error?⟩ :=
  append_of_error?_eq_none rfl o

@[simp] theorem nothing_append (o : Output) : nothing ++ o = o :=
  append_of_error?_eq_none rfl o

@[simp] theorem append_nothing (o : Output) : o ++ nothing = o := by
  cases h : o.error? with
  | none =>
      rw [append_of_error?_eq_none h, nothing, List.append_nil, ← h]
  | some e => exact append_of_error?_eq_some h nothing

theorem append_assoc (a b c : Output) : a ++ b ++ c = a ++ (b ++ c) := by
  cases h : a.error? with
  | none =>
      rw [append_of_error?_eq_none h, append_of_error?_eq_none h]
      cases h' : b.error? with
      | none =>
          rw [append_of_error?_eq_none h', append_of_error?_eq_none rfl, List.append_assoc]
      | some e => rw [append_of_error?_eq_some h', append_of_error?_eq_some rfl, h']
  | some e =>
      rw [append_of_error?_eq_some h, append_of_error?_eq_some h, append_of_error?_eq_some h]

theorem ofText_append_ofText (t u : Text) : ofText t ++ ofText u = ofText (t ++ u) :=
  ofText_append t (ofText u)

@[simp] theorem concat_nil : concat [] = nothing := rfl

@[simp] theorem concat_cons (o : Output) (os : List Output) : concat (o :: os) = o ++ concat os :=
  rfl

/-- Texts that are written one after the other are written as one. -/
theorem concat_map_ofText (ts : List Text) : concat (ts.map ofText) = ofText ts.flatten := by
  induction ts with
  | nil => rfl
  | cons t ts ih => rw [List.map_cons, concat_cons, ih, ofText_append_ofText, List.flatten_cons]

/-! ## Writing an output -/

variable {σ : Type} [Sink σ]

/-- Fails with an error, if there is one. -/
def raise : Option Error → RenderM σ Unit
  | none => pure ()
  | some e => throw e

/-- Writes the text of an output, and fails with its error. -/
def emit (o : Output) : RenderM σ Unit := do
  writeText o.text
  raise o.error?

@[simp] theorem emit_ofText (t : Text) : ((ofText t).emit : RenderM σ Unit) = writeText t := by
  funext s
  show EStateM.bind (writeText t) (fun _ => pure ()) s = writeText t s
  unfold EStateM.bind
  cases writeText t s <;> rfl

variable [LawfulSink σ]

theorem writeText_nil : (writeText [] : RenderM σ Unit) = pure () := by
  funext s
  rw [writeText, LawfulSink.write_nil]
  rfl

theorem writeText_append (a b : Text) :
    (writeText (a ++ b) : RenderM σ Unit) = (do
      writeText a
      writeText b) := by
  funext s
  show writeText (a ++ b) s = EStateM.bind (writeText a) (fun _ => writeText b) s
  rw [writeText, EStateM.bind, writeText, LawfulSink.write_append]
  cases Sink.write a s with
  | mk accepted s => cases accepted <;> rfl

@[simp] theorem emit_nothing : (nothing.emit : RenderM σ Unit) = pure () := by
  rw [emit, nothing, writeText_nil]
  rfl

@[simp] theorem emit_ofError (e : Error) : ((ofError e).emit : RenderM σ Unit) = throw e := by
  rw [emit, ofError, writeText_nil]
  rfl

/-- Two outputs are written one after the other. -/
theorem emit_append (a b : Output) :
    ((a ++ b).emit : RenderM σ Unit) = (do
      a.emit
      b.emit) := by
  funext s
  cases h : a.error? with
  | none =>
      rw [append_of_error?_eq_none h]
      simp only [emit, h, writeText_append, raise, bind, EStateM.bind, pure, EStateM.pure]
      cases writeText a.text s <;> rfl
  | some e =>
      rw [append_of_error?_eq_some h]
      simp only [emit, h, raise, bind, EStateM.bind]
      cases writeText a.text s <;> rfl

end Output

/-! ## Computations that write an output -/

/-- A relation between computations and the outputs that they write.  It holds of single writes and
of errors, and of one computation after the other if it holds of both. -/
structure Output.Compositional {σ : Type} [Sink σ] (writes : RenderM σ Unit → Output → Prop) :
    Prop where
  nothing : writes (pure ()) .nothing
  ofText (t : Text) : writes (writeText t) (.ofText t)
  ofError (e : Error) : writes (throw e) (.ofError e)
  append {m m' : RenderM σ Unit} {a b : Output} : writes m a → writes m' b →
    writes (do m; m') (a ++ b)

namespace Output

variable {σ : Type} [Sink σ]

/-- Being the writing of an output is such a relation, where the sink is lawful. -/
theorem compositional_emit [LawfulSink σ] :
    Compositional fun (m : RenderM σ Unit) o => m = o.emit where
  nothing := emit_nothing.symm
  ofText t := (emit_ofText t).symm
  ofError e := (emit_ofError e).symm
  append := by
    rintro m m' a b rfl rfl
    exact (emit_append a b).symm

/-- Computations one after the other write their outputs one after the other. -/
theorem Compositional.forM {writes : RenderM σ Unit → Output → Prop} (h : Compositional writes)
    {α : Type} {f : α → RenderM σ Unit} {g : α → Output} (hwrites : ∀ x, writes (f x) (g x))
    (xs : List α) : writes (xs.forM f) (concat (xs.map g)) := by
  induction xs with
  | nil => exact h.nothing
  | cons x xs ih => exact h.append (hwrites x) ih

end Output

/-! ## The output of a value -/

/-- What an escaper writes.  It may refuse to go on after that. -/
def Escaped.output (e : Escaped) : Output :=
  ⟨e.text, if e.accepted then none else some (.placeless .refusedOutput)⟩

/-- What a piece of the text of a value writes, through an escaper if there is one. -/
def Output.ofPiece : Option Escaper → Text → Output
  | none, t => .ofText t
  | some escaper, t => (escaper t).output

/-- What a value writes, piece by piece. -/
def Value.output (escaper : Option Escaper) (v : Value) : Output :=
  match v.shown with
  | .error reason => .ofError (.unreadable reason)
  | .ok pieces => .concat (pieces.map (.ofPiece (v.escaper escaper)))

section Sinks

variable {σ : Type} [Sink σ] {writes : RenderM σ Unit → Output → Prop}

theorem Output.Compositional.writeEscaped (h : Compositional writes) (escaper : Escaper)
    (t : Text) : writes (writeEscaped escaper t) (escaper t).output := by
  unfold Mustache.writeEscaped Escaped.output
  simp only
  have htext : writes ((escaper t).pieces.forM writeText) (.ofText (escaper t).text) := by
    rw [Escaped.text, ← concat_map_ofText]
    exact h.forM h.ofText (escaper t).pieces
  cases (escaper t).accepted with
  | true =>
      have hboth := h.append htext h.nothing
      simpa [ofText_append, Output.nothing] using hboth
  | false =>
      have hboth := h.append htext (h.ofError (.placeless .refusedOutput))
      simpa [ofText_append, Output.ofError] using hboth

theorem Output.Compositional.writePiece (h : Compositional writes) (escaper : Option Escaper)
    (t : Text) : writes (writePiece escaper t) (.ofPiece escaper t) := by
  cases escaper with
  | none => exact h.ofText t
  | some escaper => exact h.writeEscaped escaper t

theorem Output.Compositional.writeValue (h : Compositional writes) (escaper : Option Escaper)
    (v : Value) : writes (writeValue escaper v) (v.output escaper) := by
  unfold Mustache.writeValue Value.output
  cases v.shown with
  | error reason => exact h.ofError (.unreadable reason)
  | ok pieces => exact h.forM (h.writePiece (v.escaper escaper)) pieces

end Sinks

/-! ## The output of nodes -/

namespace Node

section Nodes

variable (escaper : Escaper) (inclusion : Text → Text → Context → Output) (source : Text)

mutual

/-- What a node writes whose literals are spans of `source`. -/
def output (context : Context) : Node → Output
  | .literal span => .ofText ((span.cut? source).getD [])
  | .interpolation path escaped =>
    match context.resolve path with
    | .nothing => .nothing
    | .found v => v.output (if escaped then some escaper else none)
    | .failed reason => .ofError (.unreadable reason)
  | .block .normal path children =>
    match context.resolve path with
    | .nothing => .nothing
    | .found v => .concat (v.scopes.map fun scope => outputs (scope :: context) children)
    | .failed reason => .ofError (.unreadable reason)
  | .block .inverted path children =>
    match context.resolve path with
    | .nothing => outputs context children
    | .found v => if v.isTruthy then .nothing else outputs context children
    | .failed reason => .ofError (.unreadable reason)
  | .inclusion name indent => inclusion name indent context

/-- What nodes write one after the other. -/
def outputs (context : Context) : List Node → Output
  | [] => .nothing
  | node :: nodes => output context node ++ outputs context nodes

end

@[simp] theorem outputs_nil (context : Context) :
    outputs escaper inclusion source context [] = .nothing := rfl

@[simp] theorem outputs_cons (context : Context) (node : Node) (nodes : List Node) :
    outputs escaper inclusion source context (node :: nodes) =
      output escaper inclusion source context node ++
        outputs escaper inclusion source context nodes := rfl

theorem outputs_append (context : Context) (a b : List Node) :
    outputs escaper inclusion source context (a ++ b) =
      outputs escaper inclusion source context a ++
        outputs escaper inclusion source context b := by
  induction a with
  | nil => rw [List.nil_append, outputs_nil, Output.nothing_append]
  | cons node a ih =>
      rw [List.cons_append, outputs_cons, outputs_cons, ih, Output.append_assoc]

/-- The literal of a text at an offset; the empty text has none. -/
def literals (offset : Nat) (t : Text) : List Node :=
  if t = [] then [] else [.literal ⟨offset, Text.size t⟩]

/-- The literal of a piece of the template writes that piece. -/
theorem outputs_literals (context : Context) (before piece after : Text) :
    outputs escaper inclusion (before ++ piece ++ after) context
        (literals (Text.size before) piece) = .ofText piece := by
  by_cases h : piece = []
  · rw [literals, if_pos h, h]
    rfl
  · have hcut := Span.cut?_eq_some_iff.2 (Span.covers_of_append before piece after)
    rw [literals, if_neg h, outputs_cons, output, hcut, outputs_nil, Output.append_nothing]
    rfl

variable {σ : Type} [Sink σ] {writes : RenderM σ Unit → Output → Prop}
  (includePartial : Text → Text → Context → RenderM σ Unit)

mutual

theorem writes_renderNode (h : Output.Compositional writes)
    (hinclude : ∀ name indent context,
      writes (includePartial name indent context) (inclusion name indent context))
    (context : Context) (node : Node) :
    writes (renderNode escaper includePartial source context node)
      (output escaper inclusion source context node) := by
  cases node with
  | literal span =>
      rw [renderNode, output]
      exact h.ofText _
  | interpolation path escaped =>
      rw [renderNode, output]
      cases context.resolve path with
      | nothing => exact h.nothing
      | found v => exact h.writeValue _ v
      | failed reason => exact h.ofError (.unreadable reason)
  | block kind path children =>
      cases kind with
      | normal =>
          rw [renderNode, output]
          cases context.resolve path with
          | nothing => exact h.nothing
          | found v =>
              refine h.forM ?_ v.scopes
              intro scope
              exact writes_renderNodes h hinclude (scope :: context) children
          | failed reason => exact h.ofError (.unreadable reason)
      | inverted =>
          rw [renderNode, output]
          cases context.resolve path with
          | nothing => exact writes_renderNodes h hinclude context children
          | found v =>
              simp only
              split
              · exact h.nothing
              · exact writes_renderNodes h hinclude context children
          | failed reason => exact h.ofError (.unreadable reason)
  | inclusion name indent =>
      rw [renderNode, output]
      exact hinclude name indent context

/-- Rendering nodes writes their outputs one after the other. -/
theorem writes_renderNodes (h : Output.Compositional writes)
    (hinclude : ∀ name indent context,
      writes (includePartial name indent context) (inclusion name indent context))
    (context : Context) (nodes : List Node) :
    writes (renderNodes escaper includePartial source context nodes)
      (outputs escaper inclusion source context nodes) := by
  cases nodes with
  | nil => exact h.nothing
  | cons node nodes =>
      exact h.append (writes_renderNode h hinclude context node)
        (writes_renderNodes h hinclude context nodes)

end

end Nodes

end Node

/-! ## The output of a template -/

/-- What the partial of a name writes, if there is one and `room` for it. -/
def Partials.output (partials : Text → Option Text) (options : Options) :
    (room : Nat) → (name indent : Text) → Context → Output
  | room, name, indent, context =>
    match partials name with
    | none => .nothing
    | some text =>
      match room with
      | 0 => .ofError (.placeless (.partialLimit name options.partialDepth))
      | room + 1 =>
        let source := Text.indent indent text
        match Node.parse source with
        | .error e => .ofError e
        | .ok nodes =>
          Node.outputs options.escaper (output partials options room) source context nodes

/-- What a template writes for a value. -/
def Template.output {τ : Type} [Partials τ] (t : Template) (partials : τ) (options : Options)
    (v : Value) : Output :=
  Node.outputs options.escaper
    (Partials.output (Partials.get? partials) options options.partialDepth) t.source [v] t.nodes

section Sinks

variable {σ : Type} [Sink σ] {writes : RenderM σ Unit → Output → Prop}

theorem Output.Compositional.renderPartial (h : Compositional writes)
    (partials : Text → Option Text) (options : Options) (room : Nat) (name indent : Text)
    (context : Context) :
    writes (renderPartial partials options room name indent context)
      (Partials.output partials options room name indent context) := by
  induction room generalizing name indent context with
  | zero =>
      rw [Mustache.renderPartial, Partials.output]
      cases partials name with
      | none => exact h.nothing
      | some text => exact h.ofError _
  | succ room ih =>
      rw [Mustache.renderPartial, Partials.output]
      cases partials name with
      | none => exact h.nothing
      | some text =>
          simp only
          cases Node.parse (Text.indent indent text) with
          | error e => exact h.ofError e
          | ok nodes => exact Node.writes_renderNodes _ _ _ _ h ih context nodes

/-- Rendering a template writes its output. -/
theorem Output.Compositional.renderTo (h : Compositional writes) {τ : Type} [Partials τ]
    (t : Template) (partials : τ) (options : Options) (v : Value) :
    writes (t.renderTo partials options v) (t.output partials options v) := by
  rw [t.renderTo_eq partials options v]
  exact Node.writes_renderNodes _ _ _ _ h
    (h.renderPartial (Partials.get? partials) options options.partialDepth) [v] t.nodes

/-- Rendering a template is writing its output, into any lawful sink. -/
theorem Template.renderTo_eq_emit [LawfulSink σ] {τ : Type} [Partials τ] (t : Template)
    (partials : τ) (options : Options) (v : Value) :
    (t.renderTo partials options v : RenderM σ Unit) = (t.output partials options v).emit :=
  Output.compositional_emit.renderTo t partials options v

end Sinks

/-! ## How a rendering ends -/

/-- The error that ended a rendering, if one did. -/
def outcome {σ : Type} : EStateM.Result Error σ Unit → Except Error Unit
  | .ok _ _ => .ok ()
  | .error e _ => .error e

/-- The sink that a rendering leaves behind. -/
def sinkAfter {σ : Type} : EStateM.Result Error σ Unit → σ
  | .ok _ s => s
  | .error _ s => s

/-- After a computation that does not fail comes the next one. -/
theorem seq_eq_of_ok {σ : Type} {m m' : RenderM σ Unit} {s : σ} (h : outcome (m s) = .ok ()) :
    (do m; m' : RenderM σ Unit) s = m' (sinkAfter (m s)) := by
  show EStateM.bind m (fun _ => m') s = m' (sinkAfter (m s))
  unfold EStateM.bind
  cases hms : m s with
  | ok u s' => rfl
  | error e s' =>
      rw [hms] at h
      cases h

/-- After a computation that fails nothing comes. -/
theorem seq_eq_of_error {σ : Type} {m m' : RenderM σ Unit} {s : σ} {e : Error}
    (h : outcome (m s) = .error e) : (do m; m' : RenderM σ Unit) s = m s := by
  show EStateM.bind m (fun _ => m') s = m s
  unfold EStateM.bind
  cases hms : m s with
  | ok u s' =>
      rw [hms] at h
      cases h
  | error e' s' => rfl

namespace Output

/-- The error in an output, if there is one. -/
def outcome (o : Output) : Except Error Unit :=
  match o.error? with
  | none => .ok ()
  | some e => .error e

theorem outcome_eq_ok_iff {o : Output} : o.outcome = .ok () ↔ o.error? = none := by
  unfold outcome
  cases o.error? <;> simp

theorem outcome_eq_error_iff {o : Output} {e : Error} :
    o.outcome = .error e ↔ o.error? = some e := by
  unfold outcome
  cases o.error? <;> simp

theorem raise_eq {σ : Type} (o : Output) (s : σ) :
    Mustache.outcome (raise o.error? s) = o.outcome ∧ sinkAfter (raise o.error? s) = s := by
  unfold outcome
  cases o.error? <;> exact ⟨rfl, rfl⟩

/-- Without a limit all of an output is written. -/
theorem emit_unbounded (o : Output) :
    Mustache.outcome (o.emit (TextSink.empty none)) = o.outcome ∧
      (sinkAfter (o.emit (TextSink.empty none))).text = o.text := by
  obtain ⟨houtcome, hsink⟩ := raise_eq o (⟨o.text.reverse ++ [], none⟩ : TextSink)
  have hemit : o.emit (TextSink.empty none) =
      raise o.error? (⟨o.text.reverse ++ [], none⟩ : TextSink) := rfl
  rw [hemit]
  refine ⟨houtcome, ?_⟩
  rw [hsink]
  simp [TextSink.text]

/-- Outputs that are written alike are equal. -/
theorem eq_of_emit_eq {a b : Output} (h : (a.emit : RenderM TextSink Unit) = b.emit) : a = b := by
  obtain ⟨houtcome, htext⟩ := a.emit_unbounded
  obtain ⟨houtcome', htext'⟩ := b.emit_unbounded
  rw [h] at houtcome htext
  have hsame : a.outcome = b.outcome := houtcome.symm.trans houtcome'
  obtain ⟨text, error?⟩ := a
  obtain ⟨text', error?'⟩ := b
  obtain rfl : text = text' := htext.symm.trans htext'
  cases error? with
  | none =>
      cases error?' with
      | none => rfl
      | some e => cases hsame
  | some e =>
      cases error?' with
      | none => cases hsame
      | some e' =>
          cases hsame
          rfl

end Output

/-- A template is rendered as the text of its output, if that has no error. -/
theorem Template.renderWith_eq_ok_iff {τ : Type} [Partials τ] {t : Template} {partials : τ}
    {options : Options} {v : Value} {text : Text} :
    t.renderWith partials options v = .ok text ↔ t.output partials options v = .ofText text := by
  obtain ⟨hend, htext⟩ := (t.output partials options v).emit_unbounded
  rw [← renderTo_eq_emit] at hend htext
  unfold renderWith
  generalize t.output partials options v = o at hend htext ⊢
  obtain ⟨written, error?⟩ := o
  cases hr : t.renderTo partials options v (TextSink.empty none) with
  | ok u sink =>
      rw [hr] at hend htext
      cases error? with
      | none =>
          have hwritten : sink.text = written := htext
          simp [Output.ofText, hwritten]
      | some e => cases hend
  | error e sink =>
      rw [hr] at hend
      cases error? with
      | none => cases hend
      | some e' => simp [Output.ofText]

/-! ## Sinks that take everything -/

/-- In a good state the sink takes every text and stays in good states, and the text in it grows by
the text that was taken. -/
structure Sink.Records {σ : Type} [Sink σ] (good : σ → Prop) (text : σ → Text) : Prop where
  accepts {s : σ} : good s → ∀ t, (Sink.write t s).1 = true
  keeps {s : σ} : good s → ∀ t, good (Sink.write t s).2
  grows {s : σ} : good s → ∀ t, text (Sink.write t s).2 = text s ++ t

/-- A text sink without a limit is one. -/
theorem TextSink.records : Sink.Records (fun s : TextSink => s.room = none) TextSink.text where
  accepts h t := (text_write_of_room_eq_none h t).1
  keeps := by
    intro s h t
    simp [Sink.write, h]
  grows h t := (text_write_of_room_eq_none h t).2

section Records

variable {σ : Type} [Sink σ] {good : σ → Prop} {text : σ → Text}

/-- The computation ends as the output says, and its text is added to the text in the sink. -/
def Output.RecordedBy (good : σ → Prop) (text : σ → Text) (m : RenderM σ Unit) (o : Output) :
    Prop :=
  ∀ s, good s → Mustache.outcome (m s) = o.outcome ∧ good (sinkAfter (m s)) ∧
    text (sinkAfter (m s)) = text s ++ o.text

theorem Sink.Records.compositional (h : Sink.Records good text) :
    Output.Compositional (Output.RecordedBy good text) where
  nothing := fun s hs => ⟨rfl, hs, (List.append_nil _).symm⟩
  ofText := by
    intro t s hs
    have haccepts := h.accepts hs t
    have hgood := h.keeps hs t
    have htext := h.grows hs t
    unfold writeText
    generalize Sink.write t s = result at haccepts hgood htext
    obtain ⟨accepted, s'⟩ := result
    cases haccepts
    exact ⟨rfl, hgood, htext⟩
  ofError := fun e s hs => ⟨rfl, hs, (List.append_nil _).symm⟩
  append := by
    intro m m' a b hm hm' s hs
    obtain ⟨houtcome, hgood, htext⟩ := hm s hs
    cases herror : a.error? with
    | none =>
        have hok : Mustache.outcome (m s) = .ok () :=
          houtcome.trans (Output.outcome_eq_ok_iff.2 herror)
        obtain ⟨houtcome', hgood', htext'⟩ := hm' _ hgood
        rw [seq_eq_of_ok hok, Output.append_of_error?_eq_none herror]
        refine ⟨houtcome', hgood', ?_⟩
        rw [htext', htext, List.append_assoc]
    | some e =>
        have hfail : Mustache.outcome (m s) = .error e :=
          houtcome.trans (Output.outcome_eq_error_iff.2 herror)
        rw [seq_eq_of_error hfail, Output.append_of_error?_eq_some herror]
        exact ⟨houtcome, hgood, htext⟩

/-- A sink that takes everything gets the text of the output, and the rendering ends as the output
does. -/
theorem Template.renderTo_records (h : Sink.Records good text) {τ : Type} [Partials τ]
    (t : Template) (partials : τ) (options : Options) (v : Value) :
    Output.RecordedBy good text (t.renderTo partials options v) (t.output partials options v) :=
  h.compositional.renderTo t partials options v

end Records

end Mustache
