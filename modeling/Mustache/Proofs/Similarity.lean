import Mathlib
import Mustache.Proofs.Occurrence
import Mustache.Proofs.RaisedErrors

/-!
# Values that render alike

A template asks its data few questions, and different values may answer them
alike.  Then no template tells them apart.  That is a claim about every template
and every partial, and about everything that comes into scope on the way, so it
needs an argument that goes with the data and not with the template.

`Value.Similarity` is that argument.  It holds of a relation of values if values in
the relation answer every question alike, where an answer that is a value again
has to be in the relation only.  `Context.Similarity` is the same one level up: two
stacks of values are related, the paths of some set find related values in both,
and the stacks remain related when a section brings related values into scope.  It
is what the walk over nodes needs, and it is all that the walk needs.

## Main results

* `Finding.Rel.or`, `Finding.Rel.andThen` — looking up in related values finds related
  values;
* `Context.Similarity.renderNodes_eq` — nodes are rendered alike for related stacks
  of values;
* `Value.Similarity.context` — related values, one on top of the other, make
  related stacks;
* `Value.Similarity.renderTo_eq` — templates are rendered alike for related values.
-/

namespace Mustache

/-! ## Related findings -/

/-- Both find nothing, or values that are related by `R`, or both fail for the same reason. -/
inductive Finding.Rel (R : Value → Value → Prop) : Finding → Finding → Prop
  | nothing : Rel R .nothing .nothing
  | found {v v' : Value} : R v v' → Rel R (.found v) (.found v')
  | failed (reason : Text) : Rel R (.failed reason) (.failed reason)

namespace Finding

variable {R : Value → Value → Prop}

theorem rel_refl (h : ∀ v, R v v) (a : Finding) : a.Rel R a := by
  cases a with
  | nothing => exact .nothing
  | found v => exact .found (h v)
  | failed reason => exact .failed reason

theorem rel_ofOption {α β : Type} {S : α → β → Prop} {f : α → Value} {g : β → Value}
    (h : ∀ x y, S x y → R (f x) (g y)) {o : Option α} {o' : Option β} (ho : Option.Rel S o o') :
    (ofOption (o.map f)).Rel R (ofOption (o'.map g)) := by
  cases ho with
  | none => exact .nothing
  | some hxy => exact .found (h _ _ hxy)

theorem Rel.or {a a' b b' : Finding} (ha : a.Rel R a') (hb : b.Rel R b') :
    (a.or b).Rel R (a'.or b') := by
  cases ha with
  | nothing => exact hb
  | found hv => exact .found hv
  | failed reason => exact .failed reason

/-- What is found in related findings is related. -/
theorem Rel.andThen {a a' : Finding} {f f' : Value → Finding} (ha : a.Rel R a')
    (hf : ∀ {v v'}, R v v' → (f v).Rel R (f' v')) : (a.andThen f).Rel R (a'.andThen f') := by
  cases ha with
  | nothing => exact .nothing
  | found hv => exact hf hv
  | failed reason => exact .failed reason

end Finding

/-! ## Related stacks of values -/

/-- Stacks of values that are related by `C` are alike for the paths in `uses`: what such a path
finds in both is related by `V`, and related values answer the questions of a template alike. -/
structure Context.Similarity (uses : Path → Prop) (V : Value → Value → Prop)
    (C : Context → Context → Prop) : Prop where
  resolve {c c' : Context} {path : Path} : C c c' → uses path →
    (c.resolve path).Rel V (c'.resolve path)
  isTruthy {v v' : Value} : V v v' → v.isTruthy = v'.isTruthy
  writeValue {v v' : Value} : V v v' → ∀ {σ : Type} [Sink σ] (escaper : Option Escaper),
    (writeValue escaper v : RenderM σ Unit) = writeValue escaper v'
  /-- A section renders its children as often for the one as for the other value, and in stacks that
  are related. -/
  scopes {c c' : Context} {v v' : Value} : C c c' → V v v' →
    List.Forall₂ (fun scope scope' => C (scope :: c) (scope' :: c')) v.scopes v'.scopes

/-- A tag in the nodes has this path. -/
def Node.Uses (path : Path) (nodes : List Node) : Prop :=
  (∃ escaped, Occurs (.interpolation path escaped) nodes) ∨
    ∃ kind children, Occurs (.block kind path children) nodes

theorem Node.Uses.of_subset {path : Path} {a b : List Node} (h : Uses path a) (hab : a ⊆ b) :
    Uses path b := by
  rcases h with ⟨escaped, h⟩ | ⟨kind, children, h⟩
  · exact .inl ⟨escaped, h.of_subset hab⟩
  · exact .inr ⟨kind, children, h.of_subset hab⟩

theorem Node.Uses.inside {path : Path} {nodes children : List Node} {kind : SectionKind}
    {outer : Path} (hmem : .block kind outer children ∈ nodes) (h : Uses path children) :
    Uses path nodes := by
  rcases h with ⟨escaped, h⟩ | ⟨kind', children', h⟩
  · exact .inl ⟨escaped, .inside hmem h⟩
  · exact .inr ⟨kind', children', .inside hmem h⟩

namespace Node

variable {path : Path}

/-- The tag of the node, or one inside it, has this path. -/
def HasPath (path : Path) : Node → Prop
  | .literal _ | .inclusion _ _ => False
  | .interpolation outer _ => outer = path
  | .block _ outer children => outer = path ∨ Uses path children

/-- Node by node, the paths of the tags in some nodes. -/
theorem uses_iff {nodes : List Node} : Uses path nodes ↔ ∃ node ∈ nodes, node.HasPath path := by
  constructor
  · rintro (⟨escaped, h⟩ | ⟨kind, children, h⟩)
    · cases h with
      | here hmem => exact ⟨_, hmem, rfl⟩
      | inside hmem h => exact ⟨_, hmem, .inr (.inl ⟨escaped, h⟩)⟩
    · cases h with
      | here hmem => exact ⟨_, hmem, .inl rfl⟩
      | inside hmem h => exact ⟨_, hmem, .inr (.inr ⟨kind, children, h⟩)⟩
  · rintro ⟨node, hmem, h⟩
    cases node with
    | literal span => exact h.elim
    | interpolation outer escaped =>
        obtain rfl : outer = path := h
        exact .inl ⟨escaped, .here hmem⟩
    | block kind outer children =>
        rcases h with rfl | h
        · exact .inr ⟨kind, children, .here hmem⟩
        · exact h.inside hmem
    | inclusion name indent => exact h.elim

@[simp] theorem not_uses_nil : ¬ Uses path [] := by
  rw [uses_iff]
  rintro ⟨_, hmem, -⟩
  cases hmem

@[simp] theorem uses_cons {node : Node} {nodes : List Node} :
    Uses path (node :: nodes) ↔ node.HasPath path ∨ Uses path nodes := by
  rw [uses_iff, uses_iff, List.exists_mem_cons_iff]

@[simp] theorem uses_append {a b : List Node} :
    Uses path (a ++ b) ↔ Uses path a ∨ Uses path b := by
  rw [uses_iff, uses_iff, uses_iff]
  simp only [List.mem_append, or_and_right, exists_or]

end Node

/-- Two sequences of computations are the same if their members are, one by one. -/
theorem forM_eq_of_forall₂ {σ α β : Type} {S : α → β → Prop} {xs : List α} {ys : List β}
    (h : List.Forall₂ S xs ys) {f : α → RenderM σ Unit} {g : β → RenderM σ Unit}
    (hfg : ∀ x y, S x y → f x = g y) : xs.forM f = ys.forM g := by
  induction h with
  | nil => rfl
  | cons hxy _ ih =>
      show (do f _; List.forM _ f) = (do g _; List.forM _ g)
      rw [hfg _ _ hxy, ih]

namespace Context.Similarity

section Nodes

variable {uses : Path → Prop} {V : Value → Value → Prop} {C : Context → Context → Prop}
  {σ : Type} [Sink σ] {escaper : Escaper}
  {includePartial includePartial' : Text → Text → Context → RenderM σ Unit} {source : Text}

mutual

theorem renderNode_eq (h : Similarity uses V C) {c c' : Context} (hc : C c c') (node : Node)
    (huses : ∀ path, Node.Uses path [node] → uses path)
    (hinclude : ∀ name indent, Node.Occurs (.inclusion name indent) [node] →
      ∀ c c', C c c' → includePartial name indent c = includePartial' name indent c') :
    renderNode escaper includePartial source c node =
      renderNode escaper includePartial' source c' node := by
  cases node with
  | literal span => rfl
  | interpolation path escaped =>
      have hpath : uses path := huses path (.inl ⟨escaped, .here List.mem_cons_self⟩)
      have hresolve := h.resolve hc hpath
      rw [renderNode, renderNode]
      generalize c.resolve path = found at hresolve ⊢
      generalize c'.resolve path = found' at hresolve ⊢
      cases hresolve with
      | nothing => rfl
      | found hv => exact h.writeValue hv _
      | failed reason => rfl
  | block kind path children =>
      have hpath : uses path := huses path (.inr ⟨kind, children, .here List.mem_cons_self⟩)
      have hresolve := h.resolve hc hpath
      have hchildren {d d' : Context} (hd : C d d') :
          renderNodes escaper includePartial source d children =
            renderNodes escaper includePartial' source d' children :=
        renderNodes_eq h hd children
          (fun path hused => huses path (hused.inside List.mem_cons_self))
          (fun name indent hoccurs => hinclude name indent (.inside List.mem_cons_self hoccurs))
      cases kind with
      | normal =>
          rw [renderNode, renderNode]
          generalize c.resolve path = found at hresolve ⊢
          generalize c'.resolve path = found' at hresolve ⊢
          cases hresolve with
          | nothing => rfl
          | found hv => exact forM_eq_of_forall₂ (h.scopes hc hv) fun _ _ => hchildren
          | failed reason => rfl
      | inverted =>
          rw [renderNode, renderNode, hchildren hc]
          generalize c.resolve path = found at hresolve ⊢
          generalize c'.resolve path = found' at hresolve ⊢
          cases hresolve with
          | nothing => rfl
          | found hv => simp only [h.isTruthy hv]
          | failed reason => rfl
  | inclusion name indent =>
      rw [renderNode, renderNode]
      exact hinclude name indent (.here List.mem_cons_self) c c' hc

/-- Nodes are rendered alike for related stacks of values, if the partials that they include are. -/
theorem renderNodes_eq (h : Similarity uses V C) {c c' : Context} (hc : C c c')
    (nodes : List Node) (huses : ∀ path, Node.Uses path nodes → uses path)
    (hinclude : ∀ name indent, Node.Occurs (.inclusion name indent) nodes →
      ∀ c c', C c c' → includePartial name indent c = includePartial' name indent c') :
    renderNodes escaper includePartial source c nodes =
      renderNodes escaper includePartial' source c' nodes := by
  cases nodes with
  | nil => rfl
  | cons node nodes =>
      have hnode : [node] ⊆ node :: nodes := List.cons_subset_cons node (List.nil_subset nodes)
      have hnodes : nodes ⊆ node :: nodes := List.subset_cons_self node nodes
      rw [renderNodes_cons, renderNodes_cons]
      rw [renderNode_eq h hc node (fun path hused => huses path (hused.of_subset hnode))
          (fun name indent hoccurs => hinclude name indent (hoccurs.of_subset hnode)),
        renderNodes_eq h hc nodes (fun path hused => huses path (hused.of_subset hnodes))
          (fun name indent hoccurs => hinclude name indent (hoccurs.of_subset hnodes))]

end

/-- Partials are rendered alike for related stacks of values, if their paths are in the set.  The
indentation is blank, as it is for the nodes of any text. -/
theorem renderPartial_eq (h : Similarity uses V C) {partials : Text → Option Text}
    (huses : ∀ name text indent nodes, partials name = some text → Text.Blank indent →
      Node.parse (Text.indent indent text) = .ok nodes →
      ∀ path, Node.Uses path nodes → uses path)
    (options : Options) (room : Nat) (name : Text) {indent : Text} (hindent : Text.Blank indent)
    {c c' : Context} (hc : C c c') :
    (renderPartial partials options room name indent c : RenderM σ Unit) =
      renderPartial partials options room name indent c' := by
  induction room generalizing name indent c c' with
  | zero => rw [renderPartial, renderPartial]
  | succ room ih =>
      rw [renderPartial, renderPartial]
      cases hget : partials name with
      | none => rfl
      | some text =>
          simp only
          cases hparse : Node.parse (Text.indent indent text) with
          | error e => rfl
          | ok nodes =>
              refine renderNodes_eq h hc nodes
                (huses name text indent nodes hget hindent hparse) ?_
              intro name indent hoccurs c c' hc
              exact ih name (hoccurs.blank_indent hparse) hc

end Nodes

end Context.Similarity

/-! ## Related values -/

/-- Values that are related by `R` answer the questions of a template alike. -/
structure Value.Similarity (R : Value → Value → Prop) : Prop where
  isTruthy {v v' : Value} : R v v' → v.isTruthy = v'.isTruthy
  isIterable {v v' : Value} : R v v' → v.isIterable = v'.isIterable
  elements {v v' : Value} : R v v' → List.Forall₂ R v.elements v'.elements
  writeValue {v v' : Value} : R v v' → ∀ {σ : Type} [Sink σ] (escaper : Option Escaper),
    (writeValue escaper v : RenderM σ Unit) = writeValue escaper v'
  lookup {v v' : Value} : R v v' → ∀ name, (v.lookup name).Rel R (v'.lookup name)

namespace Value.Similarity

variable {R : Value → Value → Prop}

/-- A section is rendered for related values if it is rendered for related values to begin with. -/
theorem scopes (h : Similarity R) {v v' : Value} (hv : R v v') :
    List.Forall₂ R v.scopes v'.scopes := by
  rw [Value.scopes, Value.scopes, h.isIterable hv, h.isTruthy hv]
  split
  · exact h.elements hv
  · split
    · exact .cons hv .nil
    · exact .nil

theorem find? (h : Similarity R) {c c' : Context} (hc : List.Forall₂ R c c') (name : Text) :
    (c.find? name).Rel R (c'.find? name) := by
  induction hc with
  | nil => exact .nothing
  | cons hv _ ih => exact (h.lookup hv name).or ih

/-- Segment by segment a path finds related values in related values. -/
theorem follow (h : Similarity R) {v v' : Value} (hv : R v v') (names : List Text) :
    (v.follow names).Rel R (v'.follow names) := by
  induction names generalizing v v' with
  | nil => exact .found hv
  | cons name names ih => exact (h.lookup hv name).andThen ih

theorem resolve (h : Similarity R) {c c' : Context} (hc : List.Forall₂ R c c') (path : Path) :
    (c.resolve path).Rel R (c'.resolve path) :=
  (h.find? hc path.head).andThen fun hv => h.follow hv path.tail

/-- Related values, one on top of the other, make related stacks. -/
theorem context (h : Similarity R) :
    Context.Similarity (fun _ => True) R (List.Forall₂ R) where
  resolve hc _ := h.resolve hc _
  isTruthy := h.isTruthy
  writeValue := h.writeValue
  scopes hc hv := (h.scopes hv).imp fun _ _ hscope => .cons hscope hc

/-- A template is rendered alike for related values, into any sink. -/
theorem renderTo_eq (h : Similarity R) {v v' : Value} (hv : R v v') {σ : Type} [Sink σ]
    {τ : Type} [Partials τ] (t : Template) (partials : τ) (options : Options) :
    (t.renderTo partials options v : RenderM σ Unit) = t.renderTo partials options v' := by
  have hroot : List.Forall₂ R [v] [v'] := .cons hv .nil
  rw [t.renderTo_eq, t.renderTo_eq]
  refine h.context.renderNodes_eq hroot t.nodes (fun _ _ => trivial) ?_
  intro name indent hoccurs c c' hc
  exact h.context.renderPartial_eq (fun _ _ _ _ _ _ _ _ _ => trivial) options _ name
    (hoccurs.blank_indent t.parsed) hc

end Value.Similarity

end Mustache
