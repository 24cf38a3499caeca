import Mustache.Rendering

/-!
# How often a section is rendered

A section and an inverted section with the same name are meant to be complements:
of the two, one renders its children.  But they do not ask the same questions.  A
section first asks whether the value is one to go through, and if so it goes
through the elements and never asks whether the value is truthy.  An inverted
section asks only that.  So there are separate answers for a list and for a dynamic
array, for what is falsy among values and among dynamic data, and for a name that
finds nothing; and they have to agree.  Where it cannot be told what a name finds,
both fail.

What a section does is described by the stacks of values that it renders its
children in.  `Context.RendersIn` says that these are the stacks: whatever the
children are, whatever their partials do, and wherever the output goes, rendering
the section is rendering the children in these stacks, one after the other, until
one rendering fails.  Since the children may be a partial that takes down the stack
that it is given, no other list of stacks will do.

## Main results

* `Value.isTruthy_eq_false_iff` — the falsy values;
* `inTurn_forM` — what it is to do computations one after the other;
* `Context.RendersIn.unique` — a section renders its children in one list of stacks
  only;
* `Context.rounds_complementary` — which stacks these are for a section and for an
  inverted section, and where both fail.
-/

namespace Mustache

/-! ## Falsy values -/

/-- Dynamic data that a section is not rendered for. -/
inductive Dynamic.Falsy : Dynamic → Prop
  | null : Falsy .null
  | no : Falsy (.bool false)
  | notANumber {n : Number} : n.floating? = some .notANumber → Falsy (.number n)
  | noElements : Falsy (.array [])
  | noEntries : Falsy (.object [])

/-- The values that a section is not rendered for. -/
inductive Value.Falsy : Value → Prop
  | null : Falsy .null
  | no : Falsy (.bool false)
  | notANumber : Falsy (.float .notANumber)
  | noElements {shown : List Text} : Falsy (.list [] shown)
  | noEntries {access : Access} {shown : List Text} : Falsy (.map access [] shown)
  | dynamic {d : Dynamic} : d.Falsy → Falsy (.dynamic d)
  | unreadableMap {shown : Option (List Text)} {reason : Text} :
    Falsy (.unreadable .map shown reason)
  | unreadableDynamic {shown : Option (List Text)} {reason : Text} :
    Falsy (.unreadable .dynamic shown reason)

theorem Floating.isNaN_iff {x : Floating} : x.isNaN = true ↔ x = .notANumber := by
  cases x <;> simp [isNaN]

theorem Dynamic.isTruthy_eq_false_iff {d : Dynamic} : d.isTruthy = false ↔ d.Falsy := by
  constructor
  · intro h
    cases d with
    | null => exact .null
    | bool b =>
        obtain rfl : b = false := h
        exact .no
    | number n =>
        refine .notANumber ?_
        cases hfloat : n.floating? with
        | none => simp [isTruthy, hfloat] at h
        | some x =>
            have hnan : x.isNaN = true := by simpa [isTruthy, hfloat] using h
            rw [Floating.isNaN_iff.1 hnan]
    | array items =>
        obtain rfl : items = [] := by simpa [isTruthy] using h
        exact .noElements
    | object entries =>
        obtain rfl : entries = [] := by simpa [isTruthy] using h
        exact .noEntries
    | _ => cases h
  · intro h
    cases h with
    | notANumber hfloat =>
        rw [isTruthy, hfloat]
        rfl
    | _ => rfl

theorem Value.isTruthy_eq_false_iff {v : Value} : v.isTruthy = false ↔ v.Falsy := by
  constructor
  · intro h
    cases v with
    | null => exact .null
    | bool b =>
        obtain rfl : b = false := h
        exact .no
    | float x =>
        obtain rfl : x = .notANumber := Floating.isNaN_iff.1 (by simpa [isTruthy] using h)
        exact .notANumber
    | list items shown =>
        obtain rfl : items = [] := by simpa [isTruthy] using h
        exact .noElements
    | map access entries shown =>
        obtain rfl : entries = [] := by simpa [isTruthy] using h
        exact .noEntries
    | dynamic d => exact .dynamic (Dynamic.isTruthy_eq_false_iff.1 h)
    | unreadable shape shown reason =>
        cases shape with
        | map => exact .unreadableMap
        | dynamic => exact .unreadableDynamic
        | _ => cases h
    | _ => cases h
  · intro h
    cases h with
    | dynamic hd => exact Dynamic.isTruthy_eq_false_iff.2 hd
    | _ => rfl

/-! ## One after the other -/

section InTurn

variable {σ α β : Type}

/-- Computations are done for these things one after the other, from the state `s` on.  The first one
that fails ends it, and those that come later are not begun. -/
inductive InTurn (body : α → RenderM σ Unit) :
    List α → (s : σ) → EStateM.Result Error σ Unit → Prop
  | done (s : σ) : InTurn body [] s (.ok () s)
  | next {x : α} {xs : List α} {s s' : σ} {r : EStateM.Result Error σ Unit} :
    body x s = .ok () s' → InTurn body xs s' r → InTurn body (x :: xs) s r
  | fails {x : α} {xs : List α} {s s' : σ} {e : Error} :
    body x s = .error e s' → InTurn body (x :: xs) s (.error e s')

theorem inTurn_forM (f : α → β) (body : β → RenderM σ Unit) (xs : List α) (s : σ) :
    InTurn body (xs.map f) s ((xs.forM fun x => body (f x)) s) := by
  induction xs generalizing s with
  | nil => exact .done s
  | cons x xs ih =>
      have hcons : (x :: xs).forM (fun x => body (f x)) s =
          EStateM.bind (body (f x)) (fun _ => xs.forM fun x => body (f x)) s := rfl
      rw [hcons, EStateM.bind]
      cases hx : body (f x) s with
      | ok u s' => exact .next hx (ih s')
      | error e s' => exact .fails hx

end InTurn

/-! ## The stacks that children are rendered in -/

namespace Context

/-- A section of this kind and path renders its children in these stacks of values, one after the
other, whatever the children are and wherever their output goes. -/
def RendersIn (kind : SectionKind) (path : Path) (context : Context) (rounds : List Context) :
    Prop :=
  ∀ {σ : Type} [Sink σ] (escaper : Escaper)
    (includePartial : Text → Text → Context → RenderM σ Unit) (source : Text)
    (children : List Node) (s : σ),
      InTurn (fun scope => renderNodes escaper includePartial source scope children) rounds s
        (renderNode escaper includePartial source context (.block kind path children) s)

/-- The stacks that a section renders its children in, after its path found this. -/
def rounds (kind : SectionKind) (context : Context) : Finding → List Context
  | .found v =>
    match kind with
    | .normal => v.scopes.map (· :: context)
    | .inverted => if v.isTruthy then [] else [context]
  | .nothing =>
    match kind with
    | .normal => []
    | .inverted => [context]
  | .failed _ => []

theorem rendersIn_rounds {path : Path} {context : Context}
    (hread : ∀ reason, context.resolve path ≠ .failed reason) (kind : SectionKind) :
    context.RendersIn kind path (context.rounds kind (context.resolve path)) := by
  intro σ _ escaper includePartial source children s
  have honce : InTurn (fun scope => renderNodes escaper includePartial source scope children)
      [context] s (renderNodes escaper includePartial source context children s) := by
    cases hbody : renderNodes escaper includePartial source context children s with
    | ok u s' => exact .next hbody (.done s')
    | error e s' => exact .fails hbody
  cases kind with
  | normal =>
      rw [renderNode]
      cases hfound : context.resolve path with
      | nothing => exact .done s
      | found v => exact inTurn_forM (· :: context) _ v.scopes s
      | failed reason => exact absurd hfound (hread reason)
  | inverted =>
      rw [renderNode]
      cases hfound : context.resolve path with
      | nothing => exact honce
      | found v =>
          simp only [rounds]
          split
          · exact .done s
          · exact honce
      | failed reason => exact absurd hfound (hread reason)

/-- Where it cannot be read what the path finds, the section fails whatever its children are. -/
theorem renderNode_block_of_failed {σ : Type} [Sink σ] {path : Path} {context : Context}
    {reason : Text} (h : context.resolve path = .failed reason) (escaper : Escaper)
    (includePartial : Text → Text → Context → RenderM σ Unit) (source : Text) (kind : SectionKind)
    (children : List Node) :
    renderNode escaper includePartial source context (.block kind path children) =
      throw (.unreadable reason) := by
  cases kind <;> rw [renderNode, h]

/-- A sink that ignores all text and keeps stacks of values. -/
structure Visits where
  seen : List Context

instance : Sink Visits where
  write _ s := (true, s)

/-- Takes down the stack of values in which a partial is included. -/
def visit (_name _indent : Text) (context : Context) : RenderM Visits Unit := fun s =>
  .ok () ⟨s.seen ++ [context]⟩

/-- An inclusion that is rendered in some stacks takes down these stacks. -/
theorem seen_of_inTurn {rounds : List Context} {s : Visits}
    {r : EStateM.Result Error Visits Unit}
    (h : InTurn (fun scope => renderNodes .verbatim visit [] scope [.inclusion [] []]) rounds s r) :
    r = .ok () ⟨s.seen ++ rounds⟩ := by
  induction h with
  | done s => rw [List.append_nil]
  | next hbody _ ih =>
      cases hbody
      rw [ih, List.append_assoc]
      rfl
  | fails hbody => cases hbody

/-- A section renders its children in one list of stacks only. -/
theorem RendersIn.unique {kind : SectionKind} {path : Path} {context : Context}
    {rounds rounds' : List Context} (h : context.RendersIn kind path rounds)
    (h' : context.RendersIn kind path rounds') : rounds = rounds' := by
  have hseen := seen_of_inTurn (h .verbatim visit [] [.inclusion [] []] ⟨[]⟩)
  have hseen' := seen_of_inTurn (h' .verbatim visit [] [.inclusion [] []] ⟨[]⟩)
  rw [hseen] at hseen'
  simpa using hseen'

theorem rendersIn_iff {path : Path} {context : Context}
    (hread : ∀ reason, context.resolve path ≠ .failed reason) {kind : SectionKind}
    {contexts : List Context} :
    context.RendersIn kind path contexts ↔
      contexts = context.rounds kind (context.resolve path) := by
  constructor
  · intro h
    exact h.unique (rendersIn_rounds hread kind)
  · rintro rfl
    exact rendersIn_rounds hread kind

/-! ## Complements -/

variable {context : Context}

/-- A section is not rendered exactly for falsy values and where nothing is found. -/
theorem rounds_normal_eq_nil_iff {finding : Finding}
    (hread : ∀ reason, finding ≠ .failed reason) :
    context.rounds .normal finding = [] ↔
      finding = .nothing ∨ ∃ v, finding = .found v ∧ v.Falsy := by
  cases finding with
  | nothing => simp [rounds]
  | found v =>
      simp [rounds, List.map_eq_nil_iff, Value.scopes_eq_nil_iff, Value.isTruthy_eq_false_iff]
  | failed reason => exact absurd rfl (hread reason)

/-- An inverted section is rendered once, in the stack as it is, exactly where the section is not
rendered. -/
theorem rounds_inverted {finding : Finding} (hread : ∀ reason, finding ≠ .failed reason) :
    context.rounds .inverted finding =
      if context.rounds .normal finding = [] then [context] else [] := by
  cases finding with
  | nothing => rfl
  | found v =>
      cases htruthy : v.isTruthy <;>
        simp [rounds, List.map_eq_nil_iff, Value.scopes_eq_nil_iff, htruthy]
  | failed reason => exact absurd rfl (hread reason)

/-- A truthy value without elements comes into scope itself. -/
theorem rounds_of_truthy {v : Value} (hiterable : v.isIterable = false)
    (htruthy : v.isTruthy = true) : context.rounds .normal (.found v) = [v :: context] := by
  simp [rounds, Value.scopes, hiterable, htruthy]

/-- Sections and inverted sections with the same path are complements, in every stack of values.  The
children of an inverted section are rendered once, in the stack as it is, exactly where those of the
section are not rendered at all; and that is where the path finds nothing, or something falsy.
Otherwise the children of the section are rendered for every element of a list or of a dynamic array,
whatever the elements are, in order and with the element on top of the stack, and for any other value
once and with the value on top.  An error ends it, as it does in `InTurn`.  Where it cannot be read
what the path finds, neither section renders its children, and both fail for this reason. -/
theorem rounds_complementary (context : Context) (path : Path) :
    (∀ reason, context.resolve path = .failed reason →
      ∀ {σ : Type} [Sink σ] (escaper : Escaper)
        (includePartial : Text → Text → Context → RenderM σ Unit) (source : Text)
        (kind : SectionKind) (children : List Node),
        renderNode escaper includePartial source context (.block kind path children) =
          throw (.unreadable reason)) ∧
    ((∀ reason, context.resolve path ≠ .failed reason) →
      ∃ normal inverted : List Context,
        (∀ contexts, context.RendersIn .normal path contexts ↔ contexts = normal) ∧
        (∀ contexts, context.RendersIn .inverted path contexts ↔ contexts = inverted) ∧
        (inverted = [context] ↔ normal = []) ∧
        (inverted = [context] ∨ inverted = []) ∧
        (normal = [] ↔
          context.resolve path = .nothing ∨ ∃ v, context.resolve path = .found v ∧ v.Falsy) ∧
        (∀ items shown, context.resolve path = .found (.list items shown) →
          normal = items.map fun d => .ofData d :: context) ∧
        (∀ items, context.resolve path = .found (.dynamic (.array items)) →
          normal = items.map fun d => .dynamic d :: context) ∧
        ∀ v, context.resolve path = .found v → ¬ v.Falsy →
          (∀ items shown, v ≠ .list items shown) → (∀ items, v ≠ .dynamic (.array items)) →
            normal = [v :: context]) := by
  refine ⟨fun reason h _ _ => renderNode_block_of_failed h, fun hread => ?_⟩
  refine ⟨context.rounds .normal (context.resolve path),
    context.rounds .inverted (context.resolve path), fun _ => rendersIn_iff hread,
    fun _ => rendersIn_iff hread, ?_, ?_, rounds_normal_eq_nil_iff hread, ?_, ?_, ?_⟩
  · rw [rounds_inverted hread]
    split <;> simp_all
  · rw [rounds_inverted hread]
    split <;> simp
  · intro items shown h
    rw [h]
    exact List.map_map
  · intro items h
    rw [h]
    exact List.map_map
  · intro v h hfalsy hlist harray
    rw [← Value.isTruthy_eq_false_iff, Bool.not_eq_false] at hfalsy
    rw [h]
    refine rounds_of_truthy ?_ hfalsy
    cases v with
    | list items shown => exact absurd rfl (hlist items shown)
    | dynamic d =>
        cases d with
        | array items => exact absurd rfl (harray items)
        | _ => rfl
    | _ => rfl

end Context

end Mustache
