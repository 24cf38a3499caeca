import Mustache.Rendering

/-!
# Dotted names

The name `q.r` in a tag is meant as a short form: what `r` finds inside of `q`.  The
long form is a section for `q` with a tag for `r` in it.  But a section only brings
what `q` finds into scope, on top of all other values, and `r` is looked up in all of
them.  The two forms part ways where `q` finds nothing or finds a value without a
member for `r`: the name `r` in the section may still find something further out,
and the dotted name does not.

Both halves rest on how names are split.  `q.r` has the segments of `q` and then
those of `r`, however many full stops there are in either of them and wherever they
stand.  So its path is the one path behind the other, and it resolves to what the
second path finds, from its first segment on, in what the first one finds.  The
name `.` is the one that has to be left out, since there the full stop separates
nothing.

## Main results

* `Path.ofName_dotted` — the path of a dotted name;
* `Context.resolve_append` — what two paths find, one behind the other;
* `renderNode_dotted` — when a dotted name is a nested section, and when it writes
  nothing.
-/

namespace Mustache

/-! ## One path behind another -/

namespace Path

/-- The segments of `p` and then those of `q`. -/
def append (p q : Path) : Path :=
  ⟨p.head, p.tail ++ q.segments⟩

@[simp] theorem segments_append (p q : Path) :
    (p.append q).segments = p.segments ++ q.segments := rfl

theorem segments_injective : Function.Injective segments := by
  intro p q h
  obtain ⟨head, tail⟩ := p
  obtain ⟨head', tail'⟩ := q
  obtain ⟨rfl, rfl⟩ := List.cons.inj h
  rfl

theorem segments_ofName_of_ne {name : Text} (h : name ≠ ['.']) :
    (ofName name).segments = name.splitOn '.' := by
  rw [segments_ofName, if_neg h]

/-- The path of a dotted name is that of the one name behind that of the other. -/
theorem ofName_dotted {q r : Text} (hne : q ++ '.' :: r ≠ ['.']) (hq : q ≠ ['.'])
    (hr : r ≠ ['.']) : ofName (q ++ '.' :: r) = (ofName q).append (ofName r) := by
  apply segments_injective
  rw [segments_append, segments_ofName_of_ne hne, segments_ofName_of_ne hq,
    segments_ofName_of_ne hr]
  exact List.splitOnP_append_cons q r (beq_self_eq_true '.')

end Path

/-! ## What it finds -/

namespace Context

/-- The first segment of the second path is not looked up in the values in scope. -/
theorem resolve_append (context : Context) (p q : Path) :
    context.resolve (p.append q) = (context.resolve p).andThen (·.follow q.segments) := by
  show (find? context p.head).andThen (·.follow (p.tail ++ q.segments)) =
    ((find? context p.head).andThen (·.follow p.tail)).andThen _
  rw [Finding.andThen_assoc]
  simp only [Value.follow_append]

/-- A value on top that has a member for the first segment of a path, or that cannot be read, hides
all other values from the path. -/
theorem resolve_cons_of_ne_nothing {v : Value} {path : Path}
    (h : v.lookup path.head ≠ .nothing) (context : Context) :
    resolve (v :: context) path = v.follow path.segments := by
  rw [resolve, find?_cons, Finding.or_of_ne_nothing h, Path.segments, Value.follow_cons]

end Context

/-! ## Dotted names and nested sections -/

section Dotted

variable {σ : Type} [Sink σ] (escaper : Escaper)
  (includePartial : Text → Text → Context → RenderM σ Unit) (source : Text) (context : Context)

/-- A section for a truthy value that is not to be gone through renders its children once. -/
theorem renderNode_block_of_resolve {path : Path} {v : Value}
    (h : context.resolve path = .found v) (htruthy : v.isTruthy = true)
    (hiterable : v.isIterable = false) (children : List Node) :
    renderNode escaper includePartial source context (.block .normal path children) =
      renderNodes escaper includePartial source (v :: context) children := by
  have hscopes : v.scopes = [v] := by simp [Value.scopes, hiterable, htruthy]
  rw [renderNode, h]
  simp only [hscopes]
  show (do renderNodes escaper includePartial source (v :: context) children; pure ()) = _
  rw [bind_pure_unit]

/-- A dotted name writes what a section for the first name, with a tag for the second in it, writes,
provided that the first name finds a truthy value that is not to be gone through and that has a
member for the second.  It also fails as that does where the value cannot be read.  If the first name
finds nothing, or a value without such a member, the dotted name writes nothing, whatever is in scope
besides. -/
theorem renderNode_dotted {q r : Text} (hnonempty : q ≠ []) (hq : q ≠ ['.']) (hr : r ≠ ['.'])
    (escaped : Bool) :
    let render : Node → RenderM σ Unit := renderNode escaper includePartial source context
    (∀ v, context.resolve (.ofName q) = .found v → v.isTruthy = true → v.isIterable = false →
        v.lookup (Path.ofName r).head ≠ .nothing →
        render (.interpolation (.ofName (q ++ '.' :: r)) escaped) =
          render (.block .normal (.ofName q) [.interpolation (.ofName r) escaped])) ∧
      (context.resolve (.ofName q) = .nothing ∨
          (∃ v, context.resolve (.ofName q) = .found v ∧
            v.lookup (Path.ofName r).head = .nothing) →
        render (.interpolation (.ofName (q ++ '.' :: r)) escaped) = pure ()) := by
  intro render
  have hne : q ++ '.' :: r ≠ ['.'] := by
    obtain ⟨c, q, rfl⟩ := List.exists_cons_of_ne_nil hnonempty
    simp
  have hresolve : context.resolve (.ofName (q ++ '.' :: r)) =
      (context.resolve (.ofName q)).andThen (·.follow (Path.ofName r).segments) := by
    rw [Path.ofName_dotted hne hq hr, Context.resolve_append]
  constructor
  · intro v hv htruthy hiterable hmember
    have hinside : context.resolve (.ofName (q ++ '.' :: r)) =
        Context.resolve (v :: context) (.ofName r) := by
      rw [hresolve, hv, Finding.found_andThen, Context.resolve_cons_of_ne_nothing hmember]
    show renderNode _ _ _ _ _ = renderNode _ _ _ _ _
    rw [renderNode_block_of_resolve escaper includePartial source context hv htruthy hiterable,
      renderNodes_cons, renderNodes_nil, bind_pure, renderNode, renderNode, hinside]
  · intro hmember
    have hnothing : context.resolve (.ofName (q ++ '.' :: r)) = .nothing := by
      rw [hresolve]
      rcases hmember with habsent | ⟨v, hv, hlacking⟩
      · rw [habsent]
        rfl
      · rw [hv, Finding.found_andThen, Path.segments, Value.follow_cons, hlacking]
        rfl
    show renderNode _ _ _ _ _ = _
    rw [renderNode, hnothing]

end Dotted

/-- A member behind an empty segment, and a name that the value in question has no member for, while
the value in scope has one. -/
theorem renderNode_dotted_of_members :
    let inner : Data := .map .direct [(.text ['c'], .bool true)] none
    let v : Value := .map .direct
      [(.text ['a'], .map .direct [(.text [], inner)] none), (.text ['c'], .bool false)] []
    let render : Node → RenderM TextSink Unit :=
      renderNode Escaper.html (fun _ _ _ => pure ()) [] [v]
    "a.".toList ≠ [] ∧ "a.".toList ≠ ['.'] ∧ "c".toList ≠ ['.'] ∧ "a".toList ≠ ['.'] ∧
      render (.interpolation (.ofName "a..c".toList) true) =
        render (.block .normal (.ofName "a.".toList)
          [.interpolation (.ofName "c".toList) true]) ∧
      render (.interpolation (.ofName "a.c".toList) true) = pure () := by
  intro inner v render
  have hresolve : Context.resolve [v] (.ofName "a.".toList) = .found (.ofData inner) := rfl
  have hdotted := renderNode_dotted Escaper.html (fun _ _ _ => (pure () : RenderM TextSink Unit))
    [] [v] (q := "a.".toList) (r := "c".toList) (by decide) (by decide) (by decide) true
  have hlacking := renderNode_dotted Escaper.html (fun _ _ _ => (pure () : RenderM TextSink Unit))
    [] [v] (q := "a".toList) (r := "c".toList) (by decide) (by decide) (by decide) true
  refine ⟨by decide, by decide, by decide, by decide, ?_, ?_⟩
  · exact hdotted.1 _ hresolve rfl rfl nofun
  · exact hlacking.2 (.inr ⟨_, rfl, rfl⟩)

end Mustache
