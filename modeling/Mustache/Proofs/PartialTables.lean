import Mathlib
import Mustache.Proofs.EntryOrder
import Mustache.Proofs.IndentedNodes
import Mustache.Proofs.Similarity

/-!
# Tables of partials that make no difference

A template only ever asks for some of the partials in a table: for those that it names
itself, and for those that are named in the texts it has got.  So two tables render it
alike if they have the same texts under these names, whatever else there is in them.

Which partials are asked for depends on the data, and the texts are compiled again for
every place that they are included at, with the indentation of that place.  The set of
names must depend on neither.  Where data decides, all that could be included is counted
in; and indenting a text does not change the names in it, because it changes no tag.

How a table keeps its texts is not seen at all.  A hash map, a tree map, a slice and an
array with the same pairs, under distinct names, have the same text under every name.

## Main results

* `Node.exists_mem_inclusions_iff` — the names of inclusions in nodes are those of the
  tags in the text;
* `Template.Includes.of_indent` — the names are those in the indented texts, too;
* `Partials.Holds.get?_eq`, `Partials.holds_hashMap` — what is found in different kinds of
  tables;
* `Template.rendersAlike_of_tables` — tables that agree where it matters render alike.
-/

namespace Mustache

/-! ## The names of a text -/

/-- The names of the inclusions in the nodes of a text are those of its tags. -/
theorem Node.exists_mem_inclusions_iff {source name : Text} {nodes : List Node}
    (hparse : parse source = .ok nodes) :
    (∃ indent, (name, indent) ∈ inclusions nodes) ↔ (.inclusion, name) ∈ source.tags := by
  rw [inclusions_of_parse hparse, Text.tags]
  simp only [List.mem_filterMap]
  constructor
  · rintro ⟨indent, token, htoken, hmark⟩
    refine ⟨token, htoken, ?_⟩
    cases token with
    | text span => cases hmark
    | tag role name' nameSpan span indent' =>
        cases role with
        | inclusion =>
            cases hmark
            rfl
        | _ => cases hmark
  · rintro ⟨token, htoken, htag⟩
    cases token with
    | text span => cases htag
    | tag role name' nameSpan span indent =>
        cases htag
        exact ⟨indent, _, htoken, rfl⟩

/-- An inclusion that stands in the nodes is one of their inclusions. -/
theorem Node.Occurs.mem_inclusions {name indent : Text} {nodes : List Node}
    (h : Occurs (.inclusion name indent) nodes) : (name, indent) ∈ inclusions nodes := by
  have hlisted : .inclusion name indent ∈ listing nodes := h.marks_subset List.mem_cons_self
  exact List.mem_filterMap.2 ⟨_, hlisted, rfl⟩

namespace Template

/-- The names of partials that rendering the template may come to: the names in the template, and
those in the text under such a name. -/
inductive Includes (t : Template) (partials : Text → Option Text) : Text → Prop
  | inTemplate {name indent : Text} : (name, indent) ∈ Node.inclusions t.nodes →
    Includes t partials name
  | inPartial {name text inner indent : Text} {nodes : List Node} : Includes t partials name →
    partials name = some text → Node.parse text = .ok nodes →
    (inner, indent) ∈ Node.inclusions nodes → Includes t partials inner

variable {t : Template} {partials : Text → Option Text}

/-- However a text is indented, the names in it are among them. -/
theorem Includes.of_indent {name text lead inner indent : Text} {nodes : List Node}
    (h : t.Includes partials name) (hget : partials name = some text) (hlead : Text.Blank lead)
    (hparse : Node.parse (Text.indent lead text) = .ok nodes)
    (hinner : (inner, indent) ∈ Node.inclusions nodes) : t.Includes partials inner := by
  have htags := (Node.exists_mem_inclusions_iff hparse).1 ⟨indent, hinner⟩
  rw [Text.tags_indent hlead] at htags
  have hbare := Node.bare_parse_indent hlead text
  cases hplain : Node.parse text with
  | error e =>
      rw [hparse, hplain] at hbare
      cases hbare
  | ok nodes' =>
      obtain ⟨indent', hinner'⟩ := (Node.exists_mem_inclusions_iff hplain).2 htags
      exact h.inPartial hget hplain hinner'

end Template

/-! ## Rendering with two tables -/

/-- Every stack of values is like itself. -/
theorem Context.similarity_eq : Similarity (fun _ => True) Eq Eq where
  resolve := by
    rintro c _ path rfl -
    exact Finding.rel_refl (fun _ => rfl) _
  isTruthy := congrArg _
  writeValue := by
    rintro v _ rfl σ _ escaper
    rfl
  scopes := by
    rintro c _ v _ rfl rfl
    exact List.forall₂_same.2 fun _ _ => rfl

namespace Template

section Rendering

variable {t : Template} {p q : Text → Option Text} {σ : Type} [Sink σ]

/-- A partial that the template may come to is rendered alike with both tables. -/
theorem Includes.renderPartial_eq (hagree : ∀ name, t.Includes p name → p name = q name)
    (options : Options) (room : Nat) {name indent : Text} (h : t.Includes p name)
    (hindent : Text.Blank indent) (context : Context) :
    (renderPartial p options room name indent context : RenderM σ Unit) =
      renderPartial q options room name indent context := by
  induction room generalizing name indent context with
  | zero => rw [renderPartial, renderPartial, hagree name h]
  | succ room ih =>
      rw [renderPartial, renderPartial, ← hagree name h]
      cases hget : p name with
      | none => rfl
      | some text =>
          simp only
          cases hparse : Node.parse (Text.indent indent text) with
          | error e => rfl
          | ok nodes =>
              apply Context.similarity_eq.renderNodes_eq rfl nodes (fun _ _ => trivial)
              rintro inner indent' hoccurs c _ rfl
              exact ih (h.of_indent hget hindent hparse hoccurs.mem_inclusions)
                (hoccurs.blank_indent hparse) c

/-- So the template is, into any sink. -/
theorem renderTo_eq_of_includes {τ τ' : Type} [Partials τ] [Partials τ'] (t : Template) {p : τ}
    {q : τ'} (hagree : ∀ name, t.Includes (Partials.get? p) name →
      Partials.get? p name = Partials.get? q name)
    (options : Options) (v : Value) :
    (t.renderTo p options v : RenderM σ Unit) = t.renderTo q options v := by
  rw [renderTo_eq, renderTo_eq]
  apply Context.similarity_eq.renderNodes_eq rfl t.nodes (fun _ _ => trivial)
  rintro name indent hoccurs c _ rfl
  exact Includes.renderPartial_eq hagree options options.partialDepth
    (.inTemplate hoccurs.mem_inclusions) (hoccurs.blank_indent t.parsed) c

end Rendering

/-- The template is rendered alike with the two tables, in every way that there is. -/
structure RendersAlike {τ τ' : Type} [Partials τ] [Partials τ'] (t : Template) (p : τ) (q : τ') :
    Prop where
  renderTo {σ : Type} [Sink σ] (options : Options) (v : Value) :
    (t.renderTo p options v : RenderM σ Unit) = t.renderTo q options v
  renderWith (options : Options) (v : Value) : t.renderWith p options v = t.renderWith q options v
  stream {σ : Type} [ByteStream σ] (options : Options) (v : Value) (s : σ) :
    t.stream p options v s = t.stream q options v s

theorem rendersAlike_of_includes {τ τ' : Type} [Partials τ] [Partials τ'] (t : Template) {p : τ}
    {q : τ'} (hagree : ∀ name, t.Includes (Partials.get? p) name →
      Partials.get? p name = Partials.get? q name) : t.RendersAlike p q where
  renderTo := t.renderTo_eq_of_includes hagree
  renderWith options v := by rw [renderWith, renderWith, t.renderTo_eq_of_includes hagree]
  stream options v s := by rw [stream, stream, t.renderTo_eq_of_includes hagree]

end Template

/-! ## What is found in a table -/

namespace Partials

variable {τ τ' : Type} [Partials τ] [Partials τ'] {p : τ} {q : τ'} {pairs : List (Text × Text)}

/-- Under the names in the pairs the table has the texts in the pairs, and it has no other texts. -/
def Holds (table : τ) (pairs : List (Text × Text)) : Prop :=
  ∀ name text, get? table name = some text ↔ (name, text) ∈ pairs

theorem Holds.get?_eq (hp : Holds p pairs) (hq : Holds q pairs) (name : Text) :
    get? p name = get? q name := by
  refine Option.ext fun text => ?_
  rw [hp name text, hq name text]

theorem holds_of_perm {entries : List (Text × Text)} (hdistinct : (pairs.map Prod.fst).Nodup)
    (hperm : entries.Perm pairs) : Holds entries pairs := by
  intro name text
  show entries.lookup name = some text ↔ _
  rw [lookup_eq_some_iff_mem ((hperm.map Prod.fst).nodup_iff.2 hdistinct), hperm.mem_iff]

theorem holds_vector {n : Nat} {array : Vector (Text × Text) n}
    (hdistinct : (pairs.map Prod.fst).Nodup) (hperm : array.toList.Perm pairs) :
    Holds array pairs :=
  holds_of_perm hdistinct hperm

/-- A map cannot have two texts under one name. -/
theorem holds_hashMap [Hashable Text] {table : Std.HashMap Text Text}
    (hperm : table.toList.Perm pairs) : Holds table pairs := by
  intro name text
  show table[name]? = some text ↔ _
  rw [← Std.HashMap.mem_toList_iff_getElem?_eq_some, hperm.mem_iff]

theorem holds_treeMap {order : Text → Text → Ordering} [Std.TransCmp order]
    [Std.LawfulEqCmp order] {table : Std.TreeMap Text Text order}
    (hperm : table.toList.Perm pairs) : Holds table pairs := by
  intro name text
  show table[name]? = some text ↔ _
  rw [← Std.TreeMap.mem_toList_iff_getElem?_eq_some, hperm.mem_iff]

end Partials

theorem Template.rendersAlike_of_holds {τ τ' : Type} [Partials τ] [Partials τ'] (t : Template)
    {p : τ} {q : τ'} {pairs : List (Text × Text)} (hp : Partials.Holds p pairs)
    (hq : Partials.Holds q pairs) : t.RendersAlike p q :=
  t.rendersAlike_of_includes fun name _ => hp.get?_eq hq name

/-- Two tables render a template alike if they have the same texts under the names that it may come
to.  These are the names in the template, and those in the texts under such names; and however such
a text is indented, the names in it are among them.  So a hash map, a tree map, a slice and an array
with the same pairs, under distinct names and in any order, render every template alike. -/
theorem Template.rendersAlike_of_tables (t : Template) :
    (∀ {τ τ' : Type} [Partials τ] [Partials τ'] (p : τ) (q : τ'),
      (∀ name, t.Includes (Partials.get? p) name →
        Partials.get? p name = Partials.get? q name) → t.RendersAlike p q) ∧
    (∀ (partials : Text → Option Text) (name text lead inner indent : Text) (nodes : List Node),
      t.Includes partials name → partials name = some text → Text.Blank lead →
      Node.parse (Text.indent lead text) = .ok nodes → (inner, indent) ∈ Node.inclusions nodes →
      t.Includes partials inner) ∧
    ∀ [Hashable Text] {order : Text → Text → Ordering} [Std.TransCmp order]
      [Std.LawfulEqCmp order] {n : Nat} (hash : Std.HashMap Text Text)
      (tree : Std.TreeMap Text Text order) (slice : List (Text × Text))
      (array : Vector (Text × Text) n), (slice.map Prod.fst).Nodup → hash.toList.Perm slice →
      tree.toList.Perm slice → array.toList.Perm slice →
      t.RendersAlike hash slice ∧ t.RendersAlike tree slice ∧ t.RendersAlike array slice := by
  refine ⟨fun p q => t.rendersAlike_of_includes, ?_, ?_⟩
  · intro partials name text lead inner indent nodes h hget hlead hparse hinner
    exact h.of_indent hget hlead hparse hinner
  · intro _ order _ _ n hash tree slice array hdistinct hhash htree harray
    have hslice := Partials.holds_of_perm hdistinct (List.Perm.refl slice)
    refine ⟨?_, ?_, ?_⟩
    · exact t.rendersAlike_of_holds (Partials.holds_hashMap hhash) hslice
    · exact t.rendersAlike_of_holds (Partials.holds_treeMap htree) hslice
    · exact t.rendersAlike_of_holds (Partials.holds_vector hdistinct harray) hslice

/-- Two tables that have different texts for `x`, which nobody asks for; and one partial in tables
of all kinds. -/
theorem Template.rendersAlike_of_tables_of_one :
    let t : Template := ⟨"{{>p}}".toList, [.inclusion ['p'] []], by cbv⟩
    let p : List (Text × Text) := [(['p'], "a{{>q}}".toList), (['x'], ['1'])]
    let q : List (Text × Text) := [(['x'], ['2']), (['p'], "a{{>q}}".toList)]
    let hash : Std.HashMap Text Text := (∅ : Std.HashMap Text Text).insert ['p'] ['a']
    let tree : Std.TreeMap Text Text compare := .ofList [(['p'], ['a'])]
    let slice : List (Text × Text) := [(['p'], ['a'])]
    let array : Vector (Text × Text) 1 := ⟨#[(['p'], ['a'])], rfl⟩
    (∀ name, t.Includes (Partials.get? p) name → Partials.get? p name = Partials.get? q name) ∧
      t.RendersAlike p q ∧ t.RendersAlike hash slice ∧ t.RendersAlike tree slice ∧
      t.RendersAlike array slice := by
  intro t p q hash tree slice array
  have hparse : Node.parse "a{{>q}}".toList = .ok [.literal ⟨0, 1⟩, .inclusion ['q'] []] := by cbv
  have hnames : ∀ name, t.Includes (Partials.get? p) name → name = ['p'] ∨ name = ['q'] := by
    intro name h
    induction h with
    | inTemplate hmem =>
        cases List.mem_singleton.1 hmem
        exact .inl rfl
    | @inPartial _ text inner indent nodes _ hget hnodes hinner ih =>
        rcases ih with rfl | rfl
        · obtain rfl : "a{{>q}}".toList = text := Option.some.inj hget
          rw [hparse] at hnodes
          cases hnodes
          cases List.mem_singleton.1 hinner
          exact .inr rfl
        · cases hget
  have hagree : ∀ name, t.Includes (Partials.get? p) name →
      Partials.get? p name = Partials.get? q name := by
    intro name h
    rcases hnames name h with rfl | rfl
    · rfl
    · rfl
  have hhash : hash.toList.Perm slice := by
    simpa [hash, slice] using Std.HashMap.toList_insert_perm (m := (∅ : Std.HashMap Text Text))
      (k := ['p']) (v := ['a'])
  have htree : tree.toList.Perm slice := .of_eq (by decide)
  obtain ⟨hrender, -, hkinds⟩ := t.rendersAlike_of_tables
  exact ⟨hagree, hrender p q hagree,
    hkinds hash tree slice array (List.nodup_singleton _) hhash htree (List.Perm.refl _)⟩

end Mustache
