import Mustache.Proofs.IndentedTags
import Mustache.Proofs.SectionStack
import Mustache.Template

/-!
# What stands in a template

Sections nest, and a template also contains, in a way, the partials that it
includes, and the partials that these include.  This file says what it means for
a node to stand somewhere in a list of nodes, and which texts are compiled with a
template.

A partial is compiled with the indentation of the tag that includes it.  The
indentation is blank, so by `Cursor.tags_shifted` the tags of the text are those
that it has in the table of partials.  What is true of all the tags of a table is
therefore true of all the partials that are ever compiled.

## Main results

* `Node.Occurs.marks_subset` — what stands in nodes is listed;
* `Node.Occurs.blank_indent` — the indentation of an inclusion is blank;
* `Template.Compiles.allEscaped` — if no variable tag of a template and of its
  partials is unescaped, the same holds of all texts that are compiled with it.
-/

namespace Mustache

/-! ## Nodes in nodes -/

namespace Node

/-- The node stands somewhere in the nodes, inside any number of sections. -/
inductive Occurs (node : Node) : List Node → Prop
  | here {nodes : List Node} : node ∈ nodes → Occurs node nodes
  | inside {nodes children : List Node} {kind : SectionKind} {path : Path} :
    .block kind path children ∈ nodes → Occurs node children → Occurs node nodes

theorem Occurs.of_subset {node : Node} {a b : List Node} (h : Occurs node a) (hab : a ⊆ b) :
    Occurs node b := by
  cases h with
  | here hmem => exact .here (hab hmem)
  | inside hmem hchildren => exact .inside (hab hmem) hchildren

theorem marks_subset_listing {node : Node} {nodes : List Node} (h : node ∈ nodes) :
    node.marks ⊆ listing nodes := by
  obtain ⟨before, after, rfl⟩ := List.append_of_mem h
  intro mark hmark
  rw [listing_append, listing_cons]
  exact List.mem_append_right _ (List.mem_append_left _ hmark)

/-- What stands in nodes is listed. -/
theorem Occurs.marks_subset {node : Node} {nodes : List Node} (h : Occurs node nodes) :
    node.marks ⊆ listing nodes := by
  induction h with
  | here hmem => exact marks_subset_listing hmem
  | inside hmem _ ih =>
      intro mark hmark
      refine marks_subset_listing hmem ?_
      rw [marks]
      exact List.mem_append_left _ (List.mem_cons_of_mem _ (ih hmark))

/-- A mark of a node that stands in a template is that of a token. -/
theorem Occurs.exists_token {source : Text} {node : Node} {nodes : List Node}
    (h : Occurs node nodes) (hparse : parse source = .ok nodes) {mark : Mark}
    (hmark : mark ∈ node.marks) :
    ∃ token ∈ (Cursor.start source).tokens.1, token.mark = mark := by
  have hlisted := h.marks_subset hmark
  rw [listing_of_parse hparse] at hlisted
  exact List.mem_map.1 hlisted

end Node

/-! ## The indentation of an inclusion -/

theorem Cursor.blank_indent_of_mem_tokens {source : Text}
    (hfault : (start source).tokens.2 = none) {role : Role} {name indent : Text}
    {nameSpan span : Span} (ht : .tag role name nameSpan span indent ∈ (start source).tokens.1) :
    Text.Blank indent := by
  obtain ⟨hsteps, -⟩ := (follows_start source).run
  rw [(tokens_eq_of_snd_eq_none hfault).2, List.mem_append, List.mem_flatMap] at ht
  rcases ht with ⟨p, hp, ht⟩ | ht
  · exact (hsteps p hp).2.blank_indent ht
  · unfold Token.ofText at ht
    split at ht <;> simp at ht

theorem Node.Occurs.blank_indent {source name indent : Text} {nodes : List Node}
    (h : Occurs (.inclusion name indent) nodes) (hparse : parse source = .ok nodes) :
    Text.Blank indent := by
  obtain ⟨token, htoken, hmark⟩ := h.exists_token hparse (List.mem_singleton.2 rfl)
  cases token with
  | text span => cases hmark
  | tag role name' nameSpan span indent' =>
      cases role with
      | inclusion =>
          cases hmark
          exact Cursor.blank_indent_of_mem_tokens (parse_eq_ok_iff.1 hparse).1 htoken
      | _ => cases hmark

/-! ## Variable tags that escape -/

/-- The tags of a text that have a name: what each is for, and the name. -/
def Text.tags (source : Text) : List (Role × Text) :=
  (Cursor.start source).tokens.1.filterMap Token.tag?

/-- No variable tag of the text is unescaped. -/
def Text.AllEscaped (source : Text) : Prop :=
  ∀ name, (.interpolation false, name) ∉ source.tags

/-- Indenting a text does not change its tags. -/
theorem Text.tags_indent {lead : Text} (hlead : Text.Blank lead) (source : Text) :
    (Text.indent lead source).tags = source.tags :=
  (Cursor.tags_shifted (Cursor.shifted_start lead source) hlead).1

theorem Text.AllEscaped.not_occurs {source : Text} {nodes : List Node} (h : source.AllEscaped)
    (hparse : Node.parse source = .ok nodes) (path : Path) :
    ¬ Node.Occurs (.interpolation path false) nodes := by
  intro hoccurs
  obtain ⟨token, htoken, hmark⟩ := hoccurs.exists_token hparse (List.mem_singleton.2 rfl)
  refine h path.name (List.mem_filterMap.2 ⟨token, htoken, ?_⟩)
  cases token with
  | text span => cases hmark
  | tag role name nameSpan span indent =>
      cases role with
      | interpolation escaped =>
          cases hmark
          rfl
      | _ => cases hmark

/-! ## The texts that are compiled with a template -/

namespace Template

variable {t : Template} {partials : Text → Option Text} {source : Text} {nodes : List Node}

/-- The text `source`, which has the nodes `nodes`, is compiled with the template: it is the text of
the template itself, or a partial that a text compiled with the template includes, with the
indentation that it is included with. -/
inductive Compiles (t : Template) (partials : Text → Option Text) : Text → List Node → Prop
  | template : Compiles t partials t.source t.nodes
  | inclusion {source text name indent : Text} {nodes children : List Node} :
    Compiles t partials source nodes → Node.Occurs (.inclusion name indent) nodes →
    partials name = some text → Node.parse (Text.indent indent text) = .ok children →
    Compiles t partials (Text.indent indent text) children

theorem Compiles.parse_eq (h : t.Compiles partials source nodes) :
    Node.parse source = .ok nodes := by
  cases h with
  | template => exact t.parsed
  | inclusion _ _ _ hparse => exact hparse

/-- No variable tag is unescaped in the template and in the texts of the table. -/
structure AllEscaped (t : Template) (partials : Text → Option Text) : Prop where
  template : t.source.AllEscaped
  partials : ∀ name text, partials name = some text → text.AllEscaped

/-- If no variable tag of a template and of the table is unescaped, none is unescaped in any of the
texts that are compiled with the template. -/
theorem Compiles.allEscaped (h : t.Compiles partials source nodes)
    (hescaped : t.AllEscaped partials) : source.AllEscaped := by
  cases h with
  | template => exact hescaped.template
  | inclusion hfrom hoccurs hget _ =>
      intro name
      rw [Text.tags_indent (hoccurs.blank_indent hfrom.parse_eq)]
      exact hescaped.partials _ _ hget name

/-- The text is a literal of the template, or of a partial as it is compiled with the template. -/
def HasLiteral (t : Template) (partials : Text → Option Text) (literal : Text) : Prop :=
  ∃ source nodes span, t.Compiles partials source nodes ∧
    Node.Occurs (.literal span) nodes ∧ span.cut? source = some literal

/-- A character in a text that is compiled stands in the template or in a text of the table, if it
is no blank. -/
theorem Compiles.not_mem (h : t.Compiles partials source nodes) {c : Char}
    (hblank : Text.isBlank c = false) (htemplate : c ∉ t.source)
    (hpartials : ∀ name text, partials name = some text → c ∉ text) : c ∉ source := by
  cases h with
  | template => exact htemplate
  | @inclusion _ text name indent _ _ hfrom hoccurs hget _ =>
      intro hmem
      rcases Text.mem_indent hmem with hlead | htext
      · have := hoccurs.blank_indent hfrom.parse_eq c hlead
        rw [hblank] at this
        contradiction
      · exact hpartials name text hget htext

theorem HasLiteral.not_mem {literal : Text} (h : t.HasLiteral partials literal) {c : Char}
    (hblank : Text.isBlank c = false) (htemplate : c ∉ t.source)
    (hpartials : ∀ name text, partials name = some text → c ∉ text) : c ∉ literal := by
  obtain ⟨source, nodes, span, hcompiles, -, hcut⟩ := h
  obtain ⟨before, after, happend, -, -⟩ := Span.cut?_eq_some_iff.1 hcut
  intro hmem
  refine hcompiles.not_mem hblank htemplate hpartials ?_
  rw [happend]
  exact List.mem_append_left after (List.mem_append_right before hmem)

end Template

end Mustache
