import Mathlib
import Mustache.Proofs.Occurrence
import Mustache.Proofs.Output

/-!
# HTML from a template

With the HTML escaper a template can be trusted with any data: what the data
contributes to the output holds no quotation mark and no angle bracket, and no
ampersand but that of an entity.  Markup that the output does have was written by
the author of the template or of a partial.

Two things can break this, and both are visible before anything is rendered: a
variable tag that asks for no escaping, and data that says of itself that it is
markup.  Without them every piece of the output is either a literal or the
encoding of some text.

The statements about the two kinds of characters are of the same form.  Both are
properties of texts that hold of two texts together if they hold of each, which
is `Text.Composes`; and for any such property it is enough that literals and
encoded texts have it.

## Main results

* `Text.not_mem_encode`, `Text.entitiesOnly_encode` — what an encoded text holds;
* `Context.MarkupFree.resolve` — no path leads from data without markup to markup;
* `Template.output_of_composes` — a property that composes carries over from
  literals and encoded texts to the output;
* `Template.html_of_renderWith` — the two properties of the output.
-/

namespace Mustache

/-! ## Properties that compose -/

namespace Text

/-- A property of texts that holds of texts one after the other if it holds of each. -/
structure Composes (P : Text → Prop) : Prop where
  nil : P []
  append : ∀ {a b}, P a → P b → P (a ++ b)

theorem Composes.flatMap {P : Text → Prop} (hP : Composes P) {f : Char → Text}
    (h : ∀ c, P (f c)) (t : Text) : P (t.flatMap f) := by
  induction t with
  | nil => exact hP.nil
  | cons c t ih =>
      rw [List.flatMap_cons]
      exact hP.append (h c) ih

theorem composes_not_mem (c : Char) : Composes fun t => c ∉ t where
  nil := List.not_mem_nil
  append := by
    intro a b ha hb hmem
    rcases List.mem_append.1 hmem with hmem | hmem
    · exact ha hmem
    · exact hb hmem

/-- The entities for the five special characters. -/
def entities : List Text :=
  [['&', 'a', 'm', 'p', ';'], ['&', 'l', 't', ';'], ['&', 'g', 't', ';'],
    ['&', 'q', 'u', 'o', 't', ';'], ['&', '#', '3', '9', ';']]

/-- Every ampersand in the text begins an entity. -/
def EntitiesOnly (t : Text) : Prop :=
  ∀ a b, a ++ '&' :: b = t → ∃ e ∈ entities, e <+: '&' :: b

theorem entitiesOnly_of_not_mem {t : Text} (h : '&' ∉ t) : EntitiesOnly t := by
  intro a b hab
  refine absurd ?_ h
  rw [← hab]
  exact List.mem_append_right a List.mem_cons_self

theorem composes_entitiesOnly : Composes EntitiesOnly where
  nil := by
    intro a b h
    simp at h
  append := by
    intro s t hs ht a b h
    rcases List.append_eq_append_iff.1 h with ⟨u, rfl, hu⟩ | ⟨u, rfl, hu⟩
    · cases u with
      | nil => exact ht [] b hu
      | cons c u =>
          obtain ⟨rfl, rfl⟩ := List.cons.inj hu
          obtain ⟨e, he, hbegins⟩ := hs a u rfl
          exact ⟨e, he, hbegins.trans (List.prefix_append ('&' :: u) t)⟩
    · exact ht u b hu.symm

/-! ## Encoded texts -/

/-- A character is written as an entity, or as itself if it is not special. -/
theorem encodeChar_cases (x : Char) :
    Entity.encodeChar x ∈ entities ∨
      Entity.encodeChar x = [x] ∧ x ∉ ['&', '<', '>', '"', '\''] := by
  unfold Entity.encodeChar Entity.entity?
  split <;> simp_all [entities]

theorem not_mem_encodeChar {c : Char} (hc : c ∈ ['<', '>', '"', '\'']) (x : Char) :
    c ∉ Entity.encodeChar x := by
  have hentities : ∀ c ∈ ['<', '>', '"', '\''], ∀ e ∈ entities, c ∉ e := by simp [entities]
  rcases encodeChar_cases x with hentity | ⟨hself, hplain⟩
  · exact hentities c hc _ hentity
  · rw [hself, List.mem_singleton]
    rintro rfl
    exact hplain (List.mem_cons_of_mem _ hc)

/-- An encoded text holds no angle brackets and no quotation marks. -/
theorem not_mem_encode {c : Char} (hc : c ∈ ['<', '>', '"', '\'']) (t : Text) :
    c ∉ Entity.encode t :=
  (composes_not_mem c).flatMap (not_mem_encodeChar hc) t

theorem entitiesOnly_encodeChar (x : Char) : EntitiesOnly (Entity.encodeChar x) := by
  have hentities : ∀ e ∈ entities, e.head? = some '&' ∧ '&' ∉ e.tail := by decide
  intro a b h
  rcases encodeChar_cases x with hentity | ⟨hself, hplain⟩
  · refine ⟨_, hentity, ?_⟩
    have htail := (hentities _ hentity).2
    rw [← h] at htail ⊢
    cases a with
    | nil => exact List.prefix_rfl
    | cons c a =>
        refine absurd ?_ htail
        exact List.mem_append_right a List.mem_cons_self
  · have hmem : '&' ∈ a ++ '&' :: b := List.mem_append_right a List.mem_cons_self
    rw [h, hself, List.mem_singleton] at hmem
    refine absurd ?_ hplain
    exact hmem ▸ List.mem_cons_self

/-- An encoded text holds no ampersands but those of entities. -/
theorem entitiesOnly_encode (t : Text) : EntitiesOnly (Entity.encode t) :=
  composes_entitiesOnly.flatMap entitiesOnly_encodeChar t

end Text

/-! ## Data without markup -/

/-- There is markup somewhere in the data. -/
inductive Data.HasMarkup : Data → Prop
  | raw (markup : Text) : HasMarkup (.raw markup)
  | list {items : List Data} {shown : Option (List Text)} {d : Data} :
    d ∈ items → HasMarkup d → HasMarkup (.list items shown)
  | map {access : Access} {entries : List (Key × Data)} {shown : Option (List Text)} {key : Key}
    {d : Data} :
    (key, d) ∈ entries → HasMarkup d → HasMarkup (.map access entries shown)
  | record {fields : List (Text × Data)} {shown : Option (List Text)} {name : Text} {d : Data} :
    (name, d) ∈ fields → HasMarkup d → HasMarkup (.record fields shown)
  | variant {fields : List (Text × Data)} {shown : Option (List Text)} {variant name : Text}
    {d : Data} :
    (name, d) ∈ fields → HasMarkup d → HasMarkup (.variant variant fields shown)
  | some {d : Data} : HasMarkup d → HasMarkup (.some d)
  | pointer {d : Data} : HasMarkup d → HasMarkup (.pointer d)

/-- The value is not markup, and there is none in the data that it holds. -/
def Value.MarkupFree : Value → Prop
  | .raw _ => False
  | .list items _ => ∀ d ∈ items, ¬ d.HasMarkup
  | .map _ entries _ => ∀ key d, (key, d) ∈ entries → ¬ d.HasMarkup
  | .record fields _ => ∀ name d, (name, d) ∈ fields → ¬ d.HasMarkup
  | _ => True

/-- If something is found then it has the property. -/
def Finding.All (P : Value → Prop) : Finding → Prop
  | .found v => P v
  | .nothing | .failed _ => True

/-- No value in scope is or holds markup. -/
def Context.MarkupFree (context : Context) : Prop :=
  ∀ v ∈ context, v.MarkupFree

namespace Finding

variable {P : Value → Prop}

theorem All.ofOption {α : Type} {o : Option α} {f : α → Value} (h : ∀ x, o = some x → P (f x)) :
    (ofOption (o.map f)).All P := by
  cases o with
  | none => trivial
  | some x => exact h x rfl

theorem All.or {a b : Finding} (ha : a.All P) (hb : b.All P) : (a.or b).All P := by
  cases a with
  | nothing => exact hb
  | found v => exact ha
  | failed reason => trivial

theorem All.andThen {a : Finding} {f : Value → Finding} (ha : a.All P)
    (hf : ∀ v, P v → (f v).All P) : (a.andThen f).All P := by
  cases a with
  | nothing => trivial
  | found v => exact hf v ha
  | failed reason => trivial

end Finding

namespace Value

theorem markupFree_ofData {d : Data} (h : ¬ d.HasMarkup) : (ofData d).MarkupFree := by
  cases d with
  | raw markup => exact h (.raw markup)
  | list items shown =>
      intro d hd hmarkup
      exact h (.list hd hmarkup)
  | map access entries shown =>
      intro key d hd hmarkup
      exact h (.map hd hmarkup)
  | record fields shown =>
      intro name d hd hmarkup
      exact h (.record hd hmarkup)
  | variant variant fields shown =>
      intro name d hd hmarkup
      exact h (.variant hd hmarkup)
  | some d =>
      rw [ofData_some]
      exact markupFree_ofData fun hmarkup => h (.some hmarkup)
  | pointer d =>
      rw [ofData_pointer]
      exact markupFree_ofData fun hmarkup => h (.pointer hmarkup)
  | _ => trivial

variable {v : Value}

theorem MarkupFree.scopes (h : v.MarkupFree) : ∀ scope ∈ v.scopes, scope.MarkupFree := by
  intro scope hscope
  unfold Value.scopes at hscope
  split at hscope
  · cases v with
    | list items shown =>
        obtain ⟨d, hd, rfl⟩ := List.mem_map.1 hscope
        exact markupFree_ofData (h d hd)
    | dynamic d =>
        obtain ⟨d', -, rfl⟩ := List.mem_map.1 hscope
        trivial
    | _ => cases hscope
  · split at hscope
    · rw [List.mem_singleton] at hscope
      exact hscope ▸ h
    · contradiction

theorem MarkupFree.lookup (h : v.MarkupFree) (name : Text) :
    (v.lookup name).All Value.MarkupFree := by
  unfold Value.lookup
  split
  · exact h
  · split
    · rw [Access.find?_eq_lookup]
      exact .ofOption fun d hd => markupFree_ofData (h _ d (mem_of_lookup hd))
    · exact .ofOption fun d hd => markupFree_ofData (h _ d (mem_of_lookup hd))
    · exact .ofOption fun _ _ => trivial
    · trivial
    · trivial

theorem MarkupFree.follow (h : v.MarkupFree) (names : List Text) :
    (v.follow names).All Value.MarkupFree := by
  induction names generalizing v with
  | nil => exact h
  | cons name names ih => exact (h.lookup name).andThen fun _ => ih

end Value

namespace Context

variable {context : Context}

theorem MarkupFree.cons {v : Value} (hv : v.MarkupFree) (h : context.MarkupFree) :
    MarkupFree (v :: context) := by
  intro w hw
  rcases List.mem_cons.1 hw with rfl | hw
  · exact hv
  · exact h w hw

theorem MarkupFree.find? (h : context.MarkupFree) (name : Text) :
    (context.find? name).All Value.MarkupFree := by
  induction context with
  | nil => trivial
  | cons v context ih =>
      have hv : v.MarkupFree := h v List.mem_cons_self
      exact (hv.lookup name).or (ih fun w hw => h w (List.mem_cons_of_mem v hw))

/-- What a path finds in data without markup is no markup, and holds none. -/
theorem MarkupFree.resolve (h : context.MarkupFree) (path : Path) :
    (context.resolve path).All Value.MarkupFree :=
  (h.find? path.head).andThen fun _ hv => hv.follow path.tail

end Context

/-! ## Outputs -/

section Outputs

variable {P : Text → Prop}

theorem Output.append_of_composes (hP : Text.Composes P) {a b : Output} (ha : P a.text)
    (hb : P b.text) : P (a ++ b).text := by
  cases herror : a.error? with
  | none =>
      rw [append_of_error?_eq_none herror]
      exact hP.append ha hb
  | some e =>
      rw [append_of_error?_eq_some herror]
      exact ha

theorem Output.concat_of_composes (hP : Text.Composes P) {os : List Output}
    (h : ∀ o ∈ os, P o.text) : P (concat os).text := by
  induction os with
  | nil => exact hP.nil
  | cons o os ih =>
      have hrest : P (concat os).text := ih fun o ho => h o (List.mem_cons_of_mem _ ho)
      exact append_of_composes hP (h o List.mem_cons_self) hrest

/-- What is written of a value that is no markup is encoded, piece by piece. -/
theorem Value.output_of_composes (hP : Text.Composes P) (hencode : ∀ t, P (Text.Entity.encode t))
    {v : Value} (hv : v.MarkupFree) : P (v.output (some .html)).text := by
  have hescaper : v.escaper (some .html) = some .html := by
    cases v with
    | raw markup => exact hv.elim
    | _ => rfl
  unfold Value.output
  cases v.shown with
  | error reason => exact hP.nil
  | ok pieces =>
      apply Output.concat_of_composes hP
      intro o ho
      obtain ⟨t, -, rfl⟩ := List.mem_map.1 ho
      have hpiece := hencode t
      rw [← Escaper.text_html] at hpiece
      rw [hescaper]
      exact hpiece

namespace Node

/-- The nodes write nothing but literals with the property, encoded values, and partials with the
property. -/
structure Writes (P : Text → Prop) (inclusion : Text → Text → Context → Output) (source : Text)
    (nodes : List Node) : Prop where
  literal : ∀ span, Occurs (.literal span) nodes → P ((span.cut? source).getD [])
  escaped : ∀ path, ¬ Occurs (.interpolation path false) nodes
  inclusion : ∀ name indent, Occurs (.inclusion name indent) nodes →
    ∀ context : Context, context.MarkupFree → P (inclusion name indent context).text

variable {inclusion : Text → Text → Context → Output} {source : Text}

theorem Writes.of_subset {a b : List Node} (h : Writes P inclusion source b) (hab : a ⊆ b) :
    Writes P inclusion source a where
  literal := fun span hoccurs => h.literal span (hoccurs.of_subset hab)
  escaped := fun path hoccurs => h.escaped path (hoccurs.of_subset hab)
  inclusion := fun name indent hoccurs => h.inclusion name indent (hoccurs.of_subset hab)

theorem Writes.children {kind : SectionKind} {path : Path} {children : List Node}
    (h : Writes P inclusion source [.block kind path children]) :
    Writes P inclusion source children where
  literal := fun span hoccurs => h.literal span (.inside List.mem_cons_self hoccurs)
  escaped := fun path hoccurs => h.escaped path (.inside List.mem_cons_self hoccurs)
  inclusion := fun name indent hoccurs =>
    h.inclusion name indent (.inside List.mem_cons_self hoccurs)

mutual

theorem output_of_composes (hP : Text.Composes P) (hencode : ∀ t, P (Text.Entity.encode t))
    (node : Node) (h : Writes P inclusion source [node]) (context : Context)
    (hcontext : context.MarkupFree) : P (output .html inclusion source context node).text := by
  cases node with
  | literal span =>
      unfold output
      exact h.literal span (.here List.mem_cons_self)
  | interpolation path escaped =>
      cases escaped with
      | false => exact absurd (.here List.mem_cons_self) (h.escaped path)
      | true =>
          have hfound := hcontext.resolve path
          unfold output
          cases hv : context.resolve path with
          | nothing => exact hP.nil
          | found v =>
              rw [hv] at hfound
              exact Value.output_of_composes hP hencode hfound
          | failed reason => exact hP.nil
  | block kind path children =>
      cases kind with
      | normal =>
          have hfound := hcontext.resolve path
          unfold output
          cases hv : context.resolve path with
          | nothing => exact hP.nil
          | found v =>
              rw [hv] at hfound
              apply Output.concat_of_composes hP
              intro o ho
              obtain ⟨scope, hscope, rfl⟩ := List.mem_map.1 ho
              have hfree : scope.MarkupFree := Value.MarkupFree.scopes hfound scope hscope
              exact outputs_of_composes hP hencode children h.children _ (hcontext.cons hfree)
          | failed reason => exact hP.nil
      | inverted =>
          have hchildren : P (outputs .html inclusion source context children).text :=
            outputs_of_composes hP hencode children h.children context hcontext
          unfold output
          cases context.resolve path with
          | nothing => exact hchildren
          | found v =>
              simp only
              split
              · exact hP.nil
              · exact hchildren
          | failed reason => exact hP.nil
  | inclusion name indent =>
      unfold output
      exact h.inclusion name indent (.here List.mem_cons_self) context hcontext

theorem outputs_of_composes (hP : Text.Composes P) (hencode : ∀ t, P (Text.Entity.encode t))
    (nodes : List Node) (h : Writes P inclusion source nodes) (context : Context)
    (hcontext : context.MarkupFree) : P (outputs .html inclusion source context nodes).text := by
  cases nodes with
  | nil => exact hP.nil
  | cons node nodes =>
      have hfirst : Writes P inclusion source [node] :=
        h.of_subset (List.cons_subset_cons node (List.nil_subset nodes))
      have hrest : Writes P inclusion source nodes := h.of_subset (List.subset_cons_self node nodes)
      rw [outputs_cons]
      exact Output.append_of_composes hP
        (output_of_composes hP hencode node hfirst context hcontext)
        (outputs_of_composes hP hencode nodes hrest context hcontext)

end

end Node

/-! ## The output of a template -/

namespace Template

variable {t : Template} {partials : Text → Option Text} {options : Options}

/-- The nodes of a text that is compiled with the template write what the property holds of, if the
partials that they include do. -/
theorem Compiles.writes {source : Text} {nodes : List Node}
    {inclusion : Text → Text → Context → Output} (hP : Text.Composes P)
    (hescaped : t.AllEscaped partials)
    (hliteral : ∀ literal, t.HasLiteral partials literal → P literal)
    (h : t.Compiles partials source nodes)
    (hinclusion : ∀ name indent, Node.Occurs (.inclusion name indent) nodes →
      ∀ context : Context, context.MarkupFree → P (inclusion name indent context).text) :
    Node.Writes P inclusion source nodes where
  literal := by
    intro span hoccurs
    cases hcut : span.cut? source with
    | none => exact hP.nil
    | some literal => exact hliteral literal ⟨source, nodes, span, h, hoccurs, hcut⟩
  escaped := (h.allEscaped hescaped).not_occurs h.parse_eq
  inclusion := hinclusion

/-- Every partial that is included on the way writes what the property holds of. -/
theorem partials_output_of_composes (hP : Text.Composes P)
    (hencode : ∀ t, P (Text.Entity.encode t)) (hescaper : options.escaper = .html)
    (hescaped : t.AllEscaped partials)
    (hliteral : ∀ literal, t.HasLiteral partials literal → P literal) (room : Nat) {source : Text}
    {nodes : List Node} (h : t.Compiles partials source nodes) (name indent : Text)
    (hoccurs : Node.Occurs (.inclusion name indent) nodes) (context : Context)
    (hcontext : context.MarkupFree) :
    P (Partials.output partials options room name indent context).text := by
  -- The partial may include others, which are compiled with the template as it is; so the induction
  -- is on the room that is left for them, for all texts that are compiled.
  induction room generalizing source nodes name indent context with
  | zero =>
      unfold Partials.output
      cases partials name with
      | none => exact hP.nil
      | some text => exact hP.nil
  | succ room ih =>
      unfold Partials.output
      cases hget : partials name with
      | none => exact hP.nil
      | some text =>
          simp only
          cases hparse : Node.parse (Text.indent indent text) with
          | error e => exact hP.nil
          | ok children =>
              have hcompiles : t.Compiles partials (Text.indent indent text) children :=
                .inclusion h hoccurs hget hparse
              have hwrites := hcompiles.writes hP hescaped hliteral (ih hcompiles)
              simp only [hescaper]
              exact Node.outputs_of_composes hP hencode children hwrites context hcontext

/-- A property that composes holds of the output of a template, if it holds of all literals and of
all encoded texts. -/
theorem output_of_composes {τ : Type} [Partials τ] {partials : τ} (hP : Text.Composes P)
    (hencode : ∀ t, P (Text.Entity.encode t)) (hescaper : options.escaper = .html)
    (hescaped : t.AllEscaped (Partials.get? partials))
    (hliteral : ∀ literal, t.HasLiteral (Partials.get? partials) literal → P literal) {v : Value}
    (hv : v.MarkupFree) : P (t.output partials options v).text := by
  have hcompiles : t.Compiles (Partials.get? partials) t.source t.nodes := .template
  have hinclusion := partials_output_of_composes hP hencode hescaper hescaped hliteral
    options.partialDepth hcompiles
  have hwrites := hcompiles.writes hP hescaped hliteral hinclusion
  have hcontext : Context.MarkupFree [v] := Context.MarkupFree.cons hv nofun
  unfold Template.output
  rw [hescaper]
  exact Node.outputs_of_composes hP hencode t.nodes hwrites [v] hcontext

/-- Rendering with the HTML escaper, with no variable tag that is unescaped and no markup in the
data, writes no angle brackets and no quotation marks but those of literals.  If no literal has an
ampersand, all ampersands that it writes are those of entities. -/
theorem html_of_renderWith {τ : Type} [Partials τ] {partials : τ} {d : Data} {out : Text}
    (hescaper : options.escaper = .html) (hescaped : t.AllEscaped (Partials.get? partials))
    (hdata : ¬ d.HasMarkup) (hout : t.renderWith partials options (.ofData d) = .ok out) :
    (∀ c ∈ ['<', '>', '"', '\''],
        (∀ literal, t.HasLiteral (Partials.get? partials) literal → c ∉ literal) → c ∉ out) ∧
      ((∀ literal, t.HasLiteral (Partials.get? partials) literal → '&' ∉ literal) →
        ∀ a b, a ++ '&' :: b = out → ∃ e ∈ Text.entities, e <+: '&' :: b) := by
  have hfree : (Value.ofData d).MarkupFree := Value.markupFree_ofData hdata
  have htext : (t.output partials options (.ofData d)).text = out := by
    rw [renderWith_eq_ok_iff.1 hout]
    rfl
  rw [← htext]
  constructor
  · intro c hc hliteral
    exact output_of_composes (Text.composes_not_mem c) (Text.not_mem_encode hc) hescaper hescaped
      hliteral hfree
  · intro hliteral
    have hentities : ∀ literal, t.HasLiteral (Partials.get? partials) literal →
        Text.EntitiesOnly literal :=
      fun literal h => Text.entitiesOnly_of_not_mem (hliteral literal h)
    exact output_of_composes Text.composes_entitiesOnly Text.entitiesOnly_encode hescaper hescaped
      hentities hfree

/-- A template with a partial, and data with all of the special characters, some of them in the
text that a list writes. -/
theorem html_of_renderWith_of_partial :
    let table : List (Text × Text) := [(['p'], "{{#s}}{{x}}\n{{/s}}".toList)]
    let d : Data := .record
      [(['x'], .text "\"&<".toList),
        (['s'], .list [.bool true, .dynamic (.object [(['x'], .text "'>".toList)])]
          (some [['<'], "s>".toList]))] none
    let out := "<b>&quot;&amp;&lt;&lt;s&gt;</b>\n &quot;&amp;&lt;\n&#39;&gt;\n".toList
    ∃ t : Template, t.source = "<b>{{x}}{{s}}</b>\n {{>p}}".toList ∧
      t.renderWith table {} (.ofData d) = .ok out ∧ '"' ∉ out ∧ '\'' ∉ out ∧
        ∀ a b, a ++ '&' :: b = out → ∃ e ∈ Text.entities, e <+: '&' :: b := by
  intro table d out
  let t : Template := ⟨"<b>{{x}}{{s}}</b>\n {{>p}}".toList,
    [.literal ⟨0, 3⟩, .interpolation ⟨['x'], []⟩ true, .interpolation ⟨['s'], []⟩ true,
      .literal ⟨13, 5⟩, .inclusion ['p'] [' ']],
    by cbv⟩
  have hout : t.renderWith table {} (.ofData d) = .ok out := by cbv
  have htable : ∀ name text, Partials.get? table name = some text →
      text = "{{#s}}{{x}}\n{{/s}}".toList := by
    intro name text hget
    have := Value.mem_of_lookup hget
    simp only [table, List.mem_singleton, Prod.mk.injEq] at this
    exact this.2
  have hescaped : t.AllEscaped (Partials.get? table) := by
    constructor
    · have htags : t.source.tags = [(.interpolation true, ['x']), (.interpolation true, ['s']),
        (.inclusion, ['p'])] := by cbv
      intro name
      simp [htags]
    · intro name text hget name'
      have htags : Text.tags "{{#s}}{{x}}\n{{/s}}".toList =
          [(.opening .normal, ['s']), (.interpolation true, ['x']), (.closing, ['s'])] := by cbv
      rw [htable name text hget, htags]
      simp
  have hdata : ¬ d.HasMarkup := by
    intro h
    unfold d at h
    cases h with
    | record hfield hmarkup =>
        simp only [List.mem_cons, Prod.mk.injEq, List.not_mem_nil, or_false] at hfield
        rcases hfield with ⟨-, rfl⟩ | ⟨-, rfl⟩
        · cases hmarkup
        · cases hmarkup with
          | list hitem hmarkup =>
              simp only [List.mem_cons, List.not_mem_nil, or_false] at hitem
              rcases hitem with rfl | rfl <;> cases hmarkup
  have hliteral : ∀ c ∈ ['"', '\'', '&'], ∀ literal,
      t.HasLiteral (Partials.get? table) literal → c ∉ literal := by
    have hchar : ∀ c ∈ ['"', '\'', '&'], Text.isBlank c = false ∧
        c ∉ "<b>{{x}}{{s}}</b>\n {{>p}}".toList ∧ c ∉ "{{#s}}{{x}}\n{{/s}}".toList := by
      simp [Text.isBlank]
    intro c hc literal h
    obtain ⟨hblank, hsource, htext⟩ := hchar c hc
    refine h.not_mem hblank hsource ?_
    intro name text hget
    rwa [htable name text hget]
  obtain ⟨hchars, hampersands⟩ := html_of_renderWith rfl hescaped hdata hout
  refine ⟨t, rfl, hout, ?_, ?_, ?_⟩
  · exact hchars '"' (by decide) (hliteral '"' (by decide))
  · exact hchars '\'' (by decide) (hliteral '\'' (by decide))
  · exact hampersands (hliteral '&' (by decide))

end Template

end Outputs

end Mustache
