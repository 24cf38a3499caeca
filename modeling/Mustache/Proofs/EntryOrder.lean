import Mustache.Proofs.DynamicData

/-!
# The order of entries

A map hands out its entries in some order, and for many maps it is not the same
order twice.  What a template makes of a map must not depend on it.  Where names are
looked up by going through the entries, the first that has the name for its key is
taken.  Since no two entries have the same key, the first one is the only one,
wherever it stands.

`Data.Reordered` lets the entries of any number of maps and objects change places
at once, at every depth.  A value that stands in a reordered map may itself be
reordered, so what is found in the two maps is not the same but related again,
and this is what `Value.Similarity` wants of a relation.

Order can show all the same, namely in the text of a type that has one of its own:
nothing keeps such a type from writing the entries of a map one after the other.  So
how the texts in the one and the other data are related is a parameter of
`Data.Reordered`, and that they are equal is an assumption of the theorem.
`Template.renderWith_of_ownText_of_selfKey` says what may happen otherwise.  It also has
the one key that is text and yet found under no name: the name `.` is always the value
itself.

## Main results

* `lookup_eq_of_perm` — where the keys are distinct, the order of entries does not
  matter to looking up;
* `Value.lookup_map_eq_found_iff` — a name finds what stands under the key that is
  this text, and nothing under keys of other types;
* `Value.similarity_reordered` — reordered data answers the questions of a template
  alike;
* `Template.renderTo_reordered` — a template is rendered alike for data and for the
  same data with its entries in another order, if no text shows the order.
-/

namespace Mustache

/-! ## Entries in another order -/

section Entries

variable {κ α : Type} {R : α → α → Prop}

/-- The entries have distinct keys, and in some order the other entries have the same keys and
related values. -/
structure Reorders (R : α → α → Prop) (entries between entries' : List (κ × α)) : Prop where
  distinct : (entries.map Prod.fst).Nodup
  keys : entries.map Prod.fst = between.map Prod.fst
  values : List.Forall₂ R (entries.map Prod.snd) (between.map Prod.snd)
  perm : between.Perm entries'

theorem isEmpty_eq_of_map_fst {entries entries' : List (κ × α)}
    (h : entries.map Prod.fst = entries'.map Prod.fst) : entries.isEmpty = entries'.isEmpty := by
  have hempty := congrArg List.isEmpty h
  rwa [List.isEmpty_map, List.isEmpty_map] at hempty

theorem Reorders.isEmpty_eq {entries between entries' : List (κ × α)}
    (h : Reorders R entries between entries') : entries.isEmpty = entries'.isEmpty := by
  rw [isEmpty_eq_of_map_fst h.keys, h.perm.isEmpty_eq]

variable [BEq κ] [LawfulBEq κ]

/-- Where the keys are distinct, an entry is found under its key. -/
theorem lookup_eq_some_iff_mem {key : κ} {x : α} {entries : List (κ × α)}
    (hdistinct : (entries.map Prod.fst).Nodup) :
    entries.lookup key = some x ↔ (key, x) ∈ entries := by
  refine ⟨Value.mem_of_lookup, fun hmem => ?_⟩
  obtain ⟨before, after, rfl⟩ := List.append_of_mem hmem
  refine List.lookup_eq_some_iff.2 ⟨before, after, rfl, ?_⟩
  rw [List.map_append, List.map_cons, List.nodup_append] at hdistinct
  intro entry hentry
  rw [bne_iff_ne]
  exact (hdistinct.2.2 _ (List.mem_map_of_mem hentry) _ List.mem_cons_self).symm

/-- Where the keys are distinct, the order of entries does not matter to looking up. -/
theorem lookup_eq_of_perm {entries entries' : List (κ × α)}
    (hdistinct : (entries.map Prod.fst).Nodup) (hperm : entries.Perm entries') (key : κ) :
    entries.lookup key = entries'.lookup key := by
  have hdistinct' : (entries'.map Prod.fst).Nodup := (hperm.map Prod.fst).nodup_iff.1 hdistinct
  refine Option.ext fun x => ?_
  rw [lookup_eq_some_iff_mem hdistinct, lookup_eq_some_iff_mem hdistinct', hperm.mem_iff]

omit [LawfulBEq κ] in
/-- Related values under the same keys, in the same order, are found as related values. -/
theorem rel_lookup_of_forall₂ {entries entries' : List (κ × α)}
    (hkeys : entries.map Prod.fst = entries'.map Prod.fst)
    (hvalues : List.Forall₂ R (entries.map Prod.snd) (entries'.map Prod.snd)) (key : κ) :
    Option.Rel R (entries.lookup key) (entries'.lookup key) := by
  induction entries generalizing entries' with
  | nil =>
      obtain rfl : entries' = [] := by simpa using hkeys.symm
      exact .none
  | cons entry entries ih =>
      cases entries' with
      | nil => cases hkeys
      | cons entry' entries' =>
          obtain ⟨hkey, hkeys⟩ := List.cons.inj hkeys
          cases hvalues with
          | cons hvalue hvalues =>
              rw [List.lookup_cons, List.lookup_cons, hkey]
              cases key == entry'.1 with
              | true => exact .some hvalue
              | false => exact ih hkeys hvalues

/-- What is found under a key in entries and in reordered ones is related. -/
theorem Reorders.rel_lookup {entries between entries' : List (κ × α)}
    (h : Reorders R entries between entries') (key : κ) :
    Option.Rel R (entries.lookup key) (entries'.lookup key) := by
  have hdistinct : (between.map Prod.fst).Nodup := h.keys ▸ h.distinct
  rw [← lookup_eq_of_perm hdistinct h.perm]
  exact rel_lookup_of_forall₂ h.keys h.values key

end Entries

/-! ## Reordered data -/

section Reordered

variable (texts : Option (List Text) → Option (List Text) → Prop)

/-- The second data is the first one with the entries of its objects in another order.  The texts
that types bring along may change with the order, and `texts` says how. -/
inductive Dynamic.Reordered : Dynamic → Dynamic → Prop
  | refl (d : Dynamic) : Reordered d d
  | array {items items' : List Dynamic} : List.Forall₂ Reordered items items' →
    Reordered (.array items) (.array items')
  /-- Keys are distinct.  The values may change too, and then the entries change places. -/
  | object {entries between entries' : List (Text × Dynamic)} : (entries.map Prod.fst).Nodup →
    entries.map Prod.fst = between.map Prod.fst →
    List.Forall₂ Reordered (entries.map Prod.snd) (between.map Prod.snd) →
    between.Perm entries' → Reordered (.object entries) (.object entries')
  | other {shown shown' : Option (List Text)} : texts shown shown' →
    Reordered (.other shown) (.other shown')

/-- The second data is the first one with the entries of its maps, and of the objects in its dynamic
data, in another order.  The texts that types bring along may change with the order, and `texts`
says how. -/
inductive Data.Reordered : Data → Data → Prop
  | refl (d : Data) : Reordered d d
  | list {items items' : List Data} {shown shown' : Option (List Text)} :
    List.Forall₂ Reordered items items' → texts shown shown' →
    Reordered (.list items shown) (.list items' shown')
  /-- Keys are distinct.  The values may change too, and then the entries change places. -/
  | map {access : Access} {entries between entries' : List (Key × Data)}
    {shown shown' : Option (List Text)} : (entries.map Prod.fst).Nodup →
    entries.map Prod.fst = between.map Prod.fst →
    List.Forall₂ Reordered (entries.map Prod.snd) (between.map Prod.snd) →
    between.Perm entries' → texts shown shown' →
    Reordered (.map access entries shown) (.map access entries' shown')
  | record {fields fields' : List (Text × Data)} {shown shown' : Option (List Text)} :
    fields.map Prod.fst = fields'.map Prod.fst →
    List.Forall₂ Reordered (fields.map Prod.snd) (fields'.map Prod.snd) → texts shown shown' →
    Reordered (.record fields shown) (.record fields' shown')
  | variant {name : Text} {fields fields' : List (Text × Data)}
    {shown shown' : Option (List Text)} : fields.map Prod.fst = fields'.map Prod.fst →
    List.Forall₂ Reordered (fields.map Prod.snd) (fields'.map Prod.snd) → texts shown shown' →
    Reordered (.variant name fields shown) (.variant name fields' shown')
  | dynamic {d d' : Dynamic} : d.Reordered texts d' → Reordered (.dynamic d) (.dynamic d')
  | sealed {shown shown' : Option (List Text)} : texts shown shown' →
    Reordered (.sealed shown) (.sealed shown')
  | unreadable {shape : Shape} {reason : Text} {shown shown' : Option (List Text)} :
    texts shown shown' →
    Reordered (.unreadable shape shown reason) (.unreadable shape shown' reason)
  | some {d d' : Data} : Reordered d d' → Reordered (.some d) (.some d')
  | pointer {d d' : Data} : Reordered d d' → Reordered (.pointer d) (.pointer d')

/-- The second value is the first one with entries in another order, in the data that it holds. -/
inductive Value.Reordered : Value → Value → Prop
  | refl (v : Value) : Reordered v v
  | list {items items' : List Data} {shown : List Text} :
    List.Forall₂ (Data.Reordered texts) items items' →
    Reordered (.list items shown) (.list items' shown)
  | map {access : Access} {entries between entries' : List (Key × Data)} {shown : List Text} :
    Reorders (Data.Reordered texts) entries between entries' →
    Reordered (.map access entries shown) (.map access entries' shown)
  | record {fields fields' : List (Text × Data)} {shown : List Text} :
    fields.map Prod.fst = fields'.map Prod.fst →
    List.Forall₂ (Data.Reordered texts) (fields.map Prod.snd) (fields'.map Prod.snd) →
    Reordered (.record fields shown) (.record fields' shown)
  | dynamic {d d' : Dynamic} : d.Reordered texts d' → Reordered (.dynamic d) (.dynamic d')

end Reordered

namespace Value

variable {texts : Option (List Text) → Option (List Text) → Prop}
  (htexts : ∀ shown shown', texts shown shown' → shown = shown')
include htexts

/-- Reordered data makes a reordered value. -/
theorem reordered_ofData (d d' : Data) (h : d.Reordered texts d') :
    Reordered texts (ofData d) (ofData d') := by
  cases h with
  | refl => exact .refl _
  | list hitems htext =>
      cases htexts _ _ htext
      exact .list hitems
  | map hdistinct hkeys hvalues hperm htext =>
      cases htexts _ _ htext
      exact .map ⟨hdistinct, hkeys, hvalues, hperm⟩
  | record hnames hvalues htext =>
      cases htexts _ _ htext
      exact .record hnames hvalues
  | variant hnames hvalues htext =>
      cases htexts _ _ htext
      rw [ofData, ofData, isEmpty_eq_of_map_fst hnames]
      exact .record hnames hvalues
  | dynamic hd => exact .dynamic hd
  | sealed htext =>
      cases htexts _ _ htext
      exact .refl _
  | unreadable htext =>
      cases htexts _ _ htext
      exact .refl _
  | @some e e' he => exact reordered_ofData e e' he
  | @pointer e e' he => exact reordered_ofData e e' he
termination_by d

theorem Reordered.lookup {v v' : Value} (h : Reordered texts v v') (name : Text) :
    (v.lookup name).Rel (Reordered texts) (v'.lookup name) := by
  by_cases hself : name = ['.']
  · subst hself
    exact .found h
  · cases h with
    | refl => exact Finding.rel_refl .refl _
    | list hitems =>
        simp only [Value.lookup, if_neg hself]
        exact .nothing
    | map hentries =>
        rw [lookup_map hself, lookup_map hself]
        exact Finding.rel_ofOption (reordered_ofData htexts) (hentries.rel_lookup _)
    | record hnames hvalues =>
        rw [lookup_record hself, lookup_record hself]
        exact Finding.rel_ofOption (reordered_ofData htexts)
          (rel_lookup_of_forall₂ hnames hvalues name)
    | dynamic hd =>
        cases hd with
        | refl => exact Finding.rel_refl .refl _
        | array hitems =>
            simp only [Value.lookup, if_neg hself]
            exact .nothing
        | object hdistinct hkeys hvalues hperm =>
            have hentries : Reorders _ _ _ _ := ⟨hdistinct, hkeys, hvalues, hperm⟩
            rw [lookup_object hself, lookup_object hself]
            exact Finding.rel_ofOption (fun _ _ => .dynamic) (hentries.rel_lookup name)
        | other htext =>
            simp only [Value.lookup, if_neg hself]
            exact .nothing

theorem Reordered.elements {v v' : Value} (h : Reordered texts v v') :
    List.Forall₂ (Reordered texts) v.elements v'.elements := by
  cases h with
  | refl => exact List.forall₂_same.2 fun w _ => .refl w
  | list hitems =>
      rw [Value.elements, Value.elements, List.forall₂_map_left_iff, List.forall₂_map_right_iff]
      exact hitems.imp fun _ _ hitem => reordered_ofData htexts _ _ hitem
  | map hentries => exact .nil
  | record hnames hvalues => exact .nil
  | dynamic hd =>
      cases hd with
      | refl d => exact List.forall₂_same.2 fun w _ => .refl w
      | array hitems =>
          rw [Value.elements, Value.elements, List.forall₂_map_left_iff,
            List.forall₂_map_right_iff]
          exact hitems.imp fun _ _ hitem => .dynamic hitem
      | object _ _ _ _ => exact .nil
      | other _ => exact .nil

/-- Reordered data answers the questions of a template alike. -/
theorem similarity_reordered : Similarity (Reordered texts) where
  isTruthy := by
    intro v v' h
    cases h with
    | refl => rfl
    | list hitems =>
        rw [isTruthy, isTruthy]
        cases hitems <;> rfl
    | map hentries => rw [isTruthy, isTruthy, hentries.isEmpty_eq]
    | record hnames hvalues => rfl
    | dynamic hd =>
        rw [isTruthy, isTruthy]
        cases hd with
        | refl => rfl
        | array hitems => cases hitems <;> rfl
        | object hdistinct hkeys hvalues hperm =>
            have hentries : Reorders _ _ _ _ := ⟨hdistinct, hkeys, hvalues, hperm⟩
            rw [Dynamic.isTruthy, Dynamic.isTruthy, hentries.isEmpty_eq]
        | other _ => rfl
  isIterable := by
    intro v v' h
    cases h with
    | dynamic hd => cases hd <;> rfl
    | _ => rfl
  elements h := h.elements htexts
  writeValue := by
    intro v v' h σ _ escaper
    cases h with
    | dynamic hd =>
        cases hd with
        | other htext =>
            cases htexts _ _ htext
            rfl
        | _ => rfl
    | _ => rfl
  lookup h name := h.lookup htexts name

omit htexts in
/-- A name finds what stands in a map under the key that is this text, whichever way it is got out
of the map.  Under a key that is an integer or a character no name finds anything. -/
theorem lookup_map_eq_found_iff (access : Access) {entries : List (Key × Data)}
    (shown : List Text) (hdistinct : (entries.map Prod.fst).Nodup) {name : Text}
    (hself : name ≠ ['.']) {v : Value} :
    (map access entries shown).lookup name = .found v ↔
      ∃ d, (.text name, d) ∈ entries ∧ ofData d = v := by
  have hfound (found : Option Data) :
      Finding.ofOption (found.map ofData) = .found v ↔ ∃ d, found = some d ∧ ofData d = v := by
    cases found <;> simp [Finding.ofOption]
  rw [lookup_map hself, hfound]
  simp only [lookup_eq_some_iff_mem hdistinct]

end Value

/-- A template is rendered alike for data and for the same data with the entries of its maps and
objects in another order, into any sink, provided that the types which bring along a text bring
along the same one in both.  This goes for keys of every type: a name finds what stands under the
key that is this text, and no name finds what stands under an integer or a character.  The name `.`
is the exception, since it finds the map itself. -/
theorem Template.renderTo_reordered {σ : Type} [Sink σ] {τ : Type} [Partials τ] (t : Template)
    (partials : τ) (options : Options) {texts : Option (List Text) → Option (List Text) → Prop}
    (htexts : ∀ shown shown', texts shown shown' → shown = shown') {d d' : Data}
    (h : d.Reordered texts d') :
    (t.renderTo partials options (.ofData d) : RenderM σ Unit) =
        t.renderTo partials options (.ofData d') ∧
      ∀ access (entries : List (Key × Data)) shown, (entries.map Prod.fst).Nodup →
        let map := Value.ofData (.map access entries shown)
        map.lookup ['.'] = .found map ∧ ∀ name : Text, name ≠ ['.'] → ∀ v,
          map.lookup name = .found v ↔ ∃ d, (.text name, d) ∈ entries ∧ .ofData d = v := by
  have hvalues := Value.reordered_ofData htexts d d' h
  refine ⟨(Value.similarity_reordered htexts).renderTo_eq hvalues t partials options, ?_⟩
  intro access entries shown hdistinct map
  refine ⟨map.lookup_self, fun name hself v => ?_⟩
  exact Value.lookup_map_eq_found_iff access _ hdistinct hself

/-- A map and an object in it, both with their entries in another order.  The key that is an integer
is not found. -/
theorem Template.renderTo_reordered_of_object :
    let t : Template := ⟨"{{a}}{{7}}{{#o}}{{x}}{{y}}{{/o}}".toList,
      [.interpolation ⟨['a'], []⟩ true, .interpolation ⟨['7'], []⟩ true,
        .block .normal ⟨['o'], []⟩
          [.interpolation ⟨['x'], []⟩ true, .interpolation ⟨['y'], []⟩ true]], by cbv⟩
    let x : Text × Dynamic := (['x'], .null)
    let y : Text × Dynamic := (['y'], .bool true)
    let d : Data := .map .search [(.text ['a'], .integer 1), (.integer 7, .integer 2),
      (.text ['o'], .some (.dynamic (.object [x, y])))] none
    let d' : Data := .map .search [(.text ['o'], .some (.dynamic (.object [y, x]))),
      (.integer 7, .integer 2), (.text ['a'], .integer 1)] none
    d.Reordered Eq d' ∧ t.renderWith NoPartials.mk {} (.ofData d) = .ok "1true".toList ∧
      (t.renderTo NoPartials.mk {} (.ofData d) : RenderM TextSink Unit) =
        t.renderTo NoPartials.mk {} (.ofData d') := by
  intro t x y d d'
  have hinner : Dynamic.Reordered Eq (.object [x, y]) (.object [y, x]) :=
    .object (by decide) rfl (List.forall₂_same.2 fun e _ => .refl e) (.swap y x [])
  have houter : d.Reordered Eq d' := by
    refine .map (by decide) ?_ ?_ (List.reverse_perm _) rfl
    · rfl
    · exact .cons (.refl _) (.cons (.refl _) (.cons (.some (.dynamic hinner)) .nil))
  exact ⟨houter, by cbv,
    (renderTo_reordered t NoPartials.mk {} (fun _ _ htext => htext) houter).1⟩

/-- A type that writes the names in its map in the order of the entries, as a text of its own.  With
the entries in another order a template that asks for this text is rendered differently.  The same
template does not find what stands in a map under the key `.`, since this name finds the map itself,
which writes nothing. -/
theorem Template.renderWith_of_ownText_of_selfKey :
    let t : Template := ⟨"{{.}}".toList, [.interpolation .self true], by cbv⟩
    let own (entries : List (Key × Data)) : Data := .record [(['m'], .map .direct entries none)]
      (some (entries.filterMap fun entry => entry.1.text?))
    let entries : List (Key × Data) := [(.text ['a'], .unit), (.text ['b'], .unit)]
    let d : Data := own entries
    let d' : Data := own entries.reverse
    let dot : Data := .map .direct [(.text ['.'], .text "dot".toList)] none
    d.Reordered (fun _ _ => True) d' ∧
      t.renderWith NoPartials.mk {} (.ofData d) = .ok "ab".toList ∧
      t.renderWith NoPartials.mk {} (.ofData d') = .ok "ba".toList ∧
      t.renderWith NoPartials.mk {} (.ofData dot) = .ok [] := by
  intro t own entries d d' dot
  have hmap : Data.Reordered (fun _ _ => True) (.map .direct entries none)
      (.map .direct entries.reverse none) :=
    .map (by decide) rfl (List.forall₂_same.2 fun e _ => .refl e) (List.reverse_perm _).symm trivial
  exact ⟨.record rfl (.cons hmap .nil) trivial, by cbv, by cbv, by cbv⟩

end Mustache
