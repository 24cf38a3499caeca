import Mustache.Proofs.Similarity

/-!
# Dynamic data and its static counterpart

The same data may reach a template in two ways: as values of types that are known,
or as dynamic data that a reader of some format has made.  Most of it has a
counterpart on the other side.  Null is what unit and a missing option are, an
array is a list, an object is a map whose keys are text, and truth values, numbers
and texts are on both sides what they are.

The questions of a template are answered twice, once for each side, and all
answers have to agree for a template not to see the difference.  `Represents`
says which data are counterparts, and that they answer alike is shown question
by question, in the sense of `Value.Similarity`.

A number of known type is an integer, and the dynamic one has to tell what it is.  How
it comes to know is not up to a template, so `Number.IsInteger` is assumed of it: it
is an integer of 64 bits if it says so, with a sign or without one.

An object and a map need not have their entries in the same order; only what is
found under which key counts.

## Main results

* `Number.shown_of_isInteger` — a number that is an integer is written as this integer;
* `Dynamic.rel_lookup` — counterparts have the same members, up to being
  counterparts themselves;
* `Dynamic.similarity_counterpart` — counterparts answer the questions of a
  template alike;
* `Template.renderTo_dynamic` — a template is rendered alike for dynamic data and
  for what it represents.
-/

namespace Mustache

namespace Dynamic

/-- The integers that dynamic data holds as such: those of 64 bits, with or without a sign. -/
def HasInteger (n : Int) : Prop :=
  Int64.minValue.toInt ≤ n ∧ n < UInt64.size

end Dynamic

/-- The number says of itself that it is this integer, and nothing else: with and without a sign if
there are enough bits for it, and as a floating-point value that is a number. -/
structure Number.IsInteger (n : Number) (i : Int) : Prop where
  signed {k : Int64} : n.signed? = some k ↔ k.toInt = i
  unsigned {k : UInt64} : n.unsigned? = some k ↔ (k.toNat : Int) = i
  floating : n.floating?.all (fun x => !x.isNaN) = true

namespace Dynamic

/-- The dynamic data is the counterpart of the data of a known type.  Lists and maps have no text of
their own here, as arrays and objects have none. -/
inductive Represents : Dynamic → Data → Prop
  | unit : Represents .null .unit
  | none : Represents .null .none
  | bool (b : Bool) : Represents (.bool b) (.bool b)
  | integer {n : Number} {i : Int} : HasInteger i → n.IsInteger i →
    Represents (.number n) (.integer i)
  | text (t : Text) : Represents (.text t) (.text t)
  /-- Elements are counterparts one by one, in order. -/
  | list {items : List Dynamic} {elements : List Data} :
    List.Forall₂ Represents items elements → Represents (.array items) (.list elements none)
  /-- The keys of the map are the names of the object, and what is found under the same name are
  counterparts. -/
  | map {entries : List (Text × Dynamic)} {members : List (Key × Data)} {access : Access} :
    (∀ key, key ∈ members.map Prod.fst ↔ ∃ name ∈ entries.map Prod.fst, key = .text name) →
    (∀ name d d', (name, d) ∈ entries → (.text name, d') ∈ members → Represents d d') →
    Represents (.object entries) (.map access members none)

/-- The two values are made of dynamic data and of what it represents. -/
inductive Counterpart : Value → Value → Prop
  | mk {d : Dynamic} {d' : Data} : d.Represents d' → Counterpart (.dynamic d) (.ofData d')

end Dynamic

/-! ## Numbers -/

/-- An integer of 64 bits has a sign or can do without one. -/
theorem Dynamic.HasInteger.cases {i : Int} (h : HasInteger i) :
    (∃ k : Int64, k.toInt = i) ∨ ∃ k : UInt64, (k.toNat : Int) = i := by
  obtain ⟨hmin, hlt⟩ := h
  by_cases hmax : i < 2 ^ 63
  · exact .inl ⟨.ofInt i, Int64.toInt_ofInt_of_le hmin hmax⟩
  · have hnat : i.toNat < UInt64.size := by omega
    refine .inr ⟨.ofNat i.toNat, ?_⟩
    rw [UInt64.toNat_ofNat_of_lt' hnat]
    omega

/-- A number that is an integer is written as this integer. -/
theorem Number.shown_of_isInteger {n : Number} {i : Int} (hrange : Dynamic.HasInteger i)
    (h : n.IsInteger i) : n.shown = Decimal.integer i := by
  unfold shown
  cases hsigned : n.signed? with
  | some k => exact congrArg Decimal.integer (h.signed.1 hsigned)
  | none =>
      -- There are too many bits for a sign, so the number has none.
      rcases hrange.cases with ⟨k, hk⟩ | ⟨k, hk⟩
      · rw [h.signed.2 hk] at hsigned
        cases hsigned
      · rw [h.unsigned.2 hk]
        exact congrArg Decimal.integer hk

/-! ## Members -/

theorem lookup_eq_none_iff_not_mem {α β : Type} [BEq α] [LawfulBEq α] {key : α}
    {entries : List (α × β)} : entries.lookup key = none ↔ key ∉ entries.map Prod.fst := by
  rw [List.lookup_eq_none_iff, List.mem_map]
  constructor
  · rintro h ⟨entry, hentry, rfl⟩
    simpa using h entry hentry
  · intro h entry hentry
    rw [bne_iff_ne]
    rintro rfl
    exact h ⟨entry, hentry, rfl⟩

namespace Dynamic

/-- An object and a map that it represents have the same members, up to being counterparts. -/
theorem rel_lookup {entries : List (Text × Dynamic)} {members : List (Key × Data)}
    (hkeys : ∀ key, key ∈ members.map Prod.fst ↔ ∃ name ∈ entries.map Prod.fst, key = .text name)
    (hvalues : ∀ name d d', (name, d) ∈ entries → (.text name, d') ∈ members → d.Represents d')
    (name : Text) :
    (Finding.ofOption ((entries.lookup name).map .dynamic)).Rel Counterpart
      (.ofOption ((members.lookup (.text name)).map .ofData)) := by
  have hsame : .text name ∈ members.map Prod.fst ↔ name ∈ entries.map Prod.fst := by
    rw [hkeys]
    constructor
    · rintro ⟨name', hname, heq⟩
      cases heq
      exact hname
    · intro hname
      exact ⟨name, hname, rfl⟩
  cases hd : entries.lookup name with
  | none =>
      have habsent := hsame.not.2 (lookup_eq_none_iff_not_mem.1 hd)
      rw [lookup_eq_none_iff_not_mem.2 habsent]
      exact .nothing
  | some d =>
      cases hd' : members.lookup (.text name) with
      | none =>
          have habsent := hsame.not.1 (lookup_eq_none_iff_not_mem.1 hd')
          rw [lookup_eq_none_iff_not_mem.2 habsent] at hd
          cases hd
      | some d' =>
          exact .found (.mk (hvalues name d d' (Value.mem_of_lookup hd)
            (Value.mem_of_lookup hd')))

theorem Counterpart.lookup {v v' : Value} (h : Counterpart v v') (name : Text) :
    (v.lookup name).Rel Counterpart (v'.lookup name) := by
  by_cases hself : name = ['.']
  · subst hself
    exact .found h
  · obtain ⟨hrep⟩ := h
    cases hrep with
    | map hkeys hvalues =>
        rw [Value.lookup_object hself, Value.ofData, Value.lookup_map hself]
        exact rel_lookup hkeys hvalues name
    | _ =>
        simp only [Value.lookup, Value.ofData, if_neg hself]
        exact .nothing

theorem Counterpart.elements {v v' : Value} (h : Counterpart v v') :
    List.Forall₂ Counterpart v.elements v'.elements := by
  obtain ⟨hrep⟩ := h
  cases hrep with
  | list hitems =>
      simp only [Value.elements, Dynamic.elements, Value.ofData]
      rw [List.forall₂_map_left_iff, List.forall₂_map_right_iff]
      exact hitems.imp fun _ _ hitem => .mk hitem
  | _ => exact .nil

/-- An object is empty exactly if a map that it represents is. -/
theorem isEmpty_eq_of_keys {entries : List (Text × Dynamic)} {members : List (Key × Data)}
    (hkeys : ∀ key, key ∈ members.map Prod.fst ↔
      ∃ name ∈ entries.map Prod.fst, key = .text name) :
    entries.isEmpty = members.isEmpty := by
  cases entries with
  | nil =>
      cases members with
      | nil => rfl
      | cons member members =>
          obtain ⟨name, hname, -⟩ := (hkeys member.1).1 List.mem_cons_self
          cases hname
  | cons entry entries =>
      cases members with
      | nil => cases (hkeys (.text entry.1)).2 ⟨entry.1, List.mem_cons_self, rfl⟩
      | cons member members => rfl

/-- Counterparts answer the questions of a template alike. -/
theorem similarity_counterpart : Value.Similarity Counterpart where
  isTruthy := by
    rintro v v' ⟨hrep⟩
    cases hrep with
    | integer hrange hinteger => exact hinteger.floating
    | list hitems => cases hitems <;> rfl
    | map hkeys _ =>
        simp only [Value.isTruthy, Dynamic.isTruthy, Value.ofData, isEmpty_eq_of_keys hkeys]
    | _ => rfl
  isIterable := by
    rintro v v' ⟨hrep⟩
    cases hrep <;> rfl
  elements := Counterpart.elements
  writeValue := by
    rintro v v' ⟨hrep⟩ σ _ escaper
    cases hrep with
    | integer hrange hinteger =>
        simp only [Mustache.writeValue, Value.shown, Dynamic.shown, Value.ofData,
          Number.shown_of_isInteger hrange hinteger]
        rfl
    | _ => rfl
  lookup h name := h.lookup name

end Dynamic

/-- A template is rendered alike for dynamic data and for the data of known types that it
represents, into any sink. -/
theorem Template.renderTo_dynamic {σ : Type} [Sink σ] {τ : Type} [Partials τ] (t : Template)
    (partials : τ) (options : Options) {d : Dynamic} {d' : Data} (h : d.Represents d') :
    (t.renderTo partials options (.ofData (.dynamic d)) : RenderM σ Unit) =
      t.renderTo partials options (.ofData d') :=
  Dynamic.similarity_counterpart.renderTo_eq (.mk h) t partials options

/-- An object, and a map with its entries in another order. -/
theorem Template.renderTo_dynamic_of_object :
    let t : Template := ⟨"{{#s}}{{.}},{{/s}}{{^off}}{{on}}{{/off}}".toList,
      [.block .normal ⟨['s'], []⟩ [.interpolation ⟨['.'], []⟩ true, .literal ⟨11, 1⟩],
        .block .inverted ⟨['o', 'f', 'f'], []⟩ [.interpolation ⟨['o', 'n'], []⟩ true]], by cbv⟩
    let n : Number := ⟨some 7, some 7, some (.finite false ⟨7, 0, false⟩)⟩
    let d : Dynamic := .object
      [(['s'], .array [.number n, .null]), (['o', 'n'], .bool true)]
    let d' : Data := .map .direct
      [(.text ['o', 'n'], .bool true), (.text ['s'], .list [.integer 7, .none] none)] none
    d.Represents d' ∧
      t.renderWith NoPartials.mk {} (.ofData (.dynamic d)) = .ok "7,,true".toList ∧
      (t.renderTo NoPartials.mk {} (.ofData (.dynamic d)) : RenderM TextSink Unit) =
        t.renderTo NoPartials.mk {} (.ofData d') := by
  intro t n d d'
  have hinteger : n.IsInteger 7 := by
    constructor
    · intro k
      simp [n, ← Int64.toInt_inj, eq_comm]
    · intro k
      simp [n, ← UInt64.toNat_inj, eq_comm]
      omega
    · rfl
  have hrep : d.Represents d' := by
    refine .map (fun key => by simp [or_comm]) ?_
    intro name x x' hx hx'
    simp only [List.mem_cons, Prod.mk.injEq, Key.text.injEq, List.not_mem_nil, or_false]
      at hx hx'
    rcases hx with ⟨rfl, rfl⟩ | ⟨rfl, rfl⟩
    · obtain rfl : x' = .list [.integer 7, .none] none := by simpa using hx'
      exact .list (.cons (.integer ⟨by decide, by decide⟩ hinteger) (.cons .none .nil))
    · obtain rfl : x' = .bool true := by simpa using hx'
      exact .bool true
  exact ⟨hrep, by cbv, renderTo_dynamic t NoPartials.mk {} hrep⟩

end Mustache
