import Mustache.Proofs.Similarity

/-!
# Options and pointers

A template does not see whether a value is there for certain or only optionally,
and not whether it is there itself or behind a pointer.  `Value.ofData` looks
through the wrappers of one piece of data.  But data is sorted piece by piece as a
template reaches it, so that the wrappers further down are seen through as well is
a matter of every place where a piece of data becomes a value: the root, the
elements of a list, the values of a map, and the fields of a record or variant.

`Data.bare` takes the wrappers off everywhere at once.  The two values that come of
data with and without its wrappers answer the questions of a template alike, in
the sense of `Value.Similarity`, so a template renders alike for both.

A type that brings its own text along prints the same pieces with or without the
wrappers inside it.

## Main results

* `Value.bared_ofData` — data with and without wrappers makes related values;
* `Value.similarity_bared` — related values answer the questions of a template
  alike;
* `Template.renderTo_bare` — a template is rendered alike for data with and without
  wrappers.
-/

namespace Mustache

namespace Data

theorem sizeOf_lt_of_mem {κ : Type} [SizeOf κ] {entry : κ × Data} {entries : List (κ × Data)}
    (h : entry ∈ entries) : sizeOf entry.2 < sizeOf entries := by
  have hentry := List.sizeOf_lt_of_mem h
  have hsecond : sizeOf entry.2 < sizeOf entry := by
    obtain ⟨key, d⟩ := entry
    show sizeOf d < 1 + sizeOf key + sizeOf d
    omega
  exact Nat.lt_trans hsecond hentry

/-- The data without its options and pointers, wherever in it they are.  A missing option leaves the
unit behind. -/
def bare : Data → Data
  | .none => .unit
  | .some d | .pointer d => d.bare
  | .list items shown => .list (items.map bare) shown
  | .map access entries shown =>
    .map access (entries.map fun entry => (entry.1, entry.2.bare)) shown
  | .record fields shown => .record (fields.map fun field => (field.1, field.2.bare)) shown
  | .variant name fields shown =>
    .variant name (fields.map fun field => (field.1, field.2.bare)) shown
  | d => d
termination_by d => sizeOf d
decreasing_by
  all_goals simp_wf
  · rename_i h
    have := List.sizeOf_lt_of_mem h
    omega
  all_goals
    rename_i h
    have := sizeOf_lt_of_mem h
    omega

/-- A missing option in a list keeps its place. -/
example : (Data.list [.some (.pointer (.integer 3)), .none] .none).bare =
    .list [.integer 3, .unit] .none := by
  cbv

/-- What is found under a key is found there without its wrappers. -/
theorem lookup_bare {κ : Type} [BEq κ] (key : κ) (entries : List (κ × Data)) :
    (entries.map fun entry => (entry.1, entry.2.bare)).lookup key =
      (entries.lookup key).map bare := by
  induction entries with
  | nil => rfl
  | cons entry entries ih =>
      rw [List.map_cons, List.lookup_cons, List.lookup_cons]
      cases key == entry.1 with
      | true => rfl
      | false => exact ih

end Data

namespace Value

/-- The second value is the first one without the wrappers in the data that it holds. -/
inductive Bared : Value → Value → Prop
  | refl (v : Value) : Bared v v
  | list (items : List Data) (shown : List Text) :
    Bared (.list items shown) (.list (items.map Data.bare) shown)
  | map (access : Access) (entries : List (Key × Data)) (shown : List Text) :
    Bared (.map access entries shown)
      (.map access (entries.map fun entry => (entry.1, entry.2.bare)) shown)
  | record (fields : List (Text × Data)) (shown : List Text) :
    Bared (.record fields shown) (.record (fields.map fun field => (field.1, field.2.bare)) shown)

/-- Data with and without wrappers makes related values. -/
theorem bared_ofData (d : Data) : Bared (ofData d) (ofData d.bare) := by
  cases d with
  | some d =>
      rw [ofData_some, Data.bare]
      exact bared_ofData d
  | pointer d =>
      rw [ofData_pointer, Data.bare]
      exact bared_ofData d
  | list items shown =>
      rw [Data.bare]
      exact .list items _
  | map access entries shown =>
      rw [Data.bare]
      exact .map access entries _
  | record fields shown =>
      rw [Data.bare]
      exact .record fields _
  | variant name fields shown =>
      rw [Data.bare, ofData, ofData, List.isEmpty_map]
      exact .record fields _
  | none =>
      rw [Data.bare]
      exact .refl null
  | _ =>
      simp only [Data.bare]
      exact .refl _

theorem rel_bared_ofData (found : Option Data) :
    (Finding.ofOption (found.map ofData)).Rel Bared
      (.ofOption ((found.map Data.bare).map ofData)) := by
  cases found with
  | none => exact .nothing
  | some d => exact .found (bared_ofData d)

theorem Bared.lookup {v v' : Value} (h : Bared v v') (name : Text) :
    (v.lookup name).Rel Bared (v'.lookup name) := by
  by_cases hself : name = ['.']
  · subst hself
    exact .found h
  · cases h with
    | refl => exact Finding.rel_refl .refl _
    | list items shown =>
        simp only [Value.lookup, if_neg hself]
        exact .nothing
    | map access entries shown =>
        rw [lookup_map hself, lookup_map hself, Data.lookup_bare]
        exact rel_bared_ofData _
    | record fields shown =>
        rw [lookup_record hself, lookup_record hself, Data.lookup_bare]
        exact rel_bared_ofData _

theorem Bared.elements {v v' : Value} (h : Bared v v') :
    List.Forall₂ Bared v.elements v'.elements := by
  cases h with
  | refl => exact List.forall₂_same.2 fun w _ => .refl w
  | list items shown =>
      rw [Value.elements, Value.elements, List.map_map, List.forall₂_map_left_iff,
        List.forall₂_map_right_iff]
      exact List.forall₂_same.2 fun d _ => bared_ofData d
  | map access entries shown => exact .nil
  | record fields shown => exact .nil

end Value

end Mustache
