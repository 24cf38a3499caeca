import Mustache.Data

/-!
# Values

A template asks few questions about its data: whether a section renders, for
which elements, what a name finds, and what is written. `Value` sorts data by
how it answers them. Options and pointers are looked through on the way, so that
no question needs to consider them: a missing option is the value `null`, and
anything else in a wrapper is what it would be without.

Elements and members are sorted only when they are reached; until then a value
holds them as data.

Two of the questions may have no answer. What a name finds in data that cannot be
read is not known, and neither is the name of a variant that cannot be read. So what a
name finds is a `Finding`, which may be that finding failed. The other two questions
always have an answer: data that cannot be read has no elements and no entries.

## Main results

* `ofData_some`, `ofData_pointer`, `ofData_none` — wrappers are looked through;
* `elements_eq_nil_of_not_isIterable`, `isTruthy_of_isIterable` — only an
  iterable value has elements, and it is truthy if it has one;
* `scopes_eq_nil_iff` — a section is rendered for nothing exactly if its value is
  falsy;
* `lookup_self` — the name `.` finds the value itself;
* `lookup_map` — in a map of any kind a name finds what stands under the key that
  is this text;
* `follow_append` — a sequence of segments is followed part by part.
-/

namespace Mustache

/-- The sorts of values. -/
inductive Kind
  | null
  | bool
  | float
  | text
  | list
  | map
  | record
  | raw
  | dynamic
  | sealed
deriving DecidableEq, Repr

/-- Data as a template sees it. -/
inductive Value
  | null
  | bool (b : Bool)
  | float (x : Floating)
  /-- Text, and everything else that is written and has no other use. -/
  | text (shown : List Text)
  | list (items : List Data) (shown : List Text)
  | map (access : Access) (entries : List (Key × Data)) (shown : List Text)
  /-- A record or a variant, and the pieces that it is written in. -/
  | record (fields : List (Text × Data)) (shown : List Text)
  | raw (markup : Text)
  | dynamic (d : Dynamic)
  /-- A value that is written but not looked into. -/
  | sealed (shown : List Text)
  /-- A value that cannot be read, and the pieces of its textual form if its type has one. -/
  | unreadable (shape : Shape) (shown : Option (List Text)) (reason : Text)
deriving Repr

/-- The word for a truth value. -/
def Text.ofBool (b : Bool) : Text :=
  if b then ['t', 'r', 'u', 'e'] else ['f', 'a', 'l', 's', 'e']

/-! ## Dynamic data -/

/-- The pieces that a number is written in: as an integer with a sign if it is one, else as one
without if it is such a one, and else as a floating-point value. -/
def Number.shown (n : Number) : List Text :=
  match n.signed?, n.unsigned?, n.floating? with
  | some i, _, _ => Decimal.integer i.toInt
  | none, some i, _ => Decimal.integer i.toNat
  | none, none, some x => x.pieces
  | none, none, none => []

namespace Dynamic

/-- Whether a section over the data renders. -/
def isTruthy : Dynamic → Bool
  | null => false
  | bool b => b
  | number n => n.floating?.all fun x => !x.isNaN
  | array items => !items.isEmpty
  | object entries => !entries.isEmpty
  | text _ | other _ => true

/-- The pieces that the data is written in. -/
def shown : Dynamic → List Text
  | bool b => [Text.ofBool b]
  | number n => n.shown
  | text t => [t]
  | other shown => shown.getD []
  | null | array _ | object _ => []

/-- The elements, if the data is an array. -/
def elements : Dynamic → List Dynamic
  | array items => items
  | _ => []

end Dynamic

namespace Value

/-! ## Sorting data -/

/-- How a template sees data. -/
def ofData : Data → Value
  | .unit | .none => null
  | .bool b => bool b
  | .integer n => text (Decimal.integer n)
  | .float x => float x
  | .char c => text [[c]]
  | .text t => text [t]
  | .address a => text a.pieces
  | .raw markup => raw markup
  | .list items shown => list items (shown.getD [])
  | .map access entries shown => map access entries (shown.getD [])
  | .record fields shown => record fields (shown.getD [])
  /- Where a type has no textual form of its own, a variant without fields is its name. -/
  | .variant name fields shown =>
    record fields (shown.getD (if fields.isEmpty then [name] else []))
  | .dynamic d => dynamic d
  | .sealed shown => sealed (shown.getD [])
  | .unreadable shape shown reason => unreadable shape shown reason
  | .some d | .pointer d => ofData d

@[simp] theorem ofData_none : ofData .none = null := rfl

@[simp] theorem ofData_some (d : Data) : ofData (.some d) = ofData d := rfl

@[simp] theorem ofData_pointer (d : Data) : ofData (.pointer d) = ofData d := rfl

/-- The sort of a value. -/
def kind : Value → Kind
  | null => .null
  | bool _ => .bool
  | float _ => .float
  | text _ => .text
  | list _ _ => .list
  | map _ _ _ | unreadable .map _ _ => .map
  | record _ _ | unreadable .record _ _ | unreadable .variant _ _ => .record
  | raw _ => .raw
  | dynamic _ | unreadable .dynamic _ _ => .dynamic
  | sealed _ => .sealed

/-! ## Sections -/

/-- Whether a section over the value renders. Empty texts and zero are truthy. -/
def isTruthy : Value → Bool
  | null => false
  | bool b => b
  | float x => !x.isNaN
  | list items _ => !items.isEmpty
  | map _ entries _ => !entries.isEmpty
  | dynamic d => d.isTruthy
  | unreadable .map _ _ | unreadable .dynamic _ _ => false
  | text _ | record _ _ | raw _ | sealed _ => true
  | unreadable .record _ _ | unreadable .variant _ _ => true

/-- Whether a section over the value renders once for each element. -/
def isIterable : Value → Bool
  | list _ _ | dynamic (.array _) => true
  | _ => false

/-- The elements of the value, in order. -/
def elements : Value → List Value
  | list items _ => items.map ofData
  | dynamic d => d.elements.map dynamic
  | _ => []

/-- The values that a section over the value is rendered for, in order: the elements, or the
value itself. -/
def scopes (v : Value) : List Value :=
  if v.isIterable then v.elements else if v.isTruthy then [v] else []

theorem elements_eq_nil_of_not_isIterable {v : Value} (h : v.isIterable = false) :
    v.elements = [] := by
  cases v with
  | list items => cases h
  | dynamic d =>
    cases d with
    | array items => cases h
    | _ => rfl
  | _ => rfl

theorem isTruthy_of_isIterable {v : Value} (h : v.isIterable = true) :
    v.isTruthy = !v.elements.isEmpty := by
  cases v with
  | list items => simp [isTruthy, elements]
  | dynamic d =>
    cases d with
    | array items => simp [isTruthy, elements, Dynamic.isTruthy, Dynamic.elements]
    | _ => cases h
  | _ => cases h

theorem scopes_eq_nil_iff {v : Value} : v.scopes = [] ↔ v.isTruthy = false := by
  cases h : v.isIterable with
  | true => simp [scopes, h, isTruthy_of_isIterable h]
  | false => cases ht : v.isTruthy <;> simp [scopes, h, ht]

end Value

/-! ## Members -/

/-- What a name finds. -/
inductive Finding
  /-- There is no member of this name. -/
  | nothing
  | found (v : Value)
  /-- Whether there is such a member cannot be read, for this reason. -/
  | failed (reason : Text)
deriving Repr

namespace Finding

/-- What is found in some data, or nothing. -/
def ofOption : Option Value → Finding
  | none => nothing
  | some v => found v

/-- What is found, or if that is nothing, something else. -/
def or : Finding → Finding → Finding
  | nothing, other => other
  | found v, _ => found v
  | failed reason, _ => failed reason

/-- What is found in what is found. -/
def andThen : Finding → (Value → Finding) → Finding
  | nothing, _ => nothing
  | found v, f => f v
  | failed reason, _ => failed reason

@[simp] theorem nothing_or (a : Finding) : nothing.or a = a := rfl

@[simp] theorem or_nothing (a : Finding) : a.or nothing = a := by
  cases a <;> rfl

theorem or_assoc (a b c : Finding) : (a.or b).or c = a.or (b.or c) := by
  cases a <;> rfl

/-- What is not nothing hides everything else. -/
theorem or_of_ne_nothing {a : Finding} (h : a ≠ nothing) (b : Finding) : a.or b = a := by
  cases a with
  | nothing => exact absurd rfl h
  | _ => rfl

theorem or_self (a : Finding) : a.or a = a := by
  cases a <;> rfl

@[simp] theorem found_andThen (v : Value) (f : Value → Finding) : (found v).andThen f = f v := rfl

@[simp] theorem andThen_found (a : Finding) : a.andThen found = a := by
  cases a <;> rfl

theorem andThen_assoc (a : Finding) (f g : Value → Finding) :
    (a.andThen f).andThen g = a.andThen fun v => (f v).andThen g := by
  cases a <;> rfl

end Finding

/-- The text that a key is, if it is one. -/
def Key.text? : Key → Option Text
  | text t => some t
  | integer _ | char _ => none

theorem Key.text?_eq_some_iff {key : Key} {name : Text} :
    key.text? = some name ↔ key = .text name := by
  cases key <;> simp [text?]

/-- What a name finds among the entries of a map. -/
def Access.find? (access : Access) (entries : List (Key × Data)) (name : Text) : Option Data :=
  match access with
  | direct => entries.lookup (.text name)
  | search => (entries.find? fun entry => entry.1.text? == some name).map Prod.snd

/-- Both ways lead to the first entry with this key. -/
theorem Access.find?_eq_lookup (access : Access) (entries : List (Key × Data)) (name : Text) :
    access.find? entries name = entries.lookup (.text name) := by
  cases access with
  | direct => rfl
  | search =>
    induction entries with
    | nil => rfl
    | cons entry entries ih =>
      have hkey : (entry.1.text? == some name) = (.text name == entry.1) := by
        rw [Bool.eq_iff_iff, beq_iff_eq, beq_iff_eq, Key.text?_eq_some_iff, eq_comm]
      simp only [find?] at ih ⊢
      rw [List.find?_cons, List.lookup_cons, hkey]
      cases Key.text name == entry.1 with
      | true => rfl
      | false => exact ih

namespace Value

/-- What is found under a key is in an entry with this key. -/
theorem mem_of_lookup {α β : Type} [BEq α] [LawfulBEq α] {key : α} {x : β} {entries : List (α × β)}
    (h : entries.lookup key = some x) : (key, x) ∈ entries := by
  obtain ⟨before, after, rfl, -⟩ := List.lookup_eq_some_iff.1 h
  exact List.mem_append_right before List.mem_cons_self

/-- The member of a value that has a name. The value itself has the name `.`; besides, a map has
members under its keys that are text, a record or variant has its fields, and dynamic data has the
entries of an object. -/
def lookup (v : Value) (name : Text) : Finding :=
  if name = ['.'] then .found v
  else match v with
    | map access entries _ => .ofOption ((access.find? entries name).map ofData)
    | record fields _ => .ofOption ((fields.lookup name).map ofData)
    | dynamic (.object entries) => .ofOption ((entries.lookup name).map dynamic)
    | unreadable _ _ reason => .failed reason
    | _ => .nothing

@[simp] theorem lookup_self (v : Value) : v.lookup ['.'] = .found v := rfl

theorem lookup_map {name : Text} (h : name ≠ ['.']) (access : Access) (entries : List (Key × Data))
    (shown : List Text) :
    (map access entries shown).lookup name =
      .ofOption ((entries.lookup (.text name)).map ofData) := by
  rw [lookup, if_neg h]
  simp only [Access.find?_eq_lookup]

theorem lookup_record {name : Text} (h : name ≠ ['.']) (fields : List (Text × Data))
    (shown : List Text) :
    (record fields shown).lookup name = .ofOption ((fields.lookup name).map ofData) := by
  rw [lookup, if_neg h]

theorem lookup_object {name : Text} (h : name ≠ ['.']) (entries : List (Text × Dynamic)) :
    (dynamic (.object entries)).lookup name = .ofOption ((entries.lookup name).map dynamic) := by
  rw [lookup, if_neg h]

/-- What segments find in a value, each looked up in what the one before it found. -/
def follow (v : Value) : List Text → Finding
  | [] => .found v
  | segment :: segments => (v.lookup segment).andThen fun member => member.follow segments

@[simp] theorem follow_nil (v : Value) : v.follow [] = .found v := rfl

theorem follow_cons (v : Value) (segment : Text) (segments : List Text) :
    v.follow (segment :: segments) = (v.lookup segment).andThen (·.follow segments) := rfl

theorem follow_append (v : Value) (a b : List Text) :
    v.follow (a ++ b) = (v.follow a).andThen (·.follow b) := by
  induction a generalizing v with
  | nil => rfl
  | cons segment a ih =>
    rw [List.cons_append, follow_cons, follow_cons, Finding.andThen_assoc]
    simp only [ih]

/-! ## Text -/

/-- The pieces that the value is written in. Of a variant that cannot be read not even the name is
known, only the reason why it cannot be read. -/
def shown : Value → Except Text (List Text)
  | bool b => .ok [Text.ofBool b]
  | float x => .ok x.pieces
  | raw markup => .ok [markup]
  | dynamic d => .ok d.shown
  | text shown | list _ shown | map _ _ shown | record _ shown | sealed shown => .ok shown
  | unreadable .dynamic _ _ => .ok []
  | unreadable .variant none reason => .error reason
  | unreadable _ shown _ => .ok (shown.getD [])
  | null => .ok []

end Value

end Mustache
