import Mustache.Address
import Mustache.Floating

/-!
# Data

What a template can be rendered with. `Data` describes a value by what it is
made of: scalars, lists, maps with keys of one type, records with named or
numbered fields, variants of a sum type, and the options and pointers that any
of these may be wrapped in. Whatever has a textual form of its own, be it a record
or a list, brings it along in the pieces that it is written in. `Dynamic` is data
whose shape is known only from the value itself, as it comes out of a reader of
some data format.

Data is looked into by way of a description of its type. Where the description
does not fit, what is inside of a value cannot be had, and for that there is data
that is `unreadable`.

How a template sees data is another matter, which `Mustache.Value` settles.
-/

namespace Mustache

/-- A number of a type that is not known, by its answers to the question whether it is a number of
three known types. How it comes by them is up to the reader of the format. -/
structure Number where
  /-- The number as an integer of 64 bits with a sign. -/
  signed? : Option Int64
  /-- The number as an integer of 64 bits without a sign. -/
  unsigned? : Option UInt64
  /-- The number as a floating-point value. -/
  floating? : Option Floating
deriving DecidableEq, Repr, Inhabited

/-- Data whose type is known only from the value. -/
inductive Dynamic
  | null
  | bool (b : Bool)
  | number (n : Number)
  | text (t : Text)
  | array (items : List Dynamic)
  | object (entries : List (Text × Dynamic))
  /-- A value of some other type, such as a date, that cannot be looked into. -/
  | other (shown : Option (List Text))
deriving Repr, Inhabited

/-- The key of an entry of a map. -/
inductive Key
  | text (t : Text)
  | integer (n : Int)
  | char (c : Char)
deriving DecidableEq, Repr

/-- How the value under a name is got out of a map. -/
inductive Access
  /-- The keys are of the type that names have, and the map has a way to find a key. -/
  | direct
  /-- The keys are of any other type, and the entries are gone through in the order of the map. -/
  | search
deriving DecidableEq, Repr

/-- The sorts of types that are looked into by name. -/
inductive Shape
  | map
  | record
  | variant
  | dynamic
deriving DecidableEq, Repr

/-- Data of a known type. Wherever pieces are optional they are what the value is written in, if its
type has a textual form of its own. -/
inductive Data
  | unit
  | bool (b : Bool)
  | integer (n : Int)
  | float (x : Floating)
  | char (c : Char)
  | text (t : Text)
  | address (a : Address)
  /-- Markup that must not be escaped again. -/
  | raw (markup : Text)
  /-- Elements in order. -/
  | list (items : List Data) (shown : Option (List Text))
  /-- Entries with distinct keys. -/
  | map (access : Access) (entries : List (Key × Data)) (shown : Option (List Text))
  /-- A record; the fields of a tuple are called `0`, `1` and so on. -/
  | record (fields : List (Text × Data)) (shown : Option (List Text))
  /-- A value of a sum type: the variant that it is, and the fields of that. -/
  | variant (name : Text) (fields : List (Text × Data)) (shown : Option (List Text))
  | dynamic (d : Dynamic)
  /-- A value of a type that cannot be looked into. -/
  | sealed (shown : Option (List Text))
  /-- A value of a type of this sort that cannot be read, for a reason that is reported. -/
  | unreadable (shape : Shape) (shown : Option (List Text)) (reason : Text)
  /-- An option without a value. -/
  | none
  /-- An option with a value. -/
  | some (d : Data)
  /-- A pointer to a value. -/
  | pointer (d : Data)
deriving Repr, Inhabited

end Mustache
