import Mustache.Text
import Std.Data.HashMap
import Std.Data.TreeMap

/-!
# Tables of partials

An inclusion names a text that is kept outside the template. Anything that finds
texts by name can be the table; the only question asked of it is `get?`.
-/

namespace Mustache

/-- A table of texts by name. -/
class Partials (τ : Type) where
  /-- The text of this name, if there is one. -/
  get? (table : τ) (name : Text) : Option Text

/-- The empty table. -/
structure NoPartials where
deriving DecidableEq, Repr

namespace Partials

instance : Partials NoPartials where
  get? _ _ := none

/-- Of several pairs with the same name the first one counts. -/
instance : Partials (List (Text × Text)) where
  get? pairs name := pairs.lookup name

instance {n : Nat} : Partials (Vector (Text × Text) n) where
  get? pairs name := pairs.toList.lookup name

instance [BEq Text] [Hashable Text] : Partials (Std.HashMap Text Text) where
  get? table name := table[name]?

instance {order : Text → Text → Ordering} : Partials (Std.TreeMap Text Text order) where
  get? table name := table[name]?

end Partials

end Mustache
