import Mustache.Path
import Mustache.Value

/-!
# The values in scope

Inside a section the value that it is rendered for comes into scope, on top of
those that were in scope before. A path is resolved in two ways: its first
segment is looked up in all values in scope, from the innermost out, and the first
one that has the member decides, whether it is truthy or not; every further
segment is looked up only in what the one before it found.

A value that cannot be read decides as well, since nobody can tell whether it has the
member. Then resolving the path fails.

## Main results

* `find?_cons` — the innermost value decides if it has the member;
* `find?_append` — values further out are asked only if those further in have no
  such member;
* `resolve_self` — the path `.` finds the innermost value.
-/

namespace Mustache

/-- The values in scope, the innermost first. -/
abbrev Context := List Value

namespace Context

/-- The member of the innermost value in scope that has one of this name. -/
def find? : Context → (name : Text) → Finding
  | [], _ => .nothing
  | v :: context, name => (v.lookup name).or (find? context name)

@[simp] theorem find?_nil (name : Text) : find? [] name = .nothing := rfl

theorem find?_cons (v : Value) (context : Context) (name : Text) :
    find? (v :: context) name = (v.lookup name).or (find? context name) := rfl

theorem find?_append (a b : Context) (name : Text) :
    find? (a ++ b) name = (find? a name).or (find? b name) := by
  induction a with
  | nil => rfl
  | cons v a ih => rw [List.cons_append, find?_cons, find?_cons, ih, Finding.or_assoc]

/-- What a path finds. -/
def resolve (context : Context) (path : Path) : Finding :=
  (find? context path.head).andThen (·.follow path.tail)

theorem resolve_self (v : Value) (context : Context) :
    resolve (v :: context) .self = .found v := rfl

end Context

end Mustache
