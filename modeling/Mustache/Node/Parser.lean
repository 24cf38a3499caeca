import Mustache.Node
import Mustache.Token

/-!
# From tokens to nodes

Sections nest, so the tokens between an opening tag and its end tag become the
children of one node. `Node.ofTokens` takes tokens up to the end tag of the
innermost open section and hands back the ones after it; of the open sections it
needs to know the names, to compare with those of end tags, the spans, to report
the innermost one if the text ends too early, and the number.

That number is bounded by `maxSectionDepth`, so that a short template cannot make
a reader of its nodes run out of stack.

## Main results

* `parse_nil` — the empty template has no nodes;
* `parse_of_step_none` — a template without tags is one literal.
-/

namespace Mustache

/-- How many sections may be open at once. -/
def maxSectionDepth : Nat := 256

/-- A tag that opened a section. -/
structure Opening where
  name : Text
  span : Span
deriving DecidableEq, Repr

/-- What is wrong with an end tag, given the open sections, the innermost first. -/
def Opening.mismatch? (name : Text) : List Opening → Option Cause
  | [] => some (.unexpectedEnd name)
  | innermost :: _ =>
    if innermost.name = name then none else some (.mismatchedEnd innermost.name name)

namespace Node

/-- The nodes up to the end tag of the innermost open section, and the tokens after it. With no
section open these are all the nodes. Where the tokens end, either `fault` ended them or the
text did. -/
def ofTokens (fault : Option Error) (opened : List Opening) (tokens : List Token) :
    Except Error (List Node × { rest : List Token // rest.length ≤ tokens.length }) :=
  match tokens with
  | [] =>
    match fault, opened with
    | some e, _ => .error e
    | none, innermost :: _ =>
      .error (.located (.unclosedSection innermost.name) innermost.span)
    | none, [] => .ok ([], ⟨[], Nat.le_refl _⟩)
  | .text span :: tokens => do
    let (nodes, ⟨rest, h⟩) ← ofTokens fault opened tokens
    return (.literal span :: nodes, ⟨rest, Nat.le_succ_of_le h⟩)
  | .tag role name _ span indent :: tokens =>
    match role with
    | .interpolation escaped => do
      let (nodes, ⟨rest, h⟩) ← ofTokens fault opened tokens
      return (.interpolation (.ofName name) escaped :: nodes, ⟨rest, Nat.le_succ_of_le h⟩)
    | .inclusion => do
      let (nodes, ⟨rest, h⟩) ← ofTokens fault opened tokens
      return (.inclusion name indent :: nodes, ⟨rest, Nat.le_succ_of_le h⟩)
    | .opening kind =>
      if maxSectionDepth ≤ opened.length then
        .error (.located (.nestingLimit name maxSectionDepth) span)
      else do
        let (children, ⟨after, h⟩) ← ofTokens fault (⟨name, span⟩ :: opened) tokens
        let (nodes, ⟨rest, h'⟩) ← ofTokens fault opened after
        return (.block kind (.ofName name) children :: nodes,
          ⟨rest, Nat.le_succ_of_le (Nat.le_trans h' h)⟩)
    | .closing =>
      match Opening.mismatch? name opened with
      | some cause => .error (.located cause span)
      | none => .ok ([], ⟨tokens, Nat.le_succ _⟩)
termination_by tokens.length
decreasing_by all_goals simp_wf <;> omega

/-- The nodes of a template. -/
def parse (source : Text) : Except Error (List Node) :=
  let (tokens, fault) := (Cursor.start source).tokens
  match ofTokens fault [] tokens with
  | .error e => .error (e.withSource source)
  | .ok (nodes, _) => .ok nodes

theorem parse_of_step_none {source : Text} (h : (Cursor.start source).step = .ok none) :
    parse source =
      .ok (if source.isEmpty then [] else [.literal ⟨0, Text.size source⟩]) := by
  rw [parse, Cursor.tokens_of_step_none h]
  cases source with
  | nil => simp [Cursor.start, Token.ofText, ofTokens]
  | cons c t =>
    simp [Cursor.start, Token.ofText, ofTokens, bind, Except.bind, pure, Except.pure]

theorem parse_nil : parse [] = .ok [] :=
  parse_of_step_none rfl

end Node

end Mustache
