import Mustache.Proofs.Outline
import Mustache.Proofs.Output
import Mustache.Proofs.Partition

/-!
# Moving a template

Tokens, nodes and errors say where in a template they stand.  Put some text in
front of the template, and all of these places move by its size; nothing else
changes, because neither the lexer nor the parser ever asks how far it has come.

`shift n` moves something by `n` bytes.  Lexing and parsing commute with it, so
what is known of a template by itself is known of it behind any other text.  The
spans that come out cover the same texts as before, which is all that rendering
wants to know of them.

## Main results

* `Cursor.tokens_shift`, `Builder.run_shift` — lexing and parsing commute with
  shifting;
* `Node.outlines_shift` — shifted literals cover the same texts behind a text of
  that size.
-/

namespace Mustache

/-! ## Shifting -/

/-- The span, so many bytes further on. -/
def Span.shift (n : Nat) (s : Span) : Span :=
  ⟨n + s.offset, s.length⟩

/-- The token, so many bytes further on. -/
def Token.shift (n : Nat) : Token → Token
  | .text span => .text (span.shift n)
  | .tag role name nameSpan span indent => .tag role name (nameSpan.shift n) (span.shift n) indent

/-- The error, so many bytes further on if it is about a place. -/
def Error.shift (n : Nat) (e : Error) : Error :=
  { e with span := e.span.map (Span.shift n) }

/-- The opening tag, so many bytes further on. -/
def Opening.shift (n : Nat) (o : Opening) : Opening :=
  { o with span := o.span.shift n }

/-- The cursor, so many bytes further on in a longer template. -/
def Cursor.shift (n : Nat) (c : Cursor) : Cursor :=
  { c with offset := n + c.offset }

/-- The step, so many bytes further on in a longer template. -/
def Step.shift (n : Nat) (s : Step) : Step :=
  { s with next := s.next.shift n }

namespace Node

mutual

/-- The node, so many bytes further on. -/
def shift (n : Nat) : Node → Node
  | .literal span => .literal (span.shift n)
  | .interpolation path escaped => .interpolation path escaped
  | .block kind path children => .block kind path (shiftAll n children)
  | .inclusion name indent => .inclusion name indent

/-- The nodes, so many bytes further on. -/
def shiftAll (n : Nat) : List Node → List Node
  | [] => []
  | node :: nodes => shift n node :: shiftAll n nodes

end

@[simp] theorem shiftAll_nil (n : Nat) : shiftAll n [] = [] := rfl

@[simp] theorem shiftAll_cons (n : Nat) (node : Node) (nodes : List Node) :
    shiftAll n (node :: nodes) = shift n node :: shiftAll n nodes := rfl

@[simp] theorem shiftAll_append (n : Nat) (a b : List Node) :
    shiftAll n (a ++ b) = shiftAll n a ++ shiftAll n b := by
  induction a with
  | nil => rfl
  | cons node a ih => rw [List.cons_append, shiftAll_cons, shiftAll_cons, ih, List.cons_append]

end Node

/-! ## Lexing -/

namespace Token

theorem ofText_shift (n offset : Nat) (t : Text) :
    ofText (n + offset) t = (ofText offset t).map (shift n) := by
  rw [ofText_eq, ofText_eq]
  split <;> rfl

theorem ofTag_shift (n offset : Nat) (s : Step) :
    ofTag (n + offset) (s.shift n) = (ofTag offset s).map (shift n) := by
  unfold ofTag Step.shift
  cases s.tag with
  | comment => rfl
  | delimiters next => rfl
  | named role =>
      simp only [List.map_cons, List.map_nil, shift, Span.shift, Step.lexeme, Nat.add_assoc]

theorem ofStep_shift (n offset : Nat) (s : Step) :
    ofStep (n + offset) (s.shift n) = (ofStep offset s).map (shift n) := by
  rw [ofStep, ofStep, List.map_append, ← ofText_shift, ← ofTag_shift, ← Nat.add_assoc,
    ← Nat.add_assoc]
  rfl

end Token

namespace Cursor

theorem stepOver_shift (n : Nat) (c : Cursor) (before : Text) (r : Tag.Reading) :
    (c.shift n).stepOver before r = (c.stepOver before r).shift n := by
  simp only [stepOver, shift, Step.shift, Nat.add_assoc]

/-- A step finds the same tag wherever the cursor stands. -/
theorem step_shift (n : Nat) (c : Cursor) :
    (c.shift n).step =
      (c.step.map (Option.map (Step.shift n))).mapError (Error.shift n) := by
  have hrest : (c.shift n).rest = c.rest := rfl
  have hdelimiters : (c.shift n).delimiters = c.delimiters := rfl
  rw [step, step, hrest, hdelimiters]
  cases Text.splitAtFirst? c.delimiters.opening.text c.rest with
  | none => rfl
  | some found =>
      obtain ⟨before, t⟩ := found
      simp only
      cases Tag.read c.delimiters t with
      | ok r =>
          simp only [stepOver_shift]
          rfl
      | error fault =>
          simp only [Except.map, Except.mapError, Error.shift, Error.located, Option.map_some,
            Span.shift, shift, Nat.add_assoc]

/-- The tokens are the same wherever the cursor stands, and so is the fault that ends them. -/
theorem tokens_shift (n : Nat) (c : Cursor) :
    (c.shift n).tokens = (c.tokens.1.map (Token.shift n), c.tokens.2.map (Error.shift n)) := by
  have hstep := step_shift n c
  cases h : c.step with
  | error e =>
      rw [h] at hstep
      rw [tokens_of_step_error h, tokens_of_step_error hstep]
      rfl
  | ok next =>
      rw [h] at hstep
      cases next with
      | none =>
          rw [tokens_of_step_none h, tokens_of_step_none hstep]
          exact congrArg (·, none) (Token.ofText_shift n c.offset c.rest)
      | some s =>
          have hdecr : s.next.rest.length < c.rest.length := length_of_step h
          have ih := tokens_shift n s.next
          rw [tokens_of_step_some h, tokens_of_step_some hstep, List.map_append,
            ← Token.ofStep_shift]
          show (_ ++ (s.next.shift n).tokens.1, (s.next.shift n).tokens.2) = _
          rw [ih]
          rfl
termination_by c.rest.length

end Cursor

/-! ## Parsing -/

/-- The section that is still open, so many bytes further on. -/
def Level.shift (n : Nat) (l : Level) : Level :=
  ⟨l.kind, l.opening.shift n, Node.shiftAll n l.before⟩

namespace Builder

/-- The state between two tokens, so many bytes further on. -/
def shift (n : Nat) (b : Builder) : Builder :=
  ⟨b.levels.map (Level.shift n), Node.shiftAll n b.nodes⟩

@[simp] theorem shift_start (n : Nat) : start.shift n = start := rfl

theorem shift_add (n : Nat) (b : Builder) (node : Node) :
    (b.add node).shift n = (b.shift n).add (node.shift n) := by
  simp only [shift, add, Node.shiftAll_append, Node.shiftAll_cons, Node.shiftAll_nil]

theorem step_shift (n : Nat) (b : Builder) (token : Token) :
    (b.shift n).step (token.shift n) =
      ((b.step token).map (shift n)).mapError (Error.shift n) := by
  cases token with
  | text span => exact congrArg Except.ok (shift_add n b (.literal span)).symm
  | tag role name nameSpan span indent =>
      cases role with
      | interpolation escaped =>
          exact congrArg Except.ok (shift_add n b (.interpolation (.ofName name) escaped)).symm
      | inclusion => exact congrArg Except.ok (shift_add n b (.inclusion name indent)).symm
      | opening kind =>
          have hlength : (b.shift n).levels.length = b.levels.length := List.length_map _
          simp only [step, Token.shift, opened, hlength]
          by_cases hdepth : b.levels.length < maxSectionDepth
          · rw [if_pos hdepth, if_pos hdepth]
            rfl
          · rw [if_neg hdepth, if_neg hdepth]
            rfl
      | closing =>
          obtain ⟨levels, nodes⟩ := b
          cases levels with
          | nil => rfl
          | cons innermost levels =>
              simp only [step, Token.shift, closed, shift, List.map_cons]
              by_cases hname : innermost.opening.name = name
              · have hname' : (innermost.shift n).opening.name = name := hname
                rw [if_pos hname, if_pos hname']
                simp only [Except.map, Except.mapError, shift, Node.shiftAll_append,
                  Node.shiftAll_cons, Node.shiftAll_nil, Node.shift]
                rfl
              · have hname' : ¬ (innermost.shift n).opening.name = name := hname
                rw [if_neg hname, if_neg hname']
                rfl

theorem run_shift (n : Nat) (fault : Option Error) (b : Builder) (tokens : List Token) :
    (b.shift n).run (fault.map (Error.shift n)) (tokens.map (Token.shift n)) =
      ((b.run fault tokens).map (Node.shiftAll n)).mapError (Error.shift n) := by
  induction tokens generalizing b with
  | nil =>
      obtain ⟨levels, nodes⟩ := b
      cases fault with
      | some e => rfl
      | none => cases levels <;> rfl
  | cons token tokens ih =>
      rw [List.map_cons, run_cons, run_cons, step_shift]
      cases b.step token with
      | error e => rfl
      | ok next => exact ih next

end Builder

/-! ## What shifted literals cover -/

/-- Behind a text of `n` bytes a span that is shifted by `n` covers what it covered. -/
theorem Span.cut?_shift (s : Span) (a b : Text) :
    (s.shift (Text.size a)).cut? (a ++ b) = s.cut? b := by
  have hfit : Text.fit (Text.size a + s.offset) (a ++ b) =
      (a ++ (Text.fit s.offset b).1, (Text.fit s.offset b).2) := by
    rw [Text.fit_append_of_size_le (Nat.le_add_right _ _), Nat.add_sub_cancel_left]
  simp only [cut?, shift, hfit, Text.size_append, Nat.add_left_cancel_iff]

namespace Node

mutual

theorem outline_shift (a b : Text) (node : Node) :
    outline (.covered (a ++ b)) (shift (Text.size a) node) = outline (.covered b) node := by
  cases node with
  | literal span =>
      rw [shift, outline, outline, Reading.covered, Reading.covered, Span.cut?_shift]
  | interpolation path escaped => rfl
  | block kind path children =>
      rw [shift, outline, outline, outlines_shift a b children]
  | inclusion name indent => rfl

/-- Behind a text of `n` bytes nodes that are shifted by `n` have the outlines that they had. -/
theorem outlines_shift (a b : Text) (nodes : List Node) :
    outlines (.covered (a ++ b)) (shiftAll (Text.size a) nodes) = outlines (.covered b) nodes := by
  cases nodes with
  | nil => rfl
  | cons node nodes =>
      rw [shiftAll_cons, outlines_cons, outlines_cons, outline_shift a b node,
        outlines_shift a b nodes]

end

end Node

end Mustache
