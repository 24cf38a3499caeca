import Mathlib
import Mustache.Node.Parser

/-!
# Parsing with a stack of open sections

`Node.ofTokens` follows the nesting of sections by recursion, and every call
hands the tokens that it did not use back to its caller.  Nothing in its type
says that a call uses exactly the tokens of its own section.  This file says so
by comparison with a machine that has no recursion at all.

`Builder` is that machine.  Its state is the list of the sections that are open,
the innermost first, each with the nodes that came before it on its level, and
the nodes of the current level so far.  One token is one step, and a step looks
at nothing but the token and the innermost section.

The second comparison goes the other way, from nodes back to tokens.  `Mark` is
what nodes keep of a token: everything but the places of tags, which only errors
need.  A node list in document order, with an opening and a closing mark around
the children of every section, is the token list again.

## Main results

* `Builder.run_eq_level` — the machine computes what the recursion computes,
  errors included, from every state;
* `Builder.moves_of_step`, `Builder.foldlM_keeps` — what a step can do, and that what
  every step keeps is kept by all of them;
* `Builder.marks_step`, `Builder.marks_foldlM` — a step adds the mark of its token
  at the end, and many steps add the marks of all of their tokens;
* `Node.parse_eq_ok_iff`, `Node.listing_of_parse` — when a template has nodes, and
  that these list its tokens;
* `Node.parse_eq_run` — both comparisons for the nodes of a whole template.
-/

namespace Mustache

/-! ## The machine -/

/-- A section that was opened and is not closed yet. -/
structure Level where
  kind : SectionKind
  opening : Opening
  /-- The nodes before the section, on the level that it stands on. -/
  before : List Node

/-- The state between two tokens. -/
structure Builder where
  /-- The open sections, the innermost first. -/
  levels : List Level
  /-- The nodes of the current level. -/
  nodes : List Node

namespace Builder

/-- No section is open and there are no nodes. -/
def start : Builder := ⟨[], []⟩

/-- Adds a node at the end of the current level. -/
def add (b : Builder) (node : Node) : Builder :=
  { b with nodes := b.nodes ++ [node] }

/-- Opens a section, unless as many are open as may be. -/
def opened (b : Builder) (kind : SectionKind) (tag : Opening) : Except Error Builder :=
  if b.levels.length < maxSectionDepth then
    .ok ⟨⟨kind, tag, b.nodes⟩ :: b.levels, []⟩
  else
    .error (.located (.nestingLimit tag.name maxSectionDepth) tag.span)

/-- Closes the innermost section, if that is the one with the name in the end tag. -/
def closed (b : Builder) (name : Text) (span : Span) : Except Error Builder :=
  match b.levels with
  | [] => .error (.located (.unexpectedEnd name) span)
  | innermost :: levels =>
    if innermost.opening.name = name then
      .ok ⟨levels, innermost.before ++ [.block innermost.kind (.ofName name) b.nodes]⟩
    else
      .error (.located (.mismatchedEnd innermost.opening.name name) span)

/-- What one token does. -/
def step (b : Builder) : Token → Except Error Builder
  | .text span => .ok (b.add (.literal span))
  | .tag (.interpolation escaped) name _ _ _ =>
    .ok (b.add (.interpolation (.ofName name) escaped))
  | .tag .inclusion name _ _ indent => .ok (b.add (.inclusion name indent))
  | .tag (.opening kind) name _ span _ => b.opened kind ⟨name, span⟩
  | .tag .closing name _ span _ => b.closed name span

/-- What a step can do: it adds a node at the end of the level, or it goes one level in, or it comes
back out, and the nodes of the level that it leaves become the children of a section. -/
inductive Moves : Builder → Token → Builder → Prop
  | text (b : Builder) (span : Span) : Moves b (.text span) (b.add (.literal span))
  | interpolation (b : Builder) (escaped : Bool) (name : Text) (nameSpan span : Span)
    (indent : Text) :
    Moves b (.tag (.interpolation escaped) name nameSpan span indent)
      (b.add (.interpolation (.ofName name) escaped))
  | inclusion (b : Builder) (name : Text) (nameSpan span : Span) (indent : Text) :
    Moves b (.tag .inclusion name nameSpan span indent) (b.add (.inclusion name indent))
  | opening {b : Builder} (kind : SectionKind) (name : Text) (nameSpan span : Span)
    (indent : Text) : b.levels.length < maxSectionDepth →
    Moves b (.tag (.opening kind) name nameSpan span indent)
      ⟨⟨kind, ⟨name, span⟩, b.nodes⟩ :: b.levels, []⟩
  | closing (innermost : Level) (levels : List Level) (nodes : List Node) (nameSpan span : Span)
    (indent : Text) :
    Moves ⟨innermost :: levels, nodes⟩
      (.tag .closing innermost.opening.name nameSpan span indent)
      ⟨levels,
        innermost.before ++ [.block innermost.kind (.ofName innermost.opening.name) nodes]⟩

theorem moves_of_step {b b' : Builder} {token : Token} (h : b.step token = .ok b') :
    Moves b token b' := by
  cases token with
  | text span =>
      cases h
      exact .text b span
  | tag role name nameSpan span indent =>
      cases role with
      | interpolation escaped =>
          cases h
          exact .interpolation b escaped name nameSpan span indent
      | inclusion =>
          cases h
          exact .inclusion b name nameSpan span indent
      | opening kind =>
          rw [step, opened] at h
          split at h
          · rename_i hroom
            cases h
            exact .opening kind name nameSpan span indent hroom
          · contradiction
      | closing =>
          obtain ⟨levels, nodes⟩ := b
          rw [step, closed] at h
          cases levels with
          | nil => contradiction
          | cons innermost levels =>
              simp only at h
              split at h
              · rename_i hname
                subst hname
                cases h
                exact .closing innermost levels nodes nameSpan span indent
              · contradiction

/-- What every step on these tokens keeps is kept by all of them together. -/
theorem foldlM_keeps {I : Builder → Prop} {b b' : Builder} {tokens : List Token}
    (hstep : ∀ token ∈ tokens, ∀ {b b'}, I b → step b token = .ok b' → I b') (h : I b)
    (hsteps : tokens.foldlM step b = .ok b') : I b' := by
  induction tokens generalizing b with
  | nil =>
      cases hsteps
      exact h
  | cons token tokens ih =>
      obtain ⟨hfirst, hrest⟩ := List.forall_mem_cons.1 hstep
      rw [List.foldlM_cons] at hsteps
      cases hnext : b.step token with
      | error e =>
          rw [hnext] at hsteps
          contradiction
      | ok next =>
          rw [hnext] at hsteps
          exact ih hrest (hfirst h hnext) hsteps

/-- What the end of the tokens does.  A fault of the tokens counts first, and then the innermost
section that is still open. -/
def finish (b : Builder) : Option Error → Except Error (List Node)
  | some fault => .error fault
  | none =>
    match b.levels with
    | [] => .ok b.nodes
    | innermost :: _ =>
      .error (.located (.unclosedSection innermost.opening.name) innermost.opening.span)

/-- Takes one token after the other, and then the end. -/
def run (fault : Option Error) (b : Builder) (tokens : List Token) : Except Error (List Node) :=
  (tokens.foldlM step b).bind fun b => b.finish fault

theorem run_nil (fault : Option Error) (b : Builder) : b.run fault [] = b.finish fault := rfl

theorem run_cons (fault : Option Error) (b : Builder) (token : Token) (tokens : List Token) :
    b.run fault (token :: tokens) = (b.step token).bind fun b => b.run fault tokens := by
  rw [run, List.foldlM_cons]
  cases h : b.step token <;> rfl

/-- A run succeeds if there is no fault and no section is open where the tokens end. -/
theorem run_eq_ok_iff {fault : Option Error} {b : Builder} {tokens : List Token}
    {nodes : List Node} :
    b.run fault tokens = .ok nodes ↔ fault = none ∧ tokens.foldlM step b = .ok ⟨[], nodes⟩ := by
  unfold run
  cases tokens.foldlM step b with
  | error e => exact ⟨nofun, nofun⟩
  | ok last =>
      obtain ⟨levels, built⟩ := last
      show finish ⟨levels, built⟩ fault = .ok nodes ↔ _
      cases fault with
      | some e => exact ⟨nofun, nofun⟩
      | none => cases levels <;> simp [finish]

end Builder

/-! ## The recursion without bounds -/

namespace Node

/-- `Node.ofTokens` without the bound on the tokens that it hands back, which only its own
termination needs. -/
def level (fault : Option Error) (opened : List Opening) (tokens : List Token) :
    Except Error (List Node × List Token) :=
  (ofTokens fault opened tokens).map fun (nodes, rest) => (nodes, rest.val)

variable (fault : Option Error) (opened : List Opening) (tokens : List Token)

theorem level_nil :
    level fault opened [] =
      match fault, opened with
      | some e, _ => .error e
      | none, innermost :: _ => .error (.located (.unclosedSection innermost.name) innermost.span)
      | none, [] => .ok ([], []) := by
  rw [level, ofTokens.eq_def]
  cases fault with
  | some e => rfl
  | none => cases opened <;> rfl

theorem level_text (span : Span) :
    level fault opened (.text span :: tokens) =
      (level fault opened tokens).map fun (nodes, rest) => (.literal span :: nodes, rest) := by
  rw [level, level, ofTokens]
  cases ofTokens fault opened tokens <;> rfl

theorem level_interpolation (escaped : Bool) (name : Text) (nameSpan span : Span) (indent : Text) :
    level fault opened (.tag (.interpolation escaped) name nameSpan span indent :: tokens) =
      (level fault opened tokens).map fun (nodes, rest) =>
        (.interpolation (.ofName name) escaped :: nodes, rest) := by
  rw [level, level, ofTokens]
  cases ofTokens fault opened tokens <;> rfl

theorem level_inclusion (name : Text) (nameSpan span : Span) (indent : Text) :
    level fault opened (.tag .inclusion name nameSpan span indent :: tokens) =
      (level fault opened tokens).map fun (nodes, rest) =>
        (.inclusion name indent :: nodes, rest) := by
  rw [level, level, ofTokens]
  cases ofTokens fault opened tokens <;> rfl

/-- A section takes the tokens up to its end tag, and the level goes on after them. -/
theorem level_opening (kind : SectionKind) (name : Text) (nameSpan span : Span) (indent : Text) :
    level fault opened (.tag (.opening kind) name nameSpan span indent :: tokens) =
      if maxSectionDepth ≤ opened.length then
        .error (.located (.nestingLimit name maxSectionDepth) span)
      else
        (level fault (⟨name, span⟩ :: opened) tokens).bind fun (children, after) =>
          (level fault opened after).map fun (nodes, rest) =>
            (.block kind (.ofName name) children :: nodes, rest) := by
  rw [level, level, ofTokens]
  by_cases hdepth : maxSectionDepth ≤ opened.length
  · rw [if_pos hdepth, if_pos hdepth]
    rfl
  · rw [if_neg hdepth, if_neg hdepth]
    cases ofTokens fault (⟨name, span⟩ :: opened) tokens with
    | error e => rfl
    | ok result =>
        obtain ⟨children, after, hafter⟩ := result
        show Except.map _ (Except.bind (ofTokens fault opened after) _) =
          Except.map _ (Except.map _ (ofTokens fault opened after))
        cases ofTokens fault opened after <;> rfl

theorem level_closing (name : Text) (nameSpan span : Span) (indent : Text) :
    level fault opened (.tag .closing name nameSpan span indent :: tokens) =
      match Opening.mismatch? name opened with
      | some cause => .error (.located cause span)
      | none => .ok ([], tokens) := by
  rw [level, ofTokens]
  cases Opening.mismatch? name opened <;> rfl

/-- What a call hands back is never more than what it was given. -/
theorem length_le_of_level {fault : Option Error} {opened : List Opening} {tokens : List Token}
    {nodes : List Node} {rest : List Token}
    (h : level fault opened tokens = .ok (nodes, rest)) : rest.length ≤ tokens.length := by
  unfold level at h
  cases hr : ofTokens fault opened tokens with
  | error e =>
      rw [hr] at h
      contradiction
  | ok result =>
      rw [hr] at h
      cases h
      exact result.2.property

theorem parse_eq_level (source : Text) :
    parse source =
      ((level (Cursor.start source).tokens.2 [] (Cursor.start source).tokens.1).map
        Prod.fst).mapError (Error.withSource source) := by
  unfold parse level
  generalize (Cursor.start source).tokens = result
  obtain ⟨tokens, fault⟩ := result
  simp only
  cases ofTokens fault [] tokens <;> rfl

end Node

/-! ## The machine and the recursion -/

namespace Builder

/-- The tags of the open sections, the innermost first. -/
def openings (b : Builder) : List Opening :=
  b.levels.map Level.opening

@[simp] theorem length_openings (b : Builder) : b.openings.length = b.levels.length :=
  List.length_map ..

/-- How the machine goes on when the recursion hands back the nodes up to an end tag and the
tokens after it: the end tag has closed the innermost section.  With no section open the nodes are
all there are. -/
def resume (fault : Option Error) (b : Builder) (nodes : List Node) (rest : List Token) :
    Except Error (List Node) :=
  match b.levels with
  | [] => .ok (b.nodes ++ nodes)
  | innermost :: levels =>
    run fault ⟨levels, innermost.before ++
      [.block innermost.kind (.ofName innermost.opening.name) (b.nodes ++ nodes)]⟩ rest

theorem resume_add (fault : Option Error) (b : Builder) (node : Node) (nodes : List Node)
    (rest : List Token) :
    resume fault (b.add node) nodes rest = resume fault b (node :: nodes) rest := by
  simp only [resume, add, List.append_assoc, List.singleton_append]

/-- The machine computes what the recursion computes: it reads the tokens that a level uses, and
goes on with the tokens that the level hands back. -/
theorem run_eq_level (fault : Option Error) (b : Builder) (tokens : List Token) :
    run fault b tokens =
      (Node.level fault b.openings tokens).bind fun (nodes, rest) =>
        resume fault b nodes rest := by
  -- The recursion goes on after the end tag of a section, so the induction is on the number of
  -- tokens that are left and not on their list.
  have hadd (node : Node) (tokens' : List Token) (h : tokens'.length < tokens.length) :
      run fault (b.add node) tokens' =
        (Node.level fault b.openings tokens').bind fun (nodes, rest) =>
          resume fault b (node :: nodes) rest := by
    rw [run_eq_level fault (b.add node) tokens']
    simp only [resume_add]
    rfl
  cases tokens with
  | nil =>
      rw [Node.level_nil]
      obtain ⟨levels, nodes⟩ := b
      cases fault with
      | some e => rfl
      | none =>
          cases levels with
          | nil => simp [run_nil, finish, openings, resume, Except.bind]
          | cons innermost levels => rfl
  | cons token tokens =>
      have hlt : tokens.length < (token :: tokens).length := Nat.lt_succ_self _
      cases token with
      | text span =>
          rw [Node.level_text, run_cons, step]
          show run fault (b.add (.literal span)) tokens = _
          rw [hadd _ tokens hlt]
          cases Node.level fault b.openings tokens <;> rfl
      | tag role name nameSpan span indent =>
          cases role with
          | interpolation escaped =>
              rw [Node.level_interpolation, run_cons, step]
              show run fault (b.add (.interpolation (.ofName name) escaped)) tokens = _
              rw [hadd _ tokens hlt]
              cases Node.level fault b.openings tokens <;> rfl
          | inclusion =>
              rw [Node.level_inclusion, run_cons, step]
              show run fault (b.add (.inclusion name indent)) tokens = _
              rw [hadd _ tokens hlt]
              cases Node.level fault b.openings tokens <;> rfl
          | opening kind =>
              rw [Node.level_opening, run_cons, step, opened, length_openings]
              by_cases hdepth : b.levels.length < maxSectionDepth
              · rw [if_pos hdepth, if_neg (Nat.not_le_of_lt hdepth)]
                show run fault ⟨⟨kind, ⟨name, span⟩, b.nodes⟩ :: b.levels, []⟩ tokens = _
                rw [run_eq_level fault _ tokens]
                show (Node.level fault (⟨name, span⟩ :: b.openings) tokens).bind _ = _
                cases hl : Node.level fault (⟨name, span⟩ :: b.openings) tokens with
                | error e => rfl
                | ok result =>
                    obtain ⟨children, after⟩ := result
                    have hafter := Nat.lt_of_le_of_lt (Node.length_le_of_level hl) hlt
                    show run fault (b.add (.block kind (.ofName name) ([] ++ children)))
                      after = Except.bind (Except.map _ (Node.level fault b.openings after)) _
                    rw [List.nil_append, hadd _ after hafter]
                    cases Node.level fault b.openings after <;> rfl
              · rw [if_neg hdepth, if_pos (Nat.le_of_not_lt hdepth)]
                rfl
          | closing =>
              rw [Node.level_closing, run_cons, step]
              obtain ⟨levels, nodes⟩ := b
              cases levels with
              | nil => rfl
              | cons innermost levels =>
                  simp only [closed, openings, List.map_cons, Opening.mismatch?]
                  by_cases hname : innermost.opening.name = name
                  · subst hname
                    simp [resume, Except.bind]
                  · simp [hname, Except.bind]
termination_by tokens.length

end Builder

/-! ## From nodes back to tokens -/

/-- What nodes keep of a token.  A section keeps its two tags. -/
inductive Mark
  | text (span : Span)
  | interpolation (escaped : Bool) (name : Text)
  | opening (kind : SectionKind) (name : Text)
  | closing (name : Text)
  | inclusion (name indent : Text)
deriving DecidableEq, Repr

/-- The mark of a token: all of it but the places of a tag and of its name. -/
def Token.mark : Token → Mark
  | .text span => .text span
  | .tag (.interpolation escaped) name _ _ _ => .interpolation escaped name
  | .tag (.opening kind) name _ _ _ => .opening kind name
  | .tag .closing name _ _ _ => .closing name
  | .tag .inclusion name _ _ indent => .inclusion name indent

namespace Node

mutual

/-- The marks of a node: the opening tag of a section comes before its children and the closing
tag after them. -/
def marks : Node → List Mark
  | .literal span => [.text span]
  | .interpolation path escaped => [.interpolation escaped path.name]
  | .block kind path children => .opening kind path.name :: listing children ++ [.closing path.name]
  | .inclusion name indent => [.inclusion name indent]

/-- The marks of nodes, in document order. -/
def listing : List Node → List Mark
  | [] => []
  | node :: nodes => marks node ++ listing nodes

end

@[simp] theorem listing_nil : listing [] = [] := rfl

@[simp] theorem listing_cons (node : Node) (nodes : List Node) :
    listing (node :: nodes) = marks node ++ listing nodes := rfl

@[simp] theorem listing_append (a b : List Node) : listing (a ++ b) = listing a ++ listing b := by
  induction a with
  | nil => rfl
  | cons node a ih => simp [ih]

end Node

/-- The marks of a section that is still open, up to where its children begin. -/
def Level.marks (l : Level) : List Mark :=
  Node.listing l.before ++ [.opening l.kind l.opening.name]

namespace Builder

/-- The marks of everything that was built, in document order: the outermost section that is open
began first. -/
def marks (b : Builder) : List Mark :=
  b.levels.reverse.flatMap Level.marks ++ Node.listing b.nodes

@[simp] theorem marks_start : start.marks = [] := rfl

@[simp] theorem marks_mk_nil (nodes : List Node) : marks ⟨[], nodes⟩ = Node.listing nodes := rfl

theorem marks_add (b : Builder) (node : Node) : (b.add node).marks = b.marks ++ node.marks := by
  simp [marks, add]

/-- A step adds the mark of its token. -/
theorem marks_step {b b' : Builder} {token : Token} (h : b.step token = .ok b') :
    b'.marks = b.marks ++ [token.mark] := by
  cases moves_of_step h with
  | text b span => exact marks_add b _
  | interpolation b escaped name nameSpan span indent =>
      rw [marks_add, Node.marks, Path.name_ofName]
      rfl
  | inclusion b name nameSpan span indent => exact marks_add b _
  | opening kind name nameSpan span indent hroom => simp [marks, Level.marks, Token.mark]
  | closing innermost levels nodes nameSpan span indent =>
      simp [marks, Level.marks, Node.marks, Path.name_ofName, Token.mark]

/-- Steps add the marks of all their tokens. -/
theorem marks_foldlM {b b' : Builder} {tokens : List Token}
    (h : tokens.foldlM step b = .ok b') : b'.marks = b.marks ++ tokens.map Token.mark := by
  induction tokens generalizing b with
  | nil =>
      cases h
      simp
  | cons token tokens ih =>
      rw [List.foldlM_cons] at h
      cases hstep : b.step token with
      | error e =>
          rw [hstep] at h
          contradiction
      | ok next =>
          rw [hstep] at h
          rw [ih h, marks_step hstep]
          simp

end Builder

namespace Node

theorem parse_eq_mapError_run (source : Text) :
    parse source =
      (Builder.start.run (Cursor.start source).tokens.2 (Cursor.start source).tokens.1).mapError
        (Error.withSource source) := by
  rw [parse_eq_level, Builder.run_eq_level]
  show _ = Except.mapError _ (Except.bind (level _ [] _) _)
  cases level (Cursor.start source).tokens.2 [] (Cursor.start source).tokens.1 <;> rfl

/-- There are nodes exactly if the machine gets through the tokens and no section is open then. -/
theorem parse_eq_ok_iff {source : Text} {nodes : List Node} :
    parse source = .ok nodes ↔
      (Cursor.start source).tokens.2 = none ∧
        (Cursor.start source).tokens.1.foldlM Builder.step Builder.start = .ok ⟨[], nodes⟩ := by
  rw [parse_eq_mapError_run, ← Builder.run_eq_ok_iff]
  cases Builder.start.run (Cursor.start source).tokens.2 (Cursor.start source).tokens.1 <;>
    simp [Except.mapError]

/-- The nodes of a template list its tokens. -/
theorem listing_of_parse {source : Text} {nodes : List Node} (h : parse source = .ok nodes) :
    listing nodes = (Cursor.start source).tokens.1.map Token.mark := by
  have hmarks := Builder.marks_foldlM (parse_eq_ok_iff.1 h).2
  simpa using hmarks

/-- The nodes of a template, and the error if it has none, are those of the machine.  There are
nodes exactly if the machine gets through the tokens and no section is open then; and the nodes
list the tokens of the template, every one of them and in order. -/
theorem parse_eq_run (source : Text) :
    let tokens := (Cursor.start source).tokens.1
    let fault := (Cursor.start source).tokens.2
    parse source = (Builder.start.run fault tokens).mapError (Error.withSource source) ∧
      (∀ nodes, parse source = .ok nodes ↔
        fault = none ∧ tokens.foldlM Builder.step Builder.start = .ok ⟨[], nodes⟩) ∧
      ∀ nodes, parse source = .ok nodes → listing nodes = tokens.map Token.mark := by
  intro tokens fault
  refine ⟨parse_eq_mapError_run source, ?_, ?_⟩
  · intro nodes
    exact parse_eq_ok_iff
  · intro nodes h
    exact listing_of_parse h

/-- A section with a text in it, after a text. -/
theorem parse_eq_run_of_section :
    parse "a{{#s}}b{{/s}}".toList =
        .ok [.literal ⟨0, 1⟩, .block .normal ⟨['s'], []⟩ [.literal ⟨7, 1⟩]] ∧
      listing [.literal ⟨0, 1⟩, .block .normal ⟨['s'], []⟩ [.literal ⟨7, 1⟩]] =
        (Cursor.start "a{{#s}}b{{/s}}".toList).tokens.1.map Token.mark := by
  have h : parse "a{{#s}}b{{/s}}".toList =
      .ok [.literal ⟨0, 1⟩, .block .normal ⟨['s'], []⟩ [.literal ⟨7, 1⟩]] := by cbv
  exact ⟨h, (parse_eq_run _).2.2 _ h⟩

end Node

end Mustache
