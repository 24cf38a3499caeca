import Mathlib
import Mustache.Proofs.Similarity

/-!
# Values that are hidden by others

A section brings a value into scope on top of those that were there before, and a
name finds the innermost member of that name.  So a value further out matters only
as far as names get past the values above it.  This file says what follows for
whole templates: two stacks of values render alike if they have the same value on
top and the first segments of all paths find the same in both.

Three things might spoil this.  Sections push values while they are rendered, and
so the stacks change; but they change in the same way, and a value that is pushed on
both hides the same in both.  The further segments of a path are looked up, but
only in what the first one found, which is the same value.  And a partial has paths
of its own.  Those are the paths of its text in the table, since the indentation
that it is compiled with changes no tag.

## Main results

* `Node.Uses.mem_paths` — the paths in the nodes of a text are those of its tags;
* `Context.Agree.push` — stacks that agree still do when a value is pushed on both;
* `Context.renderNodes_eq_of_agree` — nodes are rendered alike in stacks that agree,
  whether or not there are hidden values in them.
-/

namespace Mustache

/-! ## The paths of a text -/

/-- The path that is resolved for a tag of this role and name. -/
def Role.path? (role : Role) (name : Text) : Option Path :=
  match role with
  | .interpolation _ | .opening _ => some (.ofName name)
  | .closing | .inclusion => none

/-- The path that is resolved for a token. -/
def Token.path? (token : Token) : Option Path :=
  token.tag?.bind fun (role, name) => role.path? name

/-- The paths that are resolved for the tags of a text, in the order of the tags. -/
def Text.paths (source : Text) : List Path :=
  source.tags.filterMap fun (role, name) => role.path? name

theorem Text.mem_paths {path : Path} {source : Text} :
    path ∈ source.paths ↔ ∃ token ∈ (Cursor.start source).tokens.1, token.path? = some path := by
  rw [paths, tags, List.filterMap_filterMap, List.mem_filterMap]
  rfl

/-- Indenting a text does not change its paths. -/
theorem Text.paths_indent {lead : Text} (hlead : Text.Blank lead) (source : Text) :
    (Text.indent lead source).paths = source.paths := by
  rw [paths, paths, tags_indent hlead]

namespace Builder

variable {P : Path → Prop} {b b' : Builder} {token : Token}

/-- The tags of the nodes so far and those of the open sections have paths in `P`. -/
structure UsesOnly (P : Path → Prop) (b : Builder) : Prop where
  nodes {path : Path} : Node.Uses path b.nodes → P path
  before {level : Level} {path : Path} :
    level ∈ b.levels → Node.Uses path level.before → P path
  opening {level : Level} : level ∈ b.levels → P (.ofName level.opening.name)

theorem usesOnly_start (P : Path → Prop) : start.UsesOnly P where
  nodes hused := (Node.not_uses_nil hused).elim
  before := nofun
  opening := nofun

theorem UsesOnly.add (h : b.UsesOnly P) {node : Node}
    (hnode : ∀ path, node.HasPath path → P path) : (b.add node).UsesOnly P where
  nodes hused := by
    rcases Node.uses_append.1 hused with hused | hused
    · exact h.nodes hused
    · exact hnode _ (by simpa using hused)
  before := h.before
  opening := h.opening

theorem UsesOnly.step (h : b.UsesOnly P) (htoken : ∀ path, token.path? = some path → P path)
    (hstep : b.step token = .ok b') : b'.UsesOnly P := by
  cases moves_of_step hstep with
  | text => exact h.add nofun
  | interpolation b escaped name nameSpan span indent =>
      exact h.add fun path hpath => htoken path (congrArg some hpath)
  | inclusion => exact h.add nofun
  | opening kind name nameSpan span indent hroom =>
      refine ⟨(usesOnly_start P).nodes, ?_, ?_⟩
      · intro level path hlevel
        rcases List.mem_cons.1 hlevel with rfl | hlevel
        · exact h.nodes
        · exact h.before hlevel
      · intro level hlevel
        rcases List.mem_cons.1 hlevel with rfl | hlevel
        · exact htoken _ rfl
        · exact h.opening hlevel
  | closing innermost levels nodes nameSpan span indent =>
      have hbefore : UsesOnly P ⟨levels, innermost.before⟩ :=
        ⟨h.before List.mem_cons_self, fun hmem => h.before (List.mem_cons_of_mem _ hmem),
          fun hmem => h.opening (List.mem_cons_of_mem _ hmem)⟩
      -- The children of the new node are the nodes of the level that is left.
      refine hbefore.add fun path hpath => ?_
      rcases hpath with rfl | hused
      · exact h.opening List.mem_cons_self
      · exact h.nodes hused

end Builder

/-- The paths in the nodes of a text are those of its tags. -/
theorem Node.Uses.mem_paths {path : Path} {source : Text} {nodes : List Node}
    (h : Uses path nodes) (hparse : parse source = .ok nodes) : path ∈ source.paths := by
  have hused := Builder.foldlM_keeps (I := Builder.UsesOnly (· ∈ source.paths))
    (fun token htoken _ _ hbuilt hstep =>
      hbuilt.step (fun path hpath => Text.mem_paths.2 ⟨token, htoken, hpath⟩) hstep)
    (Builder.usesOnly_start _) (parse_eq_ok_iff.1 hparse).2
  exact hused.nodes h

/-- The names that a rendering of the nodes may look up in all values in scope: the first segments
of the paths in the nodes and in the texts of the table. -/
inductive Node.Mentions (partials : Text → Option Text) (nodes : List Node) : Text → Prop
  | inNodes {path : Path} : Uses path nodes → Mentions partials nodes path.head
  | inTable {name text : Text} {path : Path} :
    partials name = some text → path ∈ text.paths → Mentions partials nodes path.head

/-! ## Stacks of values that agree -/

namespace Context

variable {names : Text → Prop} {c c' : Context}

theorem find?_self (c : Context) : c.find? ['.'] = .ofOption c.head? := by
  cases c with
  | nil => rfl
  | cons v c =>
      rw [find?_cons, Value.lookup_self]
      rfl

/-- A name finds something, or fails to, if it does so in one of the values. -/
theorem find?_ne_nothing {name : Text} (h : ∃ v ∈ c, v.lookup name ≠ .nothing) :
    c.find? name ≠ .nothing := by
  induction c with
  | nil => simp at h
  | cons v c ih =>
      rw [find?_cons]
      cases hv : v.lookup name with
      | nothing =>
          rw [List.exists_mem_cons_iff, hv] at h
          exact ih (h.resolve_left fun hne => hne rfl)
      | found w => nofun
      | failed reason => nofun

/-- The same value is on top of both stacks, and the names find the same in both.  The name `.` is
not asked for, since it finds the value on top. -/
structure Agree (names : Text → Prop) (c c' : Context) : Prop where
  head?_eq : c.head? = c'.head?
  find?_eq {name : Text} : names name → name ≠ ['.'] → c.find? name = c'.find? name

/-- Stacks that agree still do when a value is pushed on both. -/
theorem Agree.push (h : Agree names c c') (v : Value) : Agree names (v :: c) (v :: c') where
  head?_eq := rfl
  find?_eq hname hself := by
    rw [find?_cons, find?_cons, h.find?_eq hname hself]

theorem Agree.resolve_eq (h : Agree names c c') {path : Path} (hpath : names path.head) :
    c.resolve path = c'.resolve path := by
  have hfind : c.find? path.head = c'.find? path.head := by
    by_cases hself : path.head = ['.']
    · rw [hself, find?_self, find?_self, h.head?_eq]
    · exact h.find?_eq hpath hself
  rw [resolve, resolve, hfind]

theorem agree_similarity (names : Text → Prop) :
    Similarity (fun path => names path.head) Eq (Agree names) where
  resolve {c c' path} hc hpath := by
    rw [hc.resolve_eq hpath]
    exact Finding.rel_refl (fun _ => rfl) _
  isTruthy h := congrArg Value.isTruthy h
  writeValue h := by
    intro σ _ escaper
    rw [h]
  scopes hc h := by
    rw [h]
    exact List.forall₂_same.2 fun scope _ => hc.push scope

/-- The names do not tell whether `w` stands between these values: either a value above it has the
member, or `w` does not have it, or `w` has the one that is found below it as well. -/
def Hidden (names : Text → Prop) (above : Context) (w : Value) (below : Context) : Prop :=
  ∀ name, names name → name ≠ ['.'] →
    (∃ v ∈ above, v.lookup name ≠ .nothing) ∨ w.lookup name = .nothing ∨
      w.lookup name = find? below name

theorem Hidden.agree {v w : Value} {above below : Context}
    (h : Hidden names (v :: above) w below) :
    Agree names (v :: above ++ w :: below) (v :: above ++ below) where
  head?_eq := rfl
  find?_eq {name} hname hself := by
    rw [find?_append, find?_append, find?_cons w]
    rcases h name hname hself with habove | hnone | hbelow
    · rw [Finding.or_of_ne_nothing (find?_ne_nothing habove),
        Finding.or_of_ne_nothing (find?_ne_nothing habove)]
    · rw [hnone, Finding.nothing_or]
    · rw [hbelow, Finding.or_self]

/-- Of the values below the top, rendering sees only what names find that get past the values above.
The nodes are rendered alike in two stacks of values that agree for the names that the nodes and the
texts of the table mention; and so a value that is hidden can be added, taken away or replaced by
another that is hidden.

The indentation of an inclusion is blank, as `Node.Occurs.blank_indent` says of the nodes of every
text and of every section in it. -/
theorem renderNodes_eq_of_agree {σ : Type} [Sink σ] (partials : Text → Option Text)
    (options : Options) (room : Nat) (source : Text) (nodes : List Node)
    (hblank : ∀ name indent, Node.Occurs (.inclusion name indent) nodes → Text.Blank indent) :
    let render : Context → RenderM σ Unit := fun c =>
      renderNodes options.escaper (renderPartial partials options room) source c nodes
    (∀ c c', Agree (Node.Mentions partials nodes) c c' → render c = render c') ∧
      ∀ v above w below, Hidden (Node.Mentions partials nodes) (v :: above) w below →
        render (v :: above ++ w :: below) = render (v :: above ++ below) := by
  intro render
  have hsimilar := agree_similarity (Node.Mentions partials nodes)
  have hrender (c c' : Context) (h : Agree (Node.Mentions partials nodes) c c') :
      render c = render c' := by
    refine hsimilar.renderNodes_eq h nodes (fun path hused => .inNodes hused) ?_
    intro name indent hoccurs c c' hc
    refine hsimilar.renderPartial_eq ?_ options room name (hblank name indent hoccurs) hc
    intro name text indent children hget hindent hparse path hused
    refine .inTable hget ?_
    rw [← Text.paths_indent hindent]
    exact hused.mem_paths hparse
  exact ⟨hrender, fun v above w below h => hrender _ _ h.agree⟩

/-- Between two values, one whose `a` is hidden and whose `c` is not mentioned. -/
theorem renderNodes_eq_of_agree_of_hidden :
    let partials : Text → Option Text := fun name =>
      if name = ['p'] then some "{{b}}".toList else none
    let nodes : List Node := [.interpolation ⟨['a'], []⟩ true, .inclusion ['p'] []]
    let v : Value := .map .direct [(.text ['a'], .text ['1'])] []
    let w : Value := .map .direct [(.text ['a'], .text ['2']), (.text ['c'], .text ['3'])] []
    let u : Value := .map .direct [(.text ['b'], .text ['4'])] []
    let render : Context → RenderM TextSink Unit := fun c =>
      renderNodes Escaper.html (renderPartial partials {} 1) "{{a}}{{>p}}".toList c nodes
    (∀ name indent, Node.Occurs (.inclusion name indent) nodes → Text.Blank indent) ∧
      Hidden (Node.Mentions partials nodes) [v] w [u] ∧ render [v, w, u] = render [v, u] := by
  have hpaths : Text.paths "{{b}}".toList = [⟨['b'], []⟩] := by cbv
  intro partials nodes v w u render
  have hblank : ∀ name indent, Node.Occurs (.inclusion name indent) nodes → Text.Blank indent := by
    intro name indent h
    cases h with
    | here hmem =>
        obtain ⟨-, rfl⟩ : name = ['p'] ∧ indent = [] := by simpa [nodes] using hmem
        exact List.forall_mem_nil _
    | inside hmem _ => simp [nodes] at hmem
  have hmentions {name : Text} (h : Node.Mentions partials nodes name) :
      name = ['a'] ∨ name = ['b'] := by
    cases h with
    | @inNodes path hused =>
        obtain rfl : ⟨['a'], []⟩ = path := by simpa [nodes, Node.HasPath] using hused
        exact .inl rfl
    | @inTable name text path hget hmem =>
        have htext : "{{b}}".toList = text := by
          by_cases hname : name = ['p'] <;> simp [partials, hname] at hget
          exact hget
        rw [← htext, hpaths] at hmem
        rw [List.mem_singleton.1 hmem]
        exact .inr rfl
  have hhidden : Hidden (Node.Mentions partials nodes) [v] w [u] := by
    intro name hname _
    rcases hmentions hname with rfl | rfl
    · have hfound : v.lookup ['a'] = .found (.text [['1']]) := rfl
      refine .inl ⟨v, List.mem_cons_self, fun hnothing => ?_⟩
      rw [hfound] at hnothing
      cases hnothing
    · exact .inr (.inl rfl)
  exact ⟨hblank, hhidden,
    (renderNodes_eq_of_agree partials {} 1 _ nodes hblank).2 v [] w [u] hhidden⟩

end Context

end Mustache
