import Mustache.Proofs.IndentedTags

/-!
# The forms of a tag

`Tag.read` goes through a text once, and at every character it decides what to do
next.  To argue about other texts that hold the same tag, with more text after it
or with other delimiters around it, this is the wrong way round.  What is needed
is a statement of what a tag looks like from which the reading follows.

`Tag.Form` is that statement: a tag is a comment, a set-delimiter tag, or a name
with perhaps a sigil in front of it or braces around it, and space is allowed
between these parts.  A name goes up to the first space or closing delimiter, so
`Tag.NameForm` says where the name may end, but also that it does not end before.

## Main results

* `Tag.readNamed_eq_ok_iff` — a name is read exactly if the text has that form;
* `Tag.read_eq_ok_iff` — a tag is read exactly if the text has one of the forms;
* `Cursor.step_eq_stepOverLine` — the step over a tag with a line to itself.
-/

namespace Mustache

namespace Text

/-- Whether all of a text is space. -/
def Spaces (t : Text) : Prop :=
  ∀ c ∈ t, isSpace c = true

/-- Where one of two texts is cut inside a beginning of it, the beginning goes on after the cut. -/
theorem exists_cons_of_append {x y a b : Text} (h : x ++ y = a ++ b) (hlt : x.length < a.length) :
    ∃ c z, a = x ++ c :: z ∧ y = c :: z ++ b := by
  rcases List.append_eq_append_iff.1 h with ⟨z, ha, hy⟩ | ⟨z, hx, -⟩
  · cases z with
    | nil =>
        rw [ha, List.append_nil] at hlt
        omega
    | cons c z => exact ⟨c, z, ha, hy⟩
  · rw [hx, List.length_append] at hlt
    omega

/-- A pattern does not begin inside a text in which its first character does not occur. -/
theorem not_isPrefix_of_head? {pattern a b x y : Text} (hp : pattern ≠ [])
    (h : ∀ c ∈ a, pattern.head? ≠ some c) (hxy : x ++ y = a ++ b) (hlt : x.length < a.length) :
    ¬ pattern <+: y := by
  intro hbegins
  obtain ⟨c, z, rfl, rfl⟩ := exists_cons_of_append hxy hlt
  obtain ⟨first, more, rfl⟩ := List.exists_cons_of_ne_nil hp
  obtain ⟨r, hr⟩ := hbegins
  obtain ⟨rfl, -⟩ := List.cons.inj hr
  exact h first (by simp) rfl

/-- That a pattern does not begin inside a text is settled where a text as long as the pattern comes
after it, and what comes then does not matter. -/
theorem not_isPrefix_of_rest {pattern t u a : Text} (hlength : pattern.length ≤ u.length)
    (h : ∀ x y, x ++ y = t ++ (u ++ a) → x.length < t.length → ¬ pattern <+: y) (b : Text) :
    ∀ x y, x ++ y = t ++ (u ++ b) → x.length < t.length → ¬ pattern <+: y := by
  intro x y hxy hlt hbegins
  obtain ⟨c, z, rfl, rfl⟩ := exists_cons_of_append hxy hlt
  have hshort : pattern <+: c :: z ++ u := by
    rw [← List.append_assoc] at hbegins
    refine List.prefix_of_prefix_length_le hbegins (List.prefix_append _ b) ?_
    simp only [List.length_append]
    omega
  refine h x (c :: z ++ (u ++ a)) (List.append_assoc _ _ _).symm hlt ?_
  rw [← List.append_assoc]
  exact hshort.trans (List.prefix_append _ a)

/-- No space comes before a character that is none. -/
theorem Spaces.eq_nil_of_append_eq_cons {space a t : Text} {c : Char} (h : Spaces space)
    (happend : space ++ a = c :: t) (hc : isSpace c = false) : space = [] := by
  cases space with
  | nil => rfl
  | cons x space =>
      obtain ⟨rfl, -⟩ := List.cons.inj happend
      have hx := h x List.mem_cons_self
      rw [hc] at hx
      contradiction

theorem spaces_takeWhile (t : Text) : Spaces (t.takeWhile isSpace) :=
  List.all_eq_true.1 List.all_takeWhile

/-- Where a pattern without space comes next, no space comes next. -/
theorem Solid.isSpace_head? {pattern : Text} (h : Solid pattern) (r : Text) {c : Char}
    (hc : (pattern ++ r).head? = some c) : isSpace c = false := by
  cases pattern with
  | nil => exact absurd rfl h.1
  | cons x pattern =>
      obtain rfl := Option.some.inj hc
      exact h.2 x List.mem_cons_self

end Text

namespace Tag

/-! ## Names -/

/-- The brace after a name that has one before it. -/
def brace (braced : Bool) : Text :=
  if braced then ['}'] else []

/-- What ends a name, if no space does. -/
def stop (d : Delimiters) (braced : Bool) : Text :=
  if braced then ['}'] else d.closing.text

/-- The text `t` is a name with space on both sides and then `ending`.  The name is as long as it
can be without space and without an occurrence of `stop`. -/
structure NameForm (stop ending t space name space' : Text) : Prop where
  append : space ++ (name ++ (space' ++ ending)) = t
  spaces : Text.Spaces space
  spaces' : Text.Spaces space'
  nonempty : name ≠ []
  solid : ∀ c ∈ name, Text.isSpace c = false
  first : ∀ x y, x ++ y = name ++ (space' ++ ending) → x.length < name.length → ¬ stop <+: y

/-- The text after a name and the space after it. -/
theorem isSpace_head?_ending (d : Delimiters) (braced : Bool) (rest : Text) {c : Char}
    (hc : (brace braced ++ (d.closing.text ++ rest)).head? = some c) : Text.isSpace c = false := by
  cases braced with
  | true =>
      obtain rfl := Option.some.inj hc
      rfl
  | false => exact d.closing.solid.isSpace_head? rest hc

/-- A name ends where what ends it begins. -/
theorem stop_isPrefix (d : Delimiters) (braced : Bool) (rest : Text) :
    stop d braced <+: brace braced ++ (d.closing.text ++ rest) := by
  cases braced with
  | true => exact List.prefix_append _ _
  | false => exact List.prefix_append _ _

/-- A name is looked for up to `stop`, and then a brace is expected if there was one before it. -/
theorem stop_eq (d : Delimiters) (braced : Bool) :
    (if braced then (if braced then ['}'] else []) else d.closing.text : Text) = stop d braced := by
  cases braced <;> rfl

/-- Where a name is read, it has space on both sides. -/
theorem exists_nameForm_of_readNamed {d : Delimiters} {role : Role} {braced : Bool}
    {before t : Text} {r : Reading} (h : readNamed d role braced before t = .ok r) :
    ∃ space space', NameForm (stop d braced) (brace braced ++ (d.closing.text ++ r.rest)) t
        space r.body space' ∧
      r = ⟨.named role, before ++ space, r.body, space' ++ brace braced ++ d.closing.text,
        r.rest⟩ := by
  have hbrace : (if braced then ['}'] else [] : Text) = brace braced := rfl
  simp only [readNamed] at h
  rw [stop_eq, hbrace] at h
  have ht := List.takeWhile_append_dropWhile (p := Text.isSpace) (l := t)
  have hspace := Text.spaces_takeWhile t
  generalize t.takeWhile Text.isSpace = space at h ht hspace
  generalize t.dropWhile Text.isSpace = u at h ht
  split at h
  · cases h
  · cases h
  · rename_i name v hname hbreak
    obtain ⟨happend, -, -, hfirst⟩ := Text.breakAt_eq_some_iff.1 hbreak
    have hv := List.takeWhile_append_dropWhile (p := Text.isSpace) (l := v)
    have hspace' := Text.spaces_takeWhile v
    generalize v.takeWhile Text.isSpace = space' at h hv hspace'
    split at h
    · cases h
    · rename_i w hw
      rw [Text.strip?_eq_some_iff] at hw
      split at h
      · cases h
      · rename_i rest hrest
        rw [Text.strip?_eq_some_iff] at hrest
        cases h
        have hu : name ++ (space' ++ (brace braced ++ (d.closing.text ++ rest))) = u := by
          rw [hrest, hw, hv, happend]
        refine ⟨space, space', ⟨?_, hspace, hspace', ?_, ?_, ?_⟩, rfl⟩
        · rw [hu, ht]
        · exact hname
        · intro c hc
          obtain ⟨x, y, rfl⟩ := List.append_of_mem hc
          have := hfirst x (c :: y ++ v) (by rw [← happend]; simp) (by simp)
          rw [List.cons_append, Text.beginsWithSpace, Bool.or_eq_false_iff] at this
          exact this.1
        · intro x y hxy hlt hbegins
          have := hfirst x y (by rw [hxy, hu]) hlt
          rw [List.isPrefixOf_iff_prefix.2 hbegins, Bool.or_true] at this
          contradiction

/-- No character of a name in braces is a brace that closes it. -/
theorem NameForm.brace_not_mem {ending t space name space' : Text}
    (form : NameForm ['}'] ending t space name space') : '}' ∉ name := by
  intro hmem
  obtain ⟨x, y, rfl⟩ := List.append_of_mem hmem
  exact form.first x ('}' :: y ++ (space' ++ ending)) (by simp) (by simp) ⟨_, rfl⟩

/-- Where the text begins with a character that is no space, so does the name. -/
theorem NameForm.begins {stop ending t space name space' : Text} {c : Char}
    (form : NameForm stop ending (c :: t) space name space') (hc : Text.isSpace c = false) :
    space = [] ∧ ∃ name', name = c :: name' := by
  have happend := form.append
  obtain rfl := form.spaces.eq_nil_of_append_eq_cons happend hc
  obtain ⟨x, name', rfl⟩ := List.exists_cons_of_ne_nil form.nonempty
  obtain ⟨rfl, -⟩ := List.cons.inj happend
  exact ⟨rfl, name', rfl⟩

/-- The search for the end of a name stops where the name ends. -/
theorem NameForm.breakAt_eq {stop ending t space name space' : Text}
    (form : NameForm stop ending t space name space') (hne : ending ≠ [])
    (hstop : stop <+: ending) :
    Text.breakAt (fun r => Text.beginsWithSpace r || stop.isPrefixOf r)
      (name ++ (space' ++ ending)) = some (name, space' ++ ending) := by
  refine Text.breakAt_eq_some_iff.2 ⟨rfl, List.append_ne_nil_of_right_ne_nil _ hne, ?_, ?_⟩
  · cases hspace' : space' with
    | nil =>
        rw [List.nil_append, List.isPrefixOf_iff_prefix.2 hstop, Bool.or_true]
    | cons x more =>
        have hx : Text.isSpace x = true := form.spaces' x (by simp [hspace'])
        simp [Text.beginsWithSpace, hx]
  · intro x y hxy hlt
    have hnot := form.first x y hxy hlt
    rw [Bool.or_eq_false_iff, Bool.eq_false_iff, Bool.eq_false_iff, Ne, Ne,
      List.isPrefixOf_iff_prefix]
    refine ⟨?_, hnot⟩
    obtain ⟨a, z, hz, rfl⟩ := Text.exists_cons_of_append hxy hlt
    have ha : Text.isSpace a = false := form.solid a (by simp [hz])
    simp [Text.beginsWithSpace, ha]

/-- A name with space on both sides is read as the name. -/
theorem NameForm.readNamed_eq {d : Delimiters} {braced : Bool} {t rest space name space' : Text}
    (form : NameForm (stop d braced) (brace braced ++ (d.closing.text ++ rest)) t space name space')
    (role : Role) (before : Text) :
    readNamed d role braced before t =
      .ok ⟨.named role, before ++ space, name, space' ++ brace braced ++ d.closing.text, rest⟩ := by
  have hbreak := form.breakAt_eq (by simp [d.closing.nonempty]) (stop_isPrefix d braced rest)
  have hbrace : (if braced then ['}'] else [] : Text) = brace braced := rfl
  obtain ⟨htake', hdrop'⟩ := Text.span_append form.spaces'
    (fun _ hc => isSpace_head?_ending d braced rest hc)
  obtain ⟨c, more, hname⟩ := List.exists_cons_of_ne_nil form.nonempty
  obtain ⟨htake, hdrop⟩ := Text.span_append form.spaces
    (b := name ++ (space' ++ (brace braced ++ (d.closing.text ++ rest)))) (by
      intro x hx
      rw [hname] at hx
      obtain rfl := Option.some.inj hx
      exact form.solid c (by simp [hname]))
  simp only [readNamed]
  rw [stop_eq, hbrace, ← form.append, htake, hdrop, hbreak, hname]
  simp only
  rw [htake', hdrop', Text.strip?_eq_some_iff.2 rfl]
  simp only
  rw [Text.strip?_eq_some_iff.2 rfl]

/-- A name with space on both sides is read as the name, and in no other text is a name read. -/
theorem readNamed_eq_ok_iff {d : Delimiters} {role : Role} {braced : Bool} {before t : Text}
    {r : Reading} :
    readNamed d role braced before t = .ok r ↔
      ∃ space space', NameForm (stop d braced) (brace braced ++ (d.closing.text ++ r.rest)) t
          space r.body space' ∧
        r = ⟨.named role, before ++ space, r.body, space' ++ brace braced ++ d.closing.text,
          r.rest⟩ := by
  constructor
  · intro h
    exact exists_nameForm_of_readNamed h
  · rintro ⟨space, space', form, hr⟩
    rw [form.readNamed_eq role before, ← hr]

/-! ## Whole tags -/

/-- The text `t` after an opening delimiter begins with a tag, and `r` is how it is read. -/
inductive Form (d : Delimiters) : Text → Reading → Prop
  | braced {t : Text} {r : Reading} :
    readNamed d (.interpolation false) true (d.opening.text ++ ['{']) t = .ok r →
    Form d ('{' :: t) r
  | comment {space t : Text} {r : Reading} : Text.Spaces space →
    readComment d (d.opening.text ++ space ++ ['!']) t = .ok r → Form d (space ++ '!' :: t) r
  | delimiters {space t : Text} {r : Reading} : Text.Spaces space →
    readDelimiters d (d.opening.text ++ space ++ ['=']) t = .ok r → Form d (space ++ '=' :: t) r
  | sigil {space t : Text} {sigil : Char} {role : Role} {r : Reading} : Text.Spaces space →
    Role.ofSigil? sigil = some role →
    readNamed d role false (d.opening.text ++ space ++ [sigil]) t = .ok r →
    Form d (space ++ sigil :: t) r
  | plain {space t : Text} {c : Char} {r : Reading} : Text.Spaces space →
    Text.isSpace c = false → c ≠ '!' → c ≠ '=' → Role.ofSigil? c = none →
    (space = [] → c ≠ '{') →
    readNamed d (.interpolation true) false (d.opening.text ++ space) (c :: t) = .ok r →
    Form d (space ++ c :: t) r

/-- The sigils are no space, and no brace. -/
theorem sigil_cases {c : Char} {role : Role} (h : Role.ofSigil? c = some role) :
    Text.isSpace c = false ∧ c ≠ '{' ∧ c ≠ '!' ∧ c ≠ '=' := by
  unfold Role.ofSigil? at h
  split at h
  · decide
  · decide
  · decide
  · decide
  · decide
  · cases h

/-- Where space comes first and then a character that is no space, that character says how to
go on. -/
theorem read_append_cons {d : Delimiters} {space : Text} (hspace : Text.Spaces space) {c : Char}
    (hc : Text.isSpace c = false) (hbrace : space = [] → c ≠ '{') (t : Text) :
    read d (space ++ c :: t) =
      if c = '!' then readComment d (d.opening.text ++ space ++ [c]) t
      else if c = '=' then readDelimiters d (d.opening.text ++ space ++ [c]) t
      else match Role.ofSigil? c with
        | some role => readNamed d role false (d.opening.text ++ space ++ [c]) t
        | none => readNamed d (.interpolation true) false (d.opening.text ++ space) (c :: t) := by
  have hhead : (space ++ c :: t).head? ≠ some '{' := by
    cases space with
    | nil =>
        intro h
        exact hbrace rfl (Option.some.inj h)
    | cons x space =>
        intro h
        obtain rfl := Option.some.inj h
        have := hspace '{' List.mem_cons_self
        contradiction
  obtain ⟨htake, hdrop⟩ := Text.span_append hspace (b := c :: t) (by
    intro x hx
    obtain rfl := Option.some.inj hx
    exact hc)
  have hread := read_of_head?_ne (d := d) hhead
  rw [htake, hdrop] at hread
  exact hread

/-- Where a tag is read, the text has one of the forms of a tag. -/
theorem form_of_read {d : Delimiters} {t : Text} {r : Reading} (h : read d t = .ok r) :
    Form d t r := by
  by_cases hbrace : t.head? = some '{'
  · obtain ⟨u, rfl⟩ : ∃ u, t = '{' :: u := List.head?_eq_some_iff.1 hbrace
    exact .braced h
  · rw [read_of_head?_ne hbrace] at h
    have ht := List.takeWhile_append_dropWhile (p := Text.isSpace) (l := t)
    have hspace := Text.spaces_takeWhile t
    have hhead : ∀ c, (t.dropWhile Text.isSpace).head? = some c → Text.isSpace c = false :=
      fun _ hc => Text.eq_false_of_head?_dropWhile hc
    generalize t.takeWhile Text.isSpace = space at h ht hspace
    generalize t.dropWhile Text.isSpace = u at h ht hhead
    cases u with
    | nil =>
        obtain ⟨_, _, form, -⟩ := readNamed_eq_ok_iff.1 h
        exact absurd form.append (by simp [form.nonempty])
    | cons c u =>
        have hc := hhead c rfl
        simp only at h
        subst ht
        split at h
        · rename_i heq
          subst heq
          exact .comment hspace h
        · rename_i hcomment
          split at h
          · rename_i heq
            subst heq
            exact .delimiters hspace h
          · rename_i hdelimiters
            split at h
            · rename_i role hrole
              exact .sigil hspace hrole h
            · rename_i hnone
              refine .plain hspace hc hcomment hdelimiters hnone ?_ h
              rintro rfl rfl
              exact hbrace rfl

/-- A text that has one of the forms of a tag is read as that tag. -/
theorem Form.read_eq {d : Delimiters} {t : Text} {r : Reading} (form : Form d t r) :
    read d t = .ok r := by
  cases form with
  | braced h => exact h
  | comment hspace h =>
      rw [read_append_cons hspace rfl (fun _ => by decide), if_pos rfl]
      exact h
  | delimiters hspace h =>
      rw [read_append_cons hspace rfl (fun _ => by decide), if_neg (by decide), if_pos rfl]
      exact h
  | sigil hspace hrole h =>
      obtain ⟨hc, hbrace, hcomment, hdelimiters⟩ := sigil_cases hrole
      rw [read_append_cons hspace hc (fun _ => hbrace), if_neg hcomment, if_neg hdelimiters, hrole]
      exact h
  | plain hspace hc hcomment hdelimiters hnone hbrace h =>
      rw [read_append_cons hspace hc hbrace, if_neg hcomment, if_neg hdelimiters, hnone]
      exact h

/-- A tag is read exactly if the text has one of the forms of a tag. -/
theorem read_eq_ok_iff {d : Delimiters} {t : Text} {r : Reading} :
    read d t = .ok r ↔ Form d t r :=
  ⟨form_of_read, Form.read_eq⟩

end Tag

/-! ## A tag on a line of its own -/

/-- The step over a tag with only the blanks `lead` before it on its line and the text `trail`, up to
the end of the line, after it. -/
def Cursor.stepOverLine (c : Cursor) (lead trail rest : Text) (r : Tag.Reading) : Step where
  text := []
  lead := lead
  tag := r.tag
  before := r.before
  body := r.body
  after := r.after
  trail := trail
  next := {
    offset := c.offset + Text.size lead + Text.size r.lexeme + Text.size trail
    rest := rest
    lineStart := trail.getLast? == some '\n'
    delimiters := r.tag.delimitersAfter c.delimiters }

/-- Where a line begins with blanks and a tag, and nothing else is on it, the step takes the line. -/
theorem Cursor.step_eq_stepOverLine {c : Cursor} {lead t trail rest : Text} {r : Tag.Reading}
    (hline : c.lineStart = true) (hrest : c.rest = lead ++ (c.delimiters.opening.text ++ t))
    (hblank : Text.Blank lead) (hread : Tag.read c.delimiters t = .ok r)
    (howns : r.tag.ownsLine = true) (hcloses : Text.ClosesLine trail rest)
    (htrail : trail ++ rest = r.rest) :
    c.step = .ok (some (c.stepOverLine lead trail rest r)) := by
  have hfind : Text.splitAtFirst? c.delimiters.opening.text c.rest = some (lead, t) := by
    have hfirst := (Text.splitAtFirst?_eq_some_iff c.delimiters.opening.nonempty).2
      ⟨List.nil_append (c.delimiters.opening.text ++ t), nofun⟩
    rw [hrest, Text.splitAtFirst?_append_of_blank c.delimiters.opening.solid hblank, hfirst]
    simp
  have hmargins : Margins.of r.tag c.lineStart lead r.rest = ⟨[], lead, trail, rest⟩ := by
    refine Margins.of_eq_of_ownsLine howns ?_ (Margins.trail?_eq_some_iff.2 ⟨htrail, hcloses⟩)
    rw [hline]
    exact Margins.lead?_blank hblank true
  refine step_eq_some_iff.2 ⟨lead, t, r, hfind, hread, ?_⟩
  unfold stepOver
  simp only [hmargins]
  rfl

end Mustache
