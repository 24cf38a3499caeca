import Mustache.Proofs.Redelimited

/-!
# The grammar of tags with a name

A tag with a name is written in one of three ways: with the name in braces of its
own, with a sigil in front of the name, or with the name alone.  Space may stand
between the parts, but not between the opening delimiter and a brace, nor between
the brace after a name and the closing delimiter.

`Tag.Named` writes these three forms down, without a word about how they are found.
They overlap with each other, and with comments and set-delimiter tags, unless
something is said about where a name may begin; and a name must not be longer than
it is, so the closing delimiter may not begin inside it, not even if it would end
in what comes after the name.  This last condition looks at the text after the tag
too, so the form of a tag depends on what it stands in front of.

## Main results

* `Tag.named_of_form`, `Tag.Named.form` — what is read as a tag with a name has one
  of the three forms, and what has one of them is read;
* `Tag.reads_iff_named` — where a tag with a name is read, with which role and name
  and at which places, in a whole text.
-/

namespace Mustache

namespace Tag

/-! ## The three forms -/

/-- The sigils of tags with a name, each with what such a tag is for. -/
def sigils : List (Char × Role) :=
  [('&', .interpolation false), ('#', .opening .normal), ('^', .opening .inverted), ('/', .closing),
    ('>', .inclusion)]

/-- The characters that a name cannot begin with in a tag without a sigil. -/
def marks : List Char :=
  ['!', '=', '&', '#', '^', '/', '>']

/-- In front of the text `after` the delimiter begins nowhere inside the name. -/
def RunsUpTo (closing name after : Text) : Prop :=
  ∀ x y, x ++ y = name ++ after → x.length < name.length → ¬ closing <+: y

/-- In front of the text `rest`, a tag of this role is made up of the name, what comes before it
and what comes after it. -/
inductive Named (d : Delimiters) (rest : Text) : Role → (before name after : Text) → Prop
  /-- A name in braces, in which no closing brace occurs. -/
  | braced {space name space' : Text} : Text.Spaces space → Text.Spaces space' →
    Text.Solid name → '}' ∉ name →
    Named d rest (.interpolation false) (d.opening.text ++ '{' :: space) name
      (space' ++ '}' :: d.closing.text)
  /-- A name after a sigil. -/
  | sigil {space space' name space'' : Text} {sigil : Char} {role : Role} :
    Text.Spaces space → Text.Spaces space' → Text.Spaces space'' → (sigil, role) ∈ sigils →
    Text.Solid name → RunsUpTo d.closing.text name (space'' ++ d.closing.text ++ rest) →
    Named d rest role (d.opening.text ++ space ++ sigil :: space') name
      (space'' ++ d.closing.text)
  /-- A name alone. -/
  | plain {space name space' : Text} : Text.Spaces space → Text.Spaces space' →
    Text.Solid name → RunsUpTo d.closing.text name (space' ++ d.closing.text ++ rest) →
    (∀ c, name.head? = some c → c ∉ marks) → (space = [] → name.head? ≠ some '{') →
    Named d rest (.interpolation true) (d.opening.text ++ space) name (space' ++ d.closing.text)

theorem ofSigil?_eq_some_iff {c : Char} {role : Role} :
    Role.ofSigil? c = some role ↔ (c, role) ∈ sigils := by
  constructor
  · intro h
    unfold Role.ofSigil? at h
    split at h <;> simp_all [sigils]
  · intro h
    simp only [sigils, List.mem_cons, Prod.mk.injEq, List.not_mem_nil, or_false] at h
    rcases h with ⟨rfl, rfl⟩ | ⟨rfl, rfl⟩ | ⟨rfl, rfl⟩ | ⟨rfl, rfl⟩ | ⟨rfl, rfl⟩ <;> rfl

/-- The other characters are part of the name. -/
theorem not_mem_marks_iff {c : Char} :
    c ∉ marks ↔ c ≠ '!' ∧ c ≠ '=' ∧ Role.ofSigil? c = none := by
  constructor
  · intro h
    simp only [marks, List.mem_cons, List.not_mem_nil, or_false, not_or] at h
    obtain ⟨hcomment, hdelimiters, hamp, hhash, hcaret, hslash, hgreater⟩ := h
    refine ⟨hcomment, hdelimiters, ?_⟩
    unfold Role.ofSigil?
    split <;> first | rfl | contradiction
  · rintro ⟨hcomment, hdelimiters, hnone⟩ hmem
    simp only [marks, List.mem_cons, List.not_mem_nil, or_false] at hmem
    rcases hmem with rfl | rfl | rfl | rfl | rfl | rfl | rfl
    · exact hcomment rfl
    · exact hdelimiters rfl
    all_goals cases hnone

variable {d : Delimiters} {t : Text} {r : Reading}

/-! ## From reading to the forms -/

theorem tag_of_readComment {before : Text} (h : readComment d before t = .ok r) :
    r.tag = .comment := by
  unfold readComment at h
  split at h
  · cases h
  · cases h
    rfl

theorem exists_tag_of_readDelimiters {before : Text} (h : readDelimiters d before t = .ok r) :
    ∃ next, r.tag = .delimiters next := by
  simp only [readDelimiters] at h
  split at h
  · cases h
  · split at h
    · cases h
    · cases h
      exact ⟨_, rfl⟩

/-- A name that goes up to its delimiter. -/
theorem NameForm.runsUpTo {closing rest space name space' : Text}
    (form : NameForm closing (closing ++ rest) t space name space') :
    RunsUpTo closing name (space' ++ closing ++ rest) := by
  intro x y hxy
  exact form.first x y (by rw [hxy, List.append_assoc])

/-- What is read as a tag with a name has one of the three forms. -/
theorem named_of_form (h : Form d t r) {role : Role} (htag : r.tag = .named role) :
    Named d r.rest role r.before r.body r.after := by
  cases h with
  | braced h =>
      obtain ⟨space, space', form, hr⟩ := readNamed_eq_ok_iff.1 h
      have hrole : Tag.named (.interpolation false) = .named role := by rw [← htag, hr]
      cases hrole
      have hnamed : Named d r.rest (.interpolation false) (d.opening.text ++ '{' :: space) r.body
          (space' ++ '}' :: d.closing.text) :=
        .braced form.spaces form.spaces' ⟨form.nonempty, form.solid⟩ form.brace_not_mem
      rw [hr]
      simpa [brace] using hnamed
  | comment _ h =>
      rw [tag_of_readComment h] at htag
      cases htag
  | delimiters _ h =>
      obtain ⟨next, hnext⟩ := exists_tag_of_readDelimiters h
      rw [hnext] at htag
      cases htag
  | @sigil space _ c role' _ hspace hrole h =>
      obtain ⟨space', space'', form, hr⟩ := readNamed_eq_ok_iff.1 h
      have hsame : Tag.named role' = .named role := by rw [← htag, hr]
      cases hsame
      have hnamed : Named d r.rest role (d.opening.text ++ space ++ c :: space') r.body
          (space'' ++ d.closing.text) :=
        .sigil hspace form.spaces form.spaces' (ofSigil?_eq_some_iff.1 hrole)
          ⟨form.nonempty, form.solid⟩ form.runsUpTo
      rw [hr]
      simpa [brace] using hnamed
  | @plain space _ c _ hspace hc hcomment hdelimiters hnone hbrace h =>
      obtain ⟨space', space'', form, hr⟩ := readNamed_eq_ok_iff.1 h
      have hsame : Tag.named (.interpolation true) = .named role := by rw [← htag, hr]
      cases hsame
      -- The name begins with the character that showed that there is no sigil.
      obtain ⟨rfl, more, hname⟩ := form.begins hc
      have hnamed : Named d r.rest (.interpolation true) (d.opening.text ++ space) r.body
          (space'' ++ d.closing.text) := by
        refine .plain hspace form.spaces' ⟨form.nonempty, form.solid⟩ form.runsUpTo ?_ ?_
        · intro x hx
          rw [hname] at hx
          obtain rfl := Option.some.inj hx
          exact not_mem_marks_iff.2 ⟨hcomment, hdelimiters, hnone⟩
        · intro hnil hhead
          rw [hname] at hhead
          exact hbrace hnil (Option.some.inj hhead)
      rw [hr]
      simpa [brace] using hnamed

/-! ## From the forms to reading -/

/-- What has one of the three forms is read as a tag with this role and these parts. -/
theorem Named.form {rest : Text} {role : Role} {before name after : Text}
    (h : Named d rest role before name after)
    (ht : before ++ name ++ after ++ rest = d.opening.text ++ t) :
    Form d t ⟨.named role, before, name, after, rest⟩ := by
  cases h with
  | @braced space name space' hspace hspace' hsolid hbrace =>
      have happend : '{' :: (space ++ (name ++ (space' ++ ('}' :: (d.closing.text ++ rest))))) =
          t := by simpa using ht
      have form : NameForm (stop d true) (brace true ++ (d.closing.text ++ rest))
          (space ++ (name ++ (space' ++ ('}' :: (d.closing.text ++ rest))))) space name space' :=
        ⟨rfl, hspace, hspace', hsolid.1, hsolid.2, fun x y hxy hlt =>
          Text.not_isPrefix_of_head? (List.cons_ne_nil _ _)
            (fun c hc heq => hbrace (Option.some.inj heq ▸ hc)) hxy hlt⟩
      have hread := form.readNamed_eq (.interpolation false) (d.opening.text ++ ['{'])
      rw [← happend]
      simpa [brace] using Form.braced hread
  | @sigil space space' name space'' c role hspace hspace' hspace'' hsigil hsolid hruns =>
      have happend : space ++ c :: (space' ++ (name ++ (space'' ++ (d.closing.text ++ rest)))) =
          t := by simpa using ht
      have form : NameForm (stop d false) (brace false ++ (d.closing.text ++ rest))
          (space' ++ (name ++ (space'' ++ (d.closing.text ++ rest)))) space' name space'' :=
        ⟨rfl, hspace', hspace'', hsolid.1, hsolid.2, fun x y hxy hlt =>
          hruns x y (by rw [hxy, List.append_assoc]; rfl) hlt⟩
      have hread := form.readNamed_eq role (d.opening.text ++ space ++ [c])
      rw [← happend]
      simpa [brace] using Form.sigil hspace (ofSigil?_eq_some_iff.2 hsigil) hread
  | @plain space name space' hspace hspace' hsolid hruns hmarks hbrace =>
      obtain ⟨c, more, rfl⟩ := List.exists_cons_of_ne_nil hsolid.1
      have happend : space ++ c :: (more ++ (space' ++ (d.closing.text ++ rest))) = t := by
        simpa using ht
      have form : NameForm (stop d false) (brace false ++ (d.closing.text ++ rest))
          (c :: (more ++ (space' ++ (d.closing.text ++ rest)))) [] (c :: more) space' :=
        ⟨rfl, nofun, hspace', hsolid.1, hsolid.2, fun x y hxy hlt =>
          hruns x y (by rw [hxy, List.append_assoc]; rfl) hlt⟩
      have hread := form.readNamed_eq (.interpolation true) (d.opening.text ++ space)
      obtain ⟨hcomment, hdelimiters, hnone⟩ := not_mem_marks_iff.1 (hmarks c rfl)
      have hc : Text.isSpace c = false := hsolid.2 c List.mem_cons_self
      rw [← happend]
      simpa [brace] using Form.plain hspace hc hcomment hdelimiters hnone
        (fun hnil heq => hbrace hnil (congrArg some heq)) hread

/-! ## In a whole text -/

/-- Behind the text `passed`, whatever the cursor, the tag in front of the text `t` is read and
makes a token of this role and name and with these spans. -/
def Reads (d : Delimiters) (passed t : Text) (role : Role) (name : Text) (nameSpan span : Span) :
    Prop :=
  ∃ r, read d t = .ok r ∧ ∀ (c : Cursor) (before : Text), ∃ indent,
    Token.ofTag (Text.size passed) (c.stepOver before r) =
      [.tag role name nameSpan span indent]

/-- A tag with a name makes a token of its role, its name and their places, and no other tag makes
one. -/
theorem reads_iff {passed : Text} {role : Role} {name : Text} {nameSpan span : Span} :
    Reads d passed t role name nameSpan span ↔
      ∃ r, read d t = .ok r ∧ r.tag = .named role ∧ r.body = name ∧
        nameSpan = ⟨Text.size passed + Text.size r.before, Text.size r.body⟩ ∧
        span = ⟨Text.size passed, Text.size r.lexeme⟩ := by
  have htag (r : Reading) (c : Cursor) (before : Text) : (c.stepOver before r).tag = r.tag := rfl
  constructor
  · rintro ⟨r, hread, htoken⟩
    obtain ⟨indent, htoken⟩ := htoken (Cursor.start t) []
    rw [Token.ofTag, htag] at htoken
    refine ⟨r, hread, ?_⟩
    cases hrole : r.tag with
    | named role' =>
        rw [hrole] at htoken
        cases htoken
        exact ⟨rfl, rfl, rfl, rfl⟩
    | _ =>
        rw [hrole] at htoken
        cases htoken
  · rintro ⟨r, hread, hrole, rfl, rfl, rfl⟩
    refine ⟨r, hread, ?_⟩
    intro c before
    refine ⟨if role = .inclusion then (c.stepOver before r).lead else [], ?_⟩
    rw [Token.ofTag, htag, hrole]
    rfl

end Tag

/-- Behind any text, the tag at an opening delimiter is read as a tag of a role and with a name
exactly if the text from the delimiter on begins with one of the three forms of such a tag.  The
token says where this tag and the name in it stand. -/
theorem Tag.reads_iff_named (d : Delimiters) (passed t : Text) (role : Role) (name : Text)
    (nameSpan span : Span) :
    let source := passed ++ (d.opening.text ++ t)
    (Reads d passed t role name nameSpan span ↔
      ∃ before after rest, passed ++ (before ++ name ++ after) ++ rest = source ∧
        Named d rest role before name after ∧
        nameSpan = ⟨Text.size (passed ++ before), Text.size name⟩ ∧
        span = ⟨Text.size passed, Text.size (before ++ name ++ after)⟩) ∧
      (Reads d passed t role name nameSpan span → nameSpan.Covers source name) := by
  intro source
  have hforms : Reads d passed t role name nameSpan span ↔
      ∃ before after rest, passed ++ (before ++ name ++ after) ++ rest = source ∧
        Named d rest role before name after ∧
        nameSpan = ⟨Text.size (passed ++ before), Text.size name⟩ ∧
        span = ⟨Text.size passed, Text.size (before ++ name ++ after)⟩ := by
    rw [reads_iff]
    constructor
    · rintro ⟨r, hread, hrole, rfl, rfl, rfl⟩
      refine ⟨r.before, r.after, r.rest, ?_, named_of_form (form_of_read hread) hrole, ?_, rfl⟩
      · rw [List.append_assoc]
        exact congrArg (passed ++ ·) (append_of_read hread)
      · rw [Text.size_append]
    · rintro ⟨before, after, rest, happend, hnamed, rfl, rfl⟩
      rw [List.append_assoc] at happend
      have hform := hnamed.form (List.append_cancel_left happend)
      refine ⟨_, hform.read_eq, rfl, rfl, ?_, rfl⟩
      rw [Text.size_append]
  refine ⟨hforms, fun hreads => ?_⟩
  obtain ⟨before, after, rest, happend, -, rfl, -⟩ := hforms.1 hreads
  rw [← happend]
  exact ⟨passed ++ before, after ++ rest, by simp, rfl, rfl⟩

end Mustache
