import Mustache.Proofs.Partition
import Mustache.Proofs.TagForm

/-!
# More text behind a template

Lexing looks ahead.  It searches for delimiters in all that is left of the
template, and whether a tag has its line to itself depends on what comes after
the tag.  So text that is put behind a template can change how its tags are
read: a delimiter may come to stand across the place where the two meet, and what
was the end of the template is then the middle of a line.

A tag that is complete stays what it is, though, and its line is settled by the
first character after it that is neither a blank nor half of a line break.  So a
step can only change where such a character is missing.

Where the template ends with a line, it never is, and nothing else can go wrong
there: a delimiter holds no space and therefore no line feed.  Then the longer
template has the same steps, and after the last of them lexing goes on with what
is left of the template and the text behind it.

## Main results

* `Text.splitAtFirst?_of_rest`, `Text.splitAtFirst?_append_of_none` — what is
  found in a text is found whatever comes after it, and what is not found can
  only be in the text behind;
* `Tag.exists_inFrontOf_of_read` — a tag is read whatever comes after it;
* `Cursor.exists_step_extend` — so is a step whose line is settled;
* `Cursor.step_extend`, `Cursor.tokens_extend` — so are all steps of a template
  that ends with a line.
-/

namespace Mustache

/-! ## Searching -/

namespace Text

variable {pattern t : Text}

/-- The first occurrence of a pattern is the first one whatever comes after it. -/
theorem splitAtFirst?_of_rest (hp : pattern ≠ []) {u v : Text}
    (h : splitAtFirst? pattern t = some (u, v)) (b : Text) :
    splitAtFirst? pattern (u ++ (pattern ++ b)) = some (u, b) := by
  obtain ⟨rfl, hfirst⟩ := (splitAtFirst?_eq_some_iff hp).1 h
  exact (splitAtFirst?_eq_some_iff hp).2 ⟨rfl, not_isPrefix_of_rest (Nat.le_refl _) hfirst b⟩

/-- So it is the first one in a longer text too. -/
theorem splitAtFirst?_append (hp : pattern ≠ []) {u v : Text}
    (h : splitAtFirst? pattern t = some (u, v)) (b : Text) :
    splitAtFirst? pattern (t ++ b) = some (u, v ++ b) := by
  have hrest := splitAtFirst?_of_rest hp h (v ++ b)
  rwa [← List.append_assoc pattern, ← List.append_assoc, append_of_splitAtFirst? h] at hrest

/-- A pattern without space does not go over the end of a line. -/
theorem Solid.isPrefixOf_append (hp : Solid pattern) (ht : t.getLast? = some '\n') (b : Text) :
    pattern.isPrefixOf (t ++ b) = pattern.isPrefixOf t := by
  rw [Bool.eq_iff_iff, List.isPrefixOf_iff_prefix, List.isPrefixOf_iff_prefix]
  constructor
  · intro h
    rcases List.prefix_or_prefix_of_prefix h (List.prefix_append t b) with hshort | hlong
    · exact hshort
    · exact absurd (hlong.subset (List.mem_of_getLast? ht)) hp.lineFeed_not_mem
  · intro h
    exact h.trans (List.prefix_append t b)

/-- What is left after any part of a text ends as the text does. -/
theorem getLast?_of_append {x y : Text} (hne : y ≠ []) (h : x ++ y = t) :
    y.getLast? = t.getLast? := by
  rw [← h, List.getLast?_append_of_ne_nil x hne]

/-- A search goes past a text in which nothing is found, if what comes behind the text does not
change that. -/
theorem breakAt_append {p : Text → Bool} {b : Text}
    (h : ∀ x y, x ++ y = t → y ≠ [] → p (y ++ b) = false) :
    breakAt p (t ++ b) = (breakAt p b).map fun (u, v) => (t ++ u, v) := by
  induction t with
  | nil => simp
  | cons c t ih =>
      have hc : p (c :: (t ++ b)) = false := h [] (c :: t) rfl (List.cons_ne_nil c t)
      have htail : ∀ x y, x ++ y = t → y ≠ [] → p (y ++ b) = false := by
        intro x y hxy
        exact h (c :: x) y (congrArg (c :: ·) hxy)
      rw [List.cons_append, breakAt_cons, if_neg (by simp [hc]), ih htail, Option.map_map]
      rfl

/-- A pattern that is not in a text with whole lines is searched for behind it. -/
theorem splitAtFirst?_append_of_none (hp : Solid pattern) (hline : t.endsLine = true)
    (h : splitAtFirst? pattern t = none) (b : Text) :
    splitAtFirst? pattern (t ++ b) = (splitAtFirst? pattern b).map fun (u, v) => (t ++ u, v) := by
  rw [splitAtFirst?, breakBefore, Option.map_eq_none_iff, breakAt_eq_none_iff] at h
  rw [splitAtFirst?, splitAtFirst?, breakBefore, breakAt_append, Option.map_map, Option.map_map]
  · rfl
  · intro x y hxy hne
    have hlast : y.getLast? = some '\n' := by
      have hy := getLast?_of_append hne hxy
      rw [endsLine, ← hy] at hline
      cases hfeed : y.getLast? with
      | none => exact absurd (List.getLast?_eq_none_iff.1 hfeed) hne
      | some c => simpa [hfeed] using hline
    rw [hp.isPrefixOf_append hlast]
    exact h x y hxy hne

end Text

/-! ## Reading a tag -/

namespace Tag

/-- The tag in front of another text. -/
def Reading.inFrontOf (rest : Text) (r : Reading) : Reading :=
  { r with rest := rest }

variable {d : Delimiters} {t : Text} {r : Reading}

theorem exists_inFrontOf_of_readNamed {role : Role} {braced : Bool} {before : Text}
    (h : readNamed d role braced before t = .ok r) :
    ∃ w, w ++ r.rest = t ∧
      ∀ b, readNamed d role braced before (w ++ b) = .ok (r.inFrontOf b) := by
  obtain ⟨space, space', form, hr⟩ := readNamed_eq_ok_iff.1 h
  refine ⟨space ++ (r.body ++ (space' ++ (brace braced ++ d.closing.text))), ?_, ?_⟩
  · rw [← form.append]
    simp
  · intro b
    refine readNamed_eq_ok_iff.2 ⟨space, space', ?_, by rw [hr]; rfl⟩
    show NameForm _ (brace braced ++ (d.closing.text ++ b)) _ _ r.body _
    refine ⟨by simp, form.spaces, form.spaces', form.nonempty, form.solid, ?_⟩
    -- The end of the tag is as long as what ends the name, so nothing behind it matters.
    have hlength : (stop d braced).length ≤
        (space' ++ (brace braced ++ d.closing.text)).length := by
      have hprefix := (stop_isPrefix d braced []).length_le
      rw [List.append_nil] at hprefix
      rw [List.length_append]
      omega
    have hfirst : ∀ x y, x ++ y = r.body ++ (space' ++ (brace braced ++ d.closing.text) ++ r.rest) →
        x.length < r.body.length → ¬ stop d braced <+: y := by
      simpa using form.first
    simpa using Text.not_isPrefix_of_rest hlength hfirst b

theorem exists_inFrontOf_of_readComment {before : Text} (h : readComment d before t = .ok r) :
    ∃ w, w ++ r.rest = t ∧ ∀ b, readComment d before (w ++ b) = .ok (r.inFrontOf b) := by
  unfold readComment at h
  split at h
  · cases h
  · rename_i body rest hfound
    cases h
    refine ⟨body ++ d.closing.text, ?_, ?_⟩
    · rw [List.append_assoc]
      exact Text.append_of_splitAtFirst? hfound
    · intro b
      rw [List.append_assoc, readComment, Text.splitAtFirst?_of_rest d.closing.nonempty hfound]
      rfl

theorem exists_inFrontOf_of_readDelimiters {before : Text} (h : readDelimiters d before t = .ok r) :
    ∃ w, w ++ r.rest = t ∧ ∀ b, readDelimiters d before (w ++ b) = .ok (r.inFrontOf b) := by
  simp only [readDelimiters] at h
  split at h
  · cases h
  · rename_i content rest hfound
    split at h
    · cases h
    · rename_i next hnext
      cases h
      refine ⟨content ++ '=' :: d.closing.text, ?_, ?_⟩
      · rw [List.append_assoc]
        exact Text.append_of_splitAtFirst? hfound
      · intro b
        rw [List.append_assoc]
        simp only [readDelimiters, Text.splitAtFirst?_of_rest (List.cons_ne_nil _ _) hfound, hnext]
        rfl

/-- A tag is read whatever comes after it. -/
theorem exists_inFrontOf_of_read (h : read d t = .ok r) :
    ∃ w, w ++ r.rest = t ∧ ∀ b, read d (w ++ b) = .ok (r.inFrontOf b) := by
  cases form_of_read h with
  | braced h =>
      obtain ⟨w, rfl, hread⟩ := exists_inFrontOf_of_readNamed h
      exact ⟨'{' :: w, rfl, fun b => (Form.braced (hread b)).read_eq⟩
  | @comment space _ _ hspace h =>
      obtain ⟨w, rfl, hread⟩ := exists_inFrontOf_of_readComment h
      refine ⟨space ++ '!' :: w, List.append_assoc _ _ _, ?_⟩
      intro b
      rw [List.append_assoc]
      exact (Form.comment hspace (hread b)).read_eq
  | @delimiters space _ _ hspace h =>
      obtain ⟨w, rfl, hread⟩ := exists_inFrontOf_of_readDelimiters h
      refine ⟨space ++ '=' :: w, List.append_assoc _ _ _, ?_⟩
      intro b
      rw [List.append_assoc]
      exact (Form.delimiters hspace (hread b)).read_eq
  | @sigil space _ c role _ hspace hrole h =>
      obtain ⟨w, rfl, hread⟩ := exists_inFrontOf_of_readNamed h
      refine ⟨space ++ c :: w, List.append_assoc _ _ _, ?_⟩
      intro b
      rw [List.append_assoc]
      exact (Form.sigil hspace hrole (hread b)).read_eq
  | @plain space u c _ hspace hc hcomment hdelimiters hnone hbrace h =>
      obtain ⟨w, happend, hread⟩ := exists_inFrontOf_of_readNamed h
      cases w with
      | nil => cases hread []
      | cons x w =>
          obtain ⟨rfl, rfl⟩ := List.cons.inj happend
          refine ⟨space ++ x :: w, List.append_assoc _ _ _, ?_⟩
          intro b
          rw [List.append_assoc]
          exact (Form.plain hspace hc hcomment hdelimiters hnone hbrace (hread b)).read_eq

end Tag

/-! ## The line of a tag -/

namespace Margins

/-- The margins with more text after them. -/
def extend (b : Text) (m : Margins) : Margins :=
  { m with rest := m.rest ++ b }

variable {after : Text}

/-- Whether the text ends a line is settled, whatever comes behind, by a character in it that is no
blank and cannot be half of a line break. -/
theorem trail?_append {c : Char} (hc : c ∈ after) (hblank : Text.isBlank c = false)
    (hreturn : c ≠ '\r') (b : Text) :
    trail? (after ++ b) = (trail? after).map fun (trail, rest) => (trail, rest ++ b) := by
  have hblanks := Text.blank_takeWhile after
  have happend := List.takeWhile_append_dropWhile (p := Text.isBlank) (l := after)
  have hhead : ∀ c, (after.dropWhile Text.isBlank).head? = some c → Text.isBlank c = false :=
    fun _ hc => Text.eq_false_of_head?_dropWhile hc
  simp only [trail?]
  generalize after.takeWhile Text.isBlank = blanks at hblanks happend
  generalize after.dropWhile Text.isBlank = u at happend hhead
  have hu : c ∈ u := by
    rw [← happend, List.mem_append] at hc
    refine hc.resolve_left fun hmem => ?_
    rw [hblanks c hmem] at hblank
    contradiction
  obtain ⟨htake, hdrop⟩ := Text.span_append hblanks (b := u ++ b) (by
    intro x hx
    rw [List.head?_append_of_ne_nil u (List.ne_nil_of_mem hu)] at hx
    exact hhead x hx)
  rw [← happend, List.append_assoc, htake, hdrop]
  cases u with
  | nil => cases hu
  | cons x rest =>
      by_cases hfeed : x = '\n'
      · subst hfeed
        rfl
      · by_cases hx : x = '\r'
        · subst hx
          cases rest with
          | nil => exact absurd (List.mem_singleton.1 hu) hreturn
          | cons d rest =>
              by_cases hd : d = '\n'
              · subst hd
                rfl
              · simp [hd]
        · simp [hfeed, hx]

theorem of_append {c : Char} (hc : c ∈ after) (hblank : Text.isBlank c = false)
    (hreturn : c ≠ '\r') (tag : Tag) (lineStart : Bool) (before b : Text) :
    of tag lineStart before (after ++ b) = (of tag lineStart before after).extend b := by
  refine of_eq_map ?_ rfl tag
  simp only [standalone?, trail?_append hc hblank hreturn]
  cases lead? lineStart before with
  | none => rfl
  | some found => cases trail? after <;> rfl

end Margins

/-! ## From tag to tag -/

/-- The cursor in the template with more text behind it. -/
def Cursor.extend (b : Text) (c : Cursor) : Cursor :=
  { c with rest := c.rest ++ b }

/-- The step in the template with more text behind it. -/
def Step.extend (b : Text) (s : Step) : Step :=
  { s with next := s.next.extend b }

namespace Cursor

variable {c : Cursor} {s : Step}

theorem extend_nil (c : Cursor) : c.extend [] = c := by
  rw [extend, List.append_nil]

theorem extend_injective (b : Text) : Function.Injective (extend b) := by
  rintro ⟨_, _, _, _⟩ ⟨_, _, _, _⟩ h
  simpa [extend] using h

/-- The step over a tag is the same whatever comes behind a text that settles where the line of the
tag ends. -/
theorem stepOver_extend {x : Char} {a : Text} (hx : x ∈ a) (hblank : Text.isBlank x = false)
    (hreturn : x ≠ '\r') (c : Cursor) (before : Text) (r : Tag.Reading) (b : Text) :
    c.stepOver before (r.inFrontOf (a ++ b)) = (c.stepOver before (r.inFrontOf a)).extend b := by
  have hmargins := Margins.of_append hx hblank hreturn r.tag c.lineStart before b
  simp only [stepOver, Tag.Reading.inFrontOf, hmargins]
  rfl

/-- What comes behind a step is a text after which the step is settled, and the rest.  Then the rest
may be any other text. -/
theorem exists_step_extend (h : c.step = .ok (some s)) {d : Cursor} {rest : Text}
    (hnext : d.extend rest = s.next) {x : Char} (hx : x ∈ s.trail ++ d.rest)
    (hblank : Text.isBlank x = false) (hreturn : x ≠ '\r') :
    ∃ (c' : Cursor) (s' : Step), c'.extend rest = c ∧ s'.extend rest = s ∧ s'.next = d ∧
      ∀ b, (c'.extend b).step = .ok (some (s'.extend b)) := by
  obtain ⟨before, t, r, hfind, hread, rfl⟩ := step_eq_some_iff.1 h
  obtain ⟨w, rfl, hwhatever⟩ := Tag.exists_inFrontOf_of_read hread
  have happend := Text.append_of_splitAtFirst? hfind
  have htrail := (Margins.append_of r.tag c.lineStart before r.rest).2
  have hrest : (c.stepOver before r).trail ++ d.rest ++ rest = r.rest := by
    rw [List.append_assoc]
    exact (congrArg (fun next => (c.stepOver before r).trail ++ next.rest) hnext).trans htrail
  generalize ha : (c.stepOver before r).trail ++ d.rest = a at hx hrest
  have hsettled := stepOver_extend hx hblank hreturn c before r
  have hwhole : (c.stepOver before (r.inFrontOf a)).extend rest = c.stepOver before r := by
    rw [← hsettled, hrest]
    rfl
  refine ⟨{ c with rest := before ++ (c.delimiters.opening.text ++ (w ++ a)) },
    c.stepOver before (r.inFrontOf a), ?_, hwhole, ?_, ?_⟩
  · have hc : before ++ (c.delimiters.opening.text ++ (w ++ a)) ++ rest = c.rest := by
      rw [← happend, ← hrest]
      simp
    simp only [extend, hc]
  · exact extend_injective rest ((congrArg Step.next hwhole).trans hnext.symm)
  · intro b
    rw [← hsettled]
    refine step_eq_some_iff.2 ⟨before, w ++ (a ++ b), r.inFrontOf (a ++ b), ?_, hwhatever _, rfl⟩
    have hfound := Text.splitAtFirst?_of_rest c.delimiters.opening.nonempty hfind (w ++ (a ++ b))
    simpa [extend] using hfound

/-- A tag is not the end of a line, so the line goes on behind it. -/
theorem lineFeed_mem_of_step (hline : c.rest.endsLine = true) (h : c.step = .ok (some s)) :
    '\n' ∈ s.trail ++ s.next.rest := by
  obtain ⟨x, hlast, hspace⟩ := Step.exists_getLast?_lexeme h
  have happend : s.text ++ s.lead ++ s.lexeme ++ (s.trail ++ s.next.rest) = c.rest := by
    rw [← append_of_step h, Step.pieces]
    simp
  rw [← happend] at hline
  generalize s.trail ++ s.next.rest = after at hline ⊢
  rw [Text.endsLine_append] at hline
  cases hafter : after.getLast? with
  | none =>
      rw [hafter, Option.elim_none, Text.endsLine_append, hlast] at hline
      obtain rfl : x = '\n' := by simpa using hline
      contradiction
  | some y =>
      rw [hafter] at hline
      obtain rfl : y = '\n' := by simpa using hline
      exact List.mem_of_getLast? hafter

/-- In a template that ends with a line a step is the same, whatever comes behind. -/
theorem step_extend (hline : c.rest.endsLine = true) (h : c.step = .ok (some s)) (b : Text) :
    (c.extend b).step = .ok (some (s.extend b)) := by
  obtain ⟨c', s', rfl, rfl, -, hstep⟩ := exists_step_extend h (extend_nil s.next)
    (lineFeed_mem_of_step hline h) (by decide) (by decide)
  simpa [extend, Step.extend] using hstep b

/-- After a step what is left of the template still ends with a line. -/
theorem endsLine_of_step (hline : c.rest.endsLine = true) (h : c.step = .ok (some s)) :
    s.next.rest.endsLine = true := by
  by_cases hnil : s.next.rest = []
  · rw [hnil]
    rfl
  · rw [Text.endsLine, Text.getLast?_of_append hnil (append_of_step h)]
    exact hline

/-- Lexing goes through the steps of a template that ends with a line, and then goes on with what
comes behind. -/
theorem tokens_extend {c : Cursor} (hline : c.rest.endsLine = true) (b : Text) :
    (c.extend b).tokens =
      (c.steps.flatMap (fun p => Token.ofStep p.1.offset p.2) ++ (c.last.extend b).tokens.1,
        (c.last.extend b).tokens.2) := by
  -- The steps are those of the template, so the induction is on what is left of it.
  by_cases h : ∃ s, c.step = .ok (some s)
  · obtain ⟨s, hs⟩ := h
    have hdecr : s.next.rest.length < c.rest.length := length_of_step hs
    have ih := tokens_extend (c := s.next) (endsLine_of_step hline hs) b
    rw [tokens_of_step_some (step_extend hline hs b), steps_of_step_some hs,
      last_of_step_some hs, List.flatMap_cons, List.append_assoc]
    show (_ ++ (s.next.extend b).tokens.1, (s.next.extend b).tokens.2) = _
    rw [ih]
    rfl
  · have hnone : ∀ s, c.step ≠ .ok (some s) := fun s hs => h ⟨s, hs⟩
    rw [steps_eq_nil hnone, last_eq_self hnone]
    rfl
termination_by c.rest.length

end Cursor

end Mustache
