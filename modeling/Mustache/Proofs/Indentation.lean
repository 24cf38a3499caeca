import Mustache.Proofs.StandaloneLine
import Mustache.Text.Lines

/-!
# Searching an indented text

A partial is indented before it is read, so the indentation also comes to stand
inside tags, comments and names of delimiters that go over several lines.  That
does not matter to a reader of tags as long as it only searches for delimiters
and skips space: the indentation is space, and what comes right before it is a
line feed, which is space too.

`Text.indent` puts the indentation in front of every line, which is unwieldy in
the middle of a text.  There it is `Text.hang` that counts: the lines after the
first are indented, and a line feed at the very end starts no line.  `Text.hung`
is the same for a text that goes on: every line feed is followed by the
indentation.

## Main results

* `Text.indent_eq` — an indented text is the indentation and the hanging text;
* `Text.hang_append_of_not_mem` — a hanging text can be cut inside its first line;
* `Text.lines_indent` — the lines of an indented text are its lines, indented;
* `Text.splitAtFirst?_hang`, `Text.dropWhile_isSpace_hang`, `Text.strip?_hang` —
  searching a hanging text finds what is found without the indentation;
* `Text.words_hung` — the words are the same.
-/

namespace Mustache.Text

/-! ## Hanging texts -/

/-- A text with all lines but the first indented. -/
def hang (lead : Text) : Text → Text
  | [] => []
  | c :: r => if c = '\n' ∧ r ≠ [] then c :: (lead ++ hang lead r) else c :: hang lead r

/-- The beginning of a text with all lines but the first indented, the line after it included. -/
def hung (lead t : Text) : Text :=
  t.flatMap fun c => if c = '\n' then c :: lead else [c]

variable {lead : Text}

@[simp] theorem hang_nil (lead : Text) : hang lead [] = [] := rfl

theorem hang_cons {c : Char} (h : c ≠ '\n') (lead r : Text) :
    hang lead (c :: r) = c :: hang lead r := by
  rw [hang, if_neg (fun hc => h hc.1)]

/-- An indented text is the indentation and the text hanging from it. -/
theorem indent_eq (lead t : Text) :
    indent lead t = if t = [] then [] else lead ++ hang lead t := by
  induction t with
  | nil => rfl
  | cons c r ih =>
      rw [if_neg (List.cons_ne_nil c r), indent, lines]
      by_cases hc : c = '\n'
      · subst hc
        rw [if_pos rfl, List.flatMap_cons, ← indent, ih, hang]
        by_cases hr : r = []
        · simp [hr]
        · simp [hr]
      · rw [if_neg hc, hang_cons hc]
        cases hl : lines r with
        | nil =>
            have hr : r = [] := by
              have := flatten_lines r
              rw [hl] at this
              exact this.symm
            simp [hr]
        | cons line more =>
            have hr : r ≠ [] := by
              rintro rfl
              contradiction
            rw [if_neg hr, indent, hl, List.flatMap_cons, List.append_assoc] at ih
            simp [List.append_cancel_left ih]

/-- Indenting a text adds nothing but the indentation. -/
theorem mem_indent {t : Text} {c : Char} (h : c ∈ indent lead t) : c ∈ lead ∨ c ∈ t := by
  obtain ⟨line, hline, hc⟩ := List.mem_flatMap.1 h
  refine (List.mem_append.1 hc).imp id ?_
  intro hc
  rw [← flatten_lines t]
  exact List.mem_flatten.2 ⟨line, hline, hc⟩

theorem hang_lineFeed (lead r : Text) : hang lead ('\n' :: r) = '\n' :: indent lead r := by
  rw [hang, indent_eq]
  by_cases hr : r = [] <;> simp [hr]

theorem hang_ne_nil {t : Text} (h : t ≠ []) : hang lead t ≠ [] := by
  cases t with
  | nil => exact absurd rfl h
  | cons c r =>
      rw [hang]
      split <;> exact List.cons_ne_nil _ _

/-- Hanging does not touch the first character. -/
theorem head?_hang (lead t : Text) : (hang lead t).head? = t.head? := by
  cases t with
  | nil => rfl
  | cons c r =>
      rw [hang]
      split <;> rfl

@[simp] theorem hung_nil (lead : Text) : hung lead [] = [] := rfl

@[simp] theorem hung_append (lead a b : Text) :
    hung lead (a ++ b) = hung lead a ++ hung lead b := by
  simp [hung]

theorem hung_cons {c : Char} (h : c ≠ '\n') (lead r : Text) :
    hung lead (c :: r) = c :: hung lead r := by
  simp [hung, h]

theorem hung_lineFeed (lead r : Text) :
    hung lead ('\n' :: r) = '\n' :: (lead ++ hung lead r) := by
  simp [hung]

/-- A text of one line stays as it is. -/
theorem hung_eq_self {t : Text} (h : '\n' ∉ t) : hung lead t = t := by
  induction t with
  | nil => rfl
  | cons c r ih =>
      rw [List.mem_cons, not_or] at h
      rw [hung_cons (Ne.symm h.1), ih h.2]

/-- After a text of one line a hanging text can be cut. -/
theorem hang_append_of_not_mem {a : Text} (h : '\n' ∉ a) (b : Text) :
    hang lead (a ++ b) = a ++ hang lead b := by
  induction a with
  | nil => rfl
  | cons c a ih =>
      rw [List.mem_cons, not_or] at h
      rw [List.cons_append, hang_cons (Ne.symm h.1), ih h.2]
      rfl

/-! ## Lines -/

theorem lines_eq_nil_iff {t : Text} : lines t = [] ↔ t = [] := by
  constructor
  · intro h
    rw [← flatten_lines t, h, List.flatten_nil]
  · rintro rfl
    rfl

/-- A text without a line feed comes to stand in front of the first line of what follows it. -/
theorem lines_append_of_not_mem {a t : Text} (ha : '\n' ∉ a) (ht : t ≠ []) :
    lines (a ++ t) = (lines t).modifyHead (a ++ ·) := by
  induction a with
  | nil => exact (congrFun List.modifyHead_id (lines t)).symm
  | cons c a ih =>
      rw [List.mem_cons, not_or] at ha
      obtain ⟨line, more, hlines⟩ :=
        List.exists_cons_of_ne_nil (mt lines_eq_nil_iff.1 ht)
      rw [List.cons_append, lines, if_neg (Ne.symm ha.1), ih ha.2, hlines]
      rfl

/-- All lines of a hanging text but the first are indented. -/
theorem lines_hang (hlead : '\n' ∉ lead) (t : Text) :
    lines (hang lead t) =
      match lines t with
      | [] => []
      | line :: more => line :: more.map (lead ++ ·) := by
  induction t with
  | nil => rfl
  | cons c r ih =>
      by_cases hr : r = []
      · subst hr
        rw [hang, if_neg (by simp), hang_nil]
        by_cases hc : c = '\n' <;> simp [lines, hc]
      · have hhang : hang lead r ≠ [] := hang_ne_nil hr
        obtain ⟨line, more, hlines⟩ := List.exists_cons_of_ne_nil (mt lines_eq_nil_iff.1 hr)
        rw [hlines] at ih
        by_cases hc : c = '\n'
        · subst hc
          rw [hang_lineFeed, indent_eq, if_neg hr, lines, if_pos rfl,
            lines_append_of_not_mem hlead hhang, ih, lines, if_pos rfl, hlines]
          rfl
        · rw [hang_cons hc, lines, if_neg hc, ih, lines, if_neg hc, hlines]

/-- The lines of an indented text are the lines of the text, each with the indentation in front. -/
theorem lines_indent (hlead : '\n' ∉ lead) (t : Text) :
    lines (indent lead t) = (lines t).map (lead ++ ·) := by
  rw [indent_eq]
  by_cases ht : t = []
  · subst ht
    rfl
  · obtain ⟨line, more, hlines⟩ := List.exists_cons_of_ne_nil (mt lines_eq_nil_iff.1 ht)
    rw [if_neg ht, lines_append_of_not_mem hlead (hang_ne_nil ht), lines_hang hlead, hlines]
    rfl

/-! ## Searching for a pattern -/

theorem isPrefixOf_hang {pattern : Text} (h : '\n' ∉ pattern) (t : Text) :
    pattern.isPrefixOf (hang lead t) = pattern.isPrefixOf t := by
  induction pattern generalizing t with
  | nil => simp
  | cons x pattern ih =>
      rw [List.mem_cons, not_or] at h
      cases t with
      | nil => rfl
      | cons c r =>
          by_cases hc : c = '\n'
          · subst hc
            have hx : (x == '\n') = false := beq_eq_false_iff_ne.2 (Ne.symm h.1)
            rw [hang_lineFeed, List.isPrefixOf, List.isPrefixOf, hx, Bool.false_and,
              Bool.false_and]
          · rw [hang_cons hc, List.isPrefixOf, List.isPrefixOf, ih h.2]

theorem strip?_hang {pattern : Text} (h : '\n' ∉ pattern) (t : Text) :
    strip? pattern (hang lead t) = (strip? pattern t).map (hang lead) := by
  rw [strip?, strip?, isPrefixOf_hang h]
  by_cases hp : pattern.isPrefixOf t = true
  · obtain ⟨r, rfl⟩ := List.isPrefixOf_iff_prefix.1 hp
    rw [if_pos hp, if_pos hp, hang_append_of_not_mem h, List.drop_left, List.drop_left]
    rfl
  · rw [if_neg hp, if_neg hp]
    rfl

/-- A search goes past characters that no match begins with. -/
theorem breakAt_append_of_forall_mem {p : Text → Bool} {a : Text}
    (h : ∀ c ∈ a, ∀ r, p (c :: r) = false) (b : Text) :
    breakAt p (a ++ b) = (breakAt p b).map fun (u, v) => (a ++ u, v) := by
  induction a with
  | nil => simp
  | cons c a ih =>
      have hc : p (c :: (a ++ b)) = false := h c List.mem_cons_self _
      rw [List.cons_append, breakAt_cons, if_neg (by simp [hc]),
        ih fun d hd => h d (List.mem_cons_of_mem c hd), Option.map_map]
      rfl

/-- No space stands in the pattern. -/
def Solid (pattern : Text) : Prop :=
  pattern ≠ [] ∧ ∀ c ∈ pattern, isSpace c = false

theorem Solid.lineFeed_not_mem {pattern : Text} (h : Solid pattern) : '\n' ∉ pattern := by
  intro hmem
  have := h.2 '\n' hmem
  contradiction

/-- A pattern without space does not begin with a space. -/
theorem Solid.isPrefixOf_cons {pattern : Text} (h : Solid pattern) {c : Char}
    (hc : isSpace c = true) (r : Text) : pattern.isPrefixOf (c :: r) = false := by
  obtain ⟨hne, hspace⟩ := h
  cases pattern with
  | nil => exact absurd rfl hne
  | cons x pattern =>
      have hx : (x == c) = false := by
        rw [beq_eq_false_iff_ne]
        rintro rfl
        rw [hspace x List.mem_cons_self] at hc
        contradiction
      rw [List.isPrefixOf, hx, Bool.false_and]

variable {pattern : Text}

theorem breakBefore_append_of_blank (hp : Solid pattern) {a : Text} (ha : Blank a) (b : Text) :
    breakBefore pattern (a ++ b) = (breakBefore pattern b).map fun (u, v) => (a ++ u, v) :=
  breakAt_append_of_forall_mem
    (fun c hc => hp.isPrefixOf_cons (isSpace_of_isBlank (ha c hc))) b

theorem breakBefore_hang (hp : Solid pattern) (hlead : Blank lead) (t : Text) :
    breakBefore pattern (hang lead t) =
      (breakBefore pattern t).map fun (a, b) => (hung lead a, hang lead b) := by
  induction t with
  | nil => rfl
  | cons c r ih =>
      rw [breakBefore, breakAt_cons]
      by_cases hfound : pattern.isPrefixOf (c :: r) = true
      · have hfound' : pattern.isPrefixOf (hang lead (c :: r)) = true := by
          rw [isPrefixOf_hang hp.lineFeed_not_mem, hfound]
        rw [if_pos hfound]
        cases hh : hang lead (c :: r) with
        | nil => exact absurd hh (hang_ne_nil (List.cons_ne_nil c r))
        | cons d s =>
            rw [hh] at hfound'
            rw [breakAt_cons, if_pos hfound', Option.map_some]
            simp only [hung_nil, hh]
      · rw [if_neg hfound, Option.map_map]
        by_cases hc : c = '\n'
        · subst hc
          have hfeed := hp.isPrefixOf_cons (c := '\n') rfl (indent lead r)
          rw [hang_lineFeed, breakAt_cons, if_neg (by simp [hfeed]), indent_eq]
          by_cases hr : r = []
          · subst hr
            rfl
          · rw [if_neg hr]
            show (breakBefore pattern (lead ++ hang lead r)).map _ = (breakBefore pattern r).map _
            rw [breakBefore_append_of_blank hp hlead, ih, Option.map_map, Option.map_map]
            rfl
        · have hnot : ¬ pattern.isPrefixOf (c :: hang lead r) = true := by
            rw [← hang_cons hc, isPrefixOf_hang hp.lineFeed_not_mem]
            exact hfound
          rw [hang_cons hc, breakAt_cons, if_neg hnot]
          show (breakBefore pattern (hang lead r)).map _ = (breakBefore pattern r).map _
          rw [ih, Option.map_map]
          congr 1
          funext found
          simp [hung_cons hc]

/-- A pattern without space is found at the same place in a hanging text. -/
theorem splitAtFirst?_hang (hp : Solid pattern) (hlead : Blank lead) (t : Text) :
    splitAtFirst? pattern (hang lead t) =
      (splitAtFirst? pattern t).map fun (a, b) => (hung lead a, hang lead b) := by
  rw [splitAtFirst?, splitAtFirst?, breakBefore_hang hp hlead]
  cases h : breakBefore pattern t with
  | none => rfl
  | some ab =>
      obtain ⟨a, b⟩ := ab
      obtain ⟨r, rfl⟩ := List.isPrefixOf_iff_prefix.1 (of_breakAt h)
      simp only [Option.map_some, hang_append_of_not_mem hp.lineFeed_not_mem, List.drop_left]

/-- Blanks in front of a text do not hide a pattern without space. -/
theorem splitAtFirst?_append_of_blank (hp : Solid pattern) {a : Text} (ha : Blank a) (t : Text) :
    splitAtFirst? pattern (a ++ t) = (splitAtFirst? pattern t).map fun (u, v) => (a ++ u, v) := by
  rw [splitAtFirst?, splitAtFirst?, breakBefore_append_of_blank hp ha, Option.map_map,
    Option.map_map]
  rfl

/-- Blanks in front of the lines of a text do not make a delimiter. -/
theorem splitAtFirst?_indent_eq_none {pattern : Text} (hp : Solid pattern) (hlead : Blank lead)
    {t : Text} (h : splitAtFirst? pattern t = none) :
    splitAtFirst? pattern (indent lead t) = none := by
  rw [indent_eq]
  by_cases ht : t = []
  · rw [if_pos ht, ← ht, h]
  · rw [if_neg ht, splitAtFirst?_append_of_blank hp hlead, splitAtFirst?_hang hp hlead, h]
    rfl

/-- A search that stops at line feeds, if not before, never comes to an indentation. -/
theorem breakAt_hang {p : Text → Bool} (hp : ∀ t, p (hang lead t) = p t)
    (hfeed : ∀ r, p ('\n' :: r) = true) (t : Text) :
    breakAt p (hang lead t) = (breakAt p t).map fun (a, b) => (a, hang lead b) := by
  induction t with
  | nil => rfl
  | cons c r ih =>
      by_cases hc : c = '\n'
      · subst hc
        rw [breakAt_cons, if_pos (hfeed r), Option.map_some]
        simp only [hang_lineFeed]
        rw [breakAt_cons, if_pos (hfeed _)]
      · rw [hang_cons hc, breakAt_cons, breakAt_cons, ← hang_cons hc, hp]
        by_cases hfound : p (c :: r) = true
        · rw [if_pos hfound, if_pos hfound]
          rfl
        · rw [if_neg hfound, if_neg hfound, ih, Option.map_map, Option.map_map]
          rfl

/-! ## Space and words -/

theorem beginsWithSpace_hang (lead t : Text) :
    beginsWithSpace (hang lead t) = beginsWithSpace t := by
  cases t with
  | nil => rfl
  | cons c r =>
      rw [hang]
      split <;> rfl

theorem dropWhile_isSpace_append_of_blank {a : Text} (ha : Blank a) (t : Text) :
    (a ++ t).dropWhile isSpace = t.dropWhile isSpace :=
  List.dropWhile_append_of_pos fun c hc => isSpace_of_isBlank (ha c hc)

theorem dropWhile_isSpace_hang (hlead : Blank lead) (t : Text) :
    (hang lead t).dropWhile isSpace = hang lead (t.dropWhile isSpace) := by
  induction t with
  | nil => rfl
  | cons c r ih =>
      by_cases hc : c = '\n'
      · subst hc
        have hspace : isSpace '\n' = true := rfl
        rw [hang_lineFeed, List.dropWhile_cons_of_pos hspace, List.dropWhile_cons_of_pos hspace,
          indent_eq]
        by_cases hr : r = []
        · subst hr
          rfl
        · rw [if_neg hr, dropWhile_isSpace_append_of_blank hlead, ih]
      · rw [hang_cons hc]
        by_cases hspace : isSpace c = true
        · rw [List.dropWhile_cons_of_pos hspace, List.dropWhile_cons_of_pos hspace, ih]
        · rw [List.dropWhile_cons_of_neg hspace, List.dropWhile_cons_of_neg hspace, hang_cons hc]

theorem words_append_cons {c : Char} (hc : isSpace c = true) (a b : Text) :
    words (a ++ c :: b) = words a ++ words b := by
  rw [words, words, words, List.splitOnP_append_cons _ _ hc, List.filter_append]

theorem words_append_of_blank {a : Text} (ha : Blank a) (b : Text) : words (a ++ b) = words b := by
  induction a with
  | nil => rfl
  | cons c a ih =>
      have hc : isSpace c = true := isSpace_of_isBlank (ha c List.mem_cons_self)
      have hsplit := words_append_cons hc [] (a ++ b)
      rw [List.nil_append] at hsplit
      rw [List.cons_append, hsplit, ih fun d hd => ha d (List.mem_cons_of_mem c hd)]
      rfl

/-- The indentation stands between words, and not in them. -/
theorem words_append_hung (hlead : Blank lead) (a t : Text) :
    words (a ++ hung lead t) = words (a ++ t) := by
  induction t generalizing a with
  | nil => rfl
  | cons c r ih =>
      by_cases hc : c = '\n'
      · subst hc
        have hspace : isSpace '\n' = true := rfl
        rw [hung_lineFeed, words_append_cons hspace, words_append_cons hspace,
          words_append_of_blank hlead]
        exact congrArg (words a ++ ·) (ih [])
      · rw [hung_cons hc, List.append_cons, List.append_cons a c r, ih]

theorem words_hung (hlead : Blank lead) (t : Text) : words (hung lead t) = words t :=
  words_append_hung hlead [] t

end Mustache.Text
