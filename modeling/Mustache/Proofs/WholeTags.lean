import Mustache.Proofs.SettledErrors
import Mustache.Proofs.TrimmedLines

/-!
# The tags that errors label

Where an error is shown, its span is underlined.  What should be underlined is the tag
that is to blame, the whole of it.  The ends of such spans are computed in several ways:
from the token of the tag, if the tag was read and something else is wrong with it; from
the end of what was looked for, if two delimiters were looked for in vain; and from the
end of the name, if there is no name.

The last way is right where a name ends before the closing delimiter, because the end of
a name that is not there is then the closing delimiter.  In braces a name ends before the
brace.  So the label of an empty tag in braces ends with the brace, and the closing
delimiter after it is not underlined.  All other labels are whole tags.

`Cause.Concerns` says what the tag looks like that is to blame, so that the label can be
compared with it, delimiter for delimiter.  There may be several tags like that, and the
label must be the right one.  Mostly it is the first one with which anything is wrong: the
text before it has no error but what more text could mend, and the text with it has this
error for good.  A section that is not closed could still be closed.  Its tag is the right
one because what comes after it is complete.

## Main results

* `Cursor.exists_named_of_mem_tokens` — the token of a tag stands for a tag of the grammar,
  between the delimiters in force;
* `Template.exists_labels_of_compile` — what is labelled, for every error but that of a
  tag that is not closed.
-/

namespace Mustache

/-- The text goes from delimiter to delimiter. -/
def Delimiters.Enclose (d : Delimiters) (tag : Text) : Prop :=
  ∃ inner, d.opening.text ++ inner ++ d.closing.text = tag

/-- In front of the text `rest`, the tag is one that this can be wrong with: an end tag, a tag that
opens a section, or a tag without the name or the delimiters that belong into it.  Empty tags in
braces are left out. -/
inductive Cause.Concerns (d : Delimiters) (rest : Text) : Cause → Text → Prop
  | unexpectedEnd {before name after : Text} : Tag.Named d rest .closing before name after →
    Concerns d rest (.unexpectedEnd name) (before ++ name ++ after)
  | mismatchedEnd {before name after : Text} (expected : Text) :
    Tag.Named d rest .closing before name after →
    Concerns d rest (.mismatchedEnd expected name) (before ++ name ++ after)
  | unclosedSection {kind : SectionKind} {before name after : Text} :
    Tag.Named d rest (.opening kind) before name after →
    Concerns d rest (.unclosedSection name) (before ++ name ++ after)
  | nestingLimit {kind : SectionKind} {before name after : Text} :
    Tag.Named d rest (.opening kind) before name after →
    Concerns d rest (.nestingLimit name maxSectionDepth) (before ++ name ++ after)
  | rejected {cause : Cause} {tag : Text} : Tag.Rejected d false cause tag →
    Concerns d rest cause tag

/-- Between the texts `passed` and `rest`, the label is a tag that this is wrong with, from delimiter
to delimiter.  Only that of an empty tag in braces ends with the brace. -/
def Cause.Labels (cause : Cause) (passed label rest : Text) : Prop :=
  let d := (passed ++ label ++ rest).inForce (Text.size passed)
  (cause.Concerns d rest label ∧ d.Enclose label) ∨
    (cause = .emptyTag ∧ ∃ space, Text.Spaces space ∧
      label = d.opening.text ++ '{' :: space ++ ['}'])

/-- Between the texts `passed` and `rest`, the label is a tag that opens a section with this name, and
what comes after the tag is complete without it. -/
def Text.LeavesOpen (name passed label rest : Text) : Prop :=
  ∃ (before after : List Token) (kind : SectionKind) (nameSpan : Span) (indent : Text),
    (Cursor.start (passed ++ label ++ rest)).tokens =
      (before ++ .tag (.opening kind) name nameSpan ⟨Text.size passed, Text.size label⟩ indent ::
        after, none) ∧
    ∃ nodes, Builder.start.run none after = .ok nodes

/-- Between the texts `passed` and `rest`, the label of the error is the tag that is to blame. -/
structure Error.Labels (e : Error) (passed label rest : Text) : Prop where
  span : e.span = some ⟨Text.size passed, Text.size label⟩
  cause : e.cause.Labels passed label rest
  /-- An error about what stands in the text is there with the label and not before. -/
  first : e.cause.isDefinite = true →
    (∀ e', Template.compile passed = .error e' → e'.cause.isDefinite = false) ∧
    ∀ more, Template.compile (passed ++ label ++ more) =
      .error { e with source := some (passed ++ label ++ more) }
  /-- If a section is not closed, the label opens it. -/
  unclosed : ∀ name, e.cause = .unclosedSection name → Text.LeavesOpen name passed label rest

/-! ## Whole tags -/

/-- A step with the token of a tag is the step over that tag. -/
theorem Token.named_of_mem_ofStep {offset : Nat} {s : Step} {role : Role} {name indent : Text}
    {nameSpan span : Span} (h : .tag role name nameSpan span indent ∈ ofStep offset s) :
    s.tag = .named role ∧ s.body = name := by
  rw [ofStep, List.mem_append] at h
  rcases h with h | h
  · unfold ofText at h
    split at h <;> simp at h
  · unfold ofTag at h
    split at h
    · rename_i htag
      cases List.mem_singleton.1 h
      exact ⟨htag, rfl⟩
    · cases h

variable {d : Delimiters} {cause : Cause}

theorem Tag.Named.enclose {rest : Text} {role : Role} {before name after : Text}
    (h : Named d rest role before name after) : d.Enclose (before ++ name ++ after) := by
  cases h with
  | @braced space name space' _ _ _ _ => exact ⟨'{' :: space ++ name ++ space' ++ ['}'], by simp⟩
  | @sigil space space' name space'' sigil _ _ _ _ _ _ _ =>
      exact ⟨space ++ sigil :: space' ++ name ++ space'', by simp⟩
  | @plain space name space' _ _ _ _ _ _ => exact ⟨space ++ name ++ space', by simp⟩

theorem Tag.Rejected.enclose {tag : Text} (h : Rejected d false cause tag) : d.Enclose tag := by
  cases h with
  | @sigil space space' sigil _ _ _ _ => exact ⟨space ++ sigil :: space', by simp⟩
  | @plain space _ _ _ => exact ⟨space, by simp⟩
  | @delimiters space content _ _ _ => exact ⟨space ++ '=' :: content ++ ['='], by simp⟩

theorem Tag.Rejected.isDefinite {braced : Bool} {tag : Text} (h : Rejected d braced cause tag) :
    cause.isDefinite = true := by
  cases h <;> rfl

theorem Cause.Concerns.enclose {rest tag : Text} (h : cause.Concerns d rest tag) :
    d.Enclose tag := by
  cases h with
  | unexpectedEnd h => exact h.enclose
  | mismatchedEnd _ h => exact h.enclose
  | unclosedSection h => exact h.enclose
  | nestingLimit h => exact h.enclose
  | rejected h => exact h.enclose

theorem Cause.Labels.label_ne_nil {passed label rest : Text}
    (h : cause.Labels passed label rest) : label ≠ [] := by
  rintro rfl
  rcases h with ⟨-, inner, hlabel⟩ | ⟨-, space, -, hlabel⟩
  · simp [Delimiter.nonempty] at hlabel
  · simp at hlabel

namespace Cursor

variable {c : Cursor} {source : Text} {e : Error}

/-- A tag that is rejected is labelled, from the delimiter in force on. -/
theorem Leads.exists_labels_of_step (h : (start source).Leads c) (hs : c.step = .error e)
    (hclosed : ∀ closing, e.cause ≠ .unclosedTag closing) :
    e.cause.isDefinite = true ∧ ∃ passed label rest, passed ++ label ++ rest = source ∧
      e.span = some ⟨Text.size passed, Text.size label⟩ ∧ e.cause.Labels passed label rest := by
  obtain ⟨passed, hfollows⟩ := h.exists_follows (follows_start source)
  obtain ⟨before, t, fault, hfind, hread, rfl⟩ := step_eq_error_iff.1 hs
  obtain ⟨braced, tag, rest, hrejected, happend, hsize⟩ := Tag.rejected_of_read hread (hclosed _)
  have hsource : passed ++ before ++ tag ++ rest = source := by
    rw [← hfollows.append, ← Text.append_of_splitAtFirst? hfind, ← happend]
    simp
  have hoffset : c.offset + Text.size before = Text.size (passed ++ before) := by
    rw [Text.size_append, hfollows.offset]
  have hd : source.inForce (Text.size (passed ++ before)) = c.delimiters := by
    rw [← hoffset]
    exact h.inForce_of_step_error hs _
  refine ⟨hrejected.isDefinite, passed ++ before, tag, rest, hsource, ?_, ?_⟩
  · rw [← hoffset, ← hsize]
    rfl
  · show fault.cause.Labels _ _ _
    unfold Cause.Labels
    simp only [hsource, hd]
    generalize fault.cause = cause at hrejected
    cases braced with
    | false => exact .inl ⟨.rejected hrejected, hrejected.enclose⟩
    | true =>
        cases hrejected with
        | @braced space hspace => exact .inr ⟨rfl, space, hspace, rfl⟩

/-- The token of a tag stands for a tag of the grammar, between the delimiters in force. -/
theorem exists_named_of_mem_tokens {role : Role} {name indent : Text} {nameSpan span : Span}
    (h : .tag role name nameSpan span indent ∈ (start source).tokens.1) :
    ∃ passed before after rest, passed ++ (before ++ name ++ after) ++ rest = source ∧
      span = ⟨Text.size passed, Text.size (before ++ name ++ after)⟩ ∧
      Tag.Named (source.inForce span.offset) rest role before name after := by
  obtain ⟨c, hleads, ⟨s, hs, hmem⟩ | ⟨-, hmem⟩⟩ := exists_leads_of_mem_tokens h
  · obtain ⟨passed, hfollows⟩ := hleads.exists_follows (follows_start source)
    obtain ⟨rfl, -⟩ := (Step.partitions_of_step hfollows hs).tag_of_mem_ofStep hmem
    have hd := hleads.inForce_of_step hs
    obtain ⟨before, t, r, hfind, hread, rfl⟩ := step_eq_some_iff.1 hs
    obtain ⟨hrole, hname⟩ : r.tag = .named role ∧ r.body = name :=
      Token.named_of_mem_ofStep hmem
    have hsource : passed ++ before ++ (r.before ++ r.body ++ r.after) ++ r.rest = source := by
      have hlexeme : r.before ++ r.body ++ r.after ++ r.rest = _ := Tag.append_of_read hread
      rw [← hfollows.append, ← Text.append_of_splitAtFirst? hfind, ← hlexeme]
      simp
    subst hname
    refine ⟨passed ++ before, r.before, r.after, r.rest, hsource, ?_, ?_⟩
    · rw [offset_stepOver, Text.size_append, hfollows.offset]
      rfl
    · rw [hd]
      exact Tag.named_of_form (Tag.form_of_read hread) hrole
  · unfold Token.ofText at hmem
    split at hmem <;> simp at hmem

end Cursor

namespace Token.Raises

variable {token : Token} {source : Text} {e : Error}

/-- What is wrong with a tag that was read concerns the tag. -/
theorem concerns {rest before name after indent : Text} {role : Role}
    {nameSpan span : Span} (h : (tag role name nameSpan span indent).Raises e)
    (hnamed : Tag.Named d rest role before name after) :
    e.cause.Concerns d rest (before ++ name ++ after) := by
  cases h with
  | unexpectedEnd => exact .unexpectedEnd hnamed
  | mismatchedEnd expected => exact .mismatchedEnd expected hnamed
  | nestingLimit => exact .nestingLimit hnamed
  | unclosedSection => exact .unclosedSection hnamed

/-- The tag is labelled, from the delimiter in force on. -/
theorem exists_labels (h : token.Raises e) (htoken : token ∈ (Cursor.start source).tokens.1) :
    ∃ passed label rest, passed ++ label ++ rest = source ∧
      e.span = some ⟨Text.size passed, Text.size label⟩ ∧ e.cause.Labels passed label rest := by
  cases token with
  | text span => cases h
  | tag role name nameSpan span indent =>
      obtain ⟨cause, rfl⟩ := h.exists_eq_located
      obtain ⟨passed, before, after, rest, rfl, rfl, hnamed⟩ :=
        Cursor.exists_named_of_mem_tokens htoken
      have hconcerns := h.concerns hnamed
      exact ⟨passed, _, rest, rfl, rfl, .inl ⟨hconcerns, hconcerns.enclose⟩⟩

/-- Only a tag that opens a section can leave the section open. -/
theorem exists_eq_opening (h : token.Raises e) {name : Text}
    (hcause : e.cause = .unclosedSection name) : ∃ kind nameSpan span indent,
      token = .tag (.opening kind) name nameSpan span indent ∧ e.span = some span := by
  cases h with
  | unexpectedEnd => cases hcause
  | mismatchedEnd expected => cases hcause
  | nestingLimit kind => cases hcause
  | unclosedSection kind _ nameSpan span indent =>
      cases hcause
      exact ⟨kind, nameSpan, span, indent, rfl, rfl⟩

end Token.Raises

namespace Template

variable {source passed label rest : Text} {e : Error}

/-- The label of an error about what stands in the text is the first tag that is wrong. -/
theorem first_of_compile (h : compile (passed ++ label ++ rest) = .error e)
    (hspan : e.span = some ⟨Text.size passed, Text.size label⟩) (hlabel : label ≠ [])
    (hdefinite : e.cause.isDefinite = true) :
    (∀ e', compile passed = .error e' → e'.cause.isDefinite = false) ∧
      ∀ more, compile (passed ++ label ++ more) =
        .error { e with source := some (passed ++ label ++ more) } := by
  constructor
  · intro e' h'
    by_contra hdefinite'
    rw [Bool.not_eq_false] at hdefinite'
    -- The label of the other error would be in the text before, and it would be the same label.
    obtain ⟨span', upTo, rest', hspan', rfl, hsize, hcompile⟩ := exists_upTo_of_compile h' hdefinite'
    have hsame := hcompile (rest' ++ (label ++ rest))
    rw [← List.append_assoc, ← List.append_assoc, h] at hsame
    cases hsame
    obtain rfl : ⟨Text.size (upTo ++ rest'), Text.size label⟩ = span' :=
      Option.some.inj (hspan.symm.trans hspan')
    have hend : Text.size upTo = Text.size (upTo ++ rest') + Text.size label := hsize
    rw [Text.size_append] at hend
    exact hlabel (Text.size_eq_zero_iff.1 (by omega))
  · obtain ⟨span, upTo, rest', hspan', happend, hsize, hcompile⟩ :=
      exists_upTo_of_compile h hdefinite
    obtain rfl : ⟨Text.size passed, Text.size label⟩ = span :=
      Option.some.inj (hspan.symm.trans hspan')
    obtain ⟨rfl, -⟩ := Text.append_inj_of_size happend (by rw [hsize, Text.size_append])
    exact hcompile

/-- Every error but that of a tag that is not closed labels the tag that is to blame.  The label
begins with the opening delimiter in force there and ends with the closing one, and what is between
them is what the error is about.  Only an empty tag in braces is labelled up to the brace at its
end, without the closing delimiter. -/
theorem exists_labels_of_compile (h : compile source = .error e)
    (hclosed : ∀ closing, e.cause ≠ .unclosedTag closing) :
    ∃ passed label rest, passed ++ label ++ rest = source ∧ e.Labels passed label rest := by
  suffices hlabels : ∃ passed label rest, passed ++ label ++ rest = source ∧
      e.span = some ⟨Text.size passed, Text.size label⟩ ∧ e.cause.Labels passed label rest ∧
      ∀ name, e.cause = .unclosedSection name → Text.LeavesOpen name passed label rest by
    obtain ⟨passed, label, rest, rfl, hspan, hcause, hunclosed⟩ := hlabels
    exact ⟨passed, label, rest, rfl, hspan, hcause,
      first_of_compile h hspan hcause.label_ne_nil, hunclosed⟩
  obtain ⟨e', hcheck, rfl⟩ := Node.parse_eq_error_iff.1 (compile_eq_error_iff.1 h)
  rw [Node.cause_withSource] at hclosed ⊢
  rcases Opening.exists_raises_of_run hcheck with
    hfault | ⟨before, token, after, htokens, hraises, hopen⟩
  · obtain ⟨c, hleads, hs⟩ := Cursor.exists_leads_of_fault hfault
    obtain ⟨hdefinite, passed, label, rest, hsource, hspan, hcause⟩ :=
      hleads.exists_labels_of_step hs hclosed
    refine ⟨passed, label, rest, hsource, by rw [Error.span_withSource, hspan], hcause, ?_⟩
    intro name hname
    rw [hname] at hdefinite
    contradiction
  · have htoken : token ∈ (Cursor.start source).tokens.1 := by simp [htokens]
    obtain ⟨passed, label, rest, rfl, hspan, hcause⟩ := hraises.exists_labels htoken
    refine ⟨passed, label, rest, rfl, by rw [Error.span_withSource, hspan], hcause, ?_⟩
    intro name hname
    obtain ⟨hnone, hcomplete⟩ := hopen name hname
    obtain ⟨kind, nameSpan, span, indent, rfl, hspan'⟩ := hraises.exists_eq_opening hname
    obtain rfl : ⟨Text.size passed, Text.size label⟩ = span :=
      Option.some.inj (hspan.symm.trans hspan')
    exact ⟨before, after, kind, nameSpan, indent, Prod.ext htokens hnone,
      Builder.exists_run_eq_ok hcomplete⟩

end Template

/-- An end tag between other delimiters, where no section is open. -/
theorem Template.exists_labels_of_unexpectedEnd :
    compile "{{=| |=}}x|/a|y".toList =
        .error ⟨.unexpectedEnd ['a'], some ⟨10, 4⟩, some "{{=| |=}}x|/a|y".toList⟩ ∧
      ∃ passed label rest, passed ++ label ++ rest = "{{=| |=}}x|/a|y".toList ∧
        Error.Labels ⟨.unexpectedEnd ['a'], some ⟨10, 4⟩, some "{{=| |=}}x|/a|y".toList⟩
          passed label rest := by
  have h : compile "{{=| |=}}x|/a|y".toList =
      .error ⟨.unexpectedEnd ['a'], some ⟨10, 4⟩, some "{{=| |=}}x|/a|y".toList⟩ :=
    compile_eq_error_iff.2 (by cbv)
  have hclosed : ∀ closing, Cause.unexpectedEnd ['a'] ≠ .unclosedTag closing := by
    rintro closing ⟨⟩
  exact ⟨h, exists_labels_of_compile h hclosed⟩

/-- An empty tag in braces that is complete.  The label ends before the closing delimiter. -/
theorem Template.label_of_empty_braces :
    let d := Delimiters.braces
    let source : Text := d.opening.text ++ '{' :: '}' :: d.closing.text
    compile source = .error ⟨.emptyTag, some ⟨0, 4⟩, some source⟩ ∧
      d.Enclose source ∧ (⟨0, 4⟩ : Span) ≠ ⟨0, Text.size source⟩ := by
  refine ⟨compile_eq_error_iff.2 (by cbv), ⟨['{', '}'], rfl⟩, by decide⟩

end Mustache
