import Mustache.Proofs.Extension
import Mustache.Proofs.OpenSections
import Mustache.Proofs.Places
import Mustache.Proofs.RejectedTags

/-!
# Errors that are settled

Someone who is typing a template sees errors before the template is complete.  Some of
them only say that something is still missing: a tag is not closed yet, or a section.
The others will not go away, whatever is typed after them.

That is not clear at once, because lexing looks ahead: it searches for delimiters in all
that is left, and the line of a tag is settled only by the text after it.  But the tags
before the error are complete, and where another tag comes after a tag, its opening
delimiter settles the line.  So it is enough to know the text up to the end of the tag
that is to blame.  From there on, any other text may stand, and the error is the same.

The induction goes from tag to tag up to that place, and carries the text up to it
along.  Of what is left behind it nothing is kept but that it is the rest.

## Main results

* `Cursor.exists_settles_of_check` — an error about what is there needs nothing that comes
  after the tag;
* `Template.compile_append_of_error` — more text can only change an error about something
  that is missing.
-/

namespace Mustache

/-- Whether the cause is about what stands in a template, and not about something that is missing
where the template or a tag ends. -/
def Cause.isDefinite : Cause → Bool
  | emptyTag | invalidDelimiters _ | unexpectedEnd _ | mismatchedEnd _ _ | nestingLimit _ _ => true
  | unclosedTag _ | unclosedSection _ | partialLimit _ _ | unreadableData _ | refusedOutput
  | brokenStream _ => false

/-- What is wrong in a text and is not definite is that something is missing. -/
theorem Cause.eq_unclosed_of_isSyntactic {cause : Cause} (h : cause.isSyntactic = true)
    (hmissing : cause.isDefinite ≠ true) :
    (∃ closing, cause = unclosedTag closing) ∨ ∃ name, cause = unclosedSection name := by
  cases cause with
  | unclosedTag closing => exact .inl ⟨closing, rfl⟩
  | unclosedSection name => exact .inr ⟨name, rfl⟩
  | emptyTag => exact absurd rfl hmissing
  | invalidDelimiters content => exact absurd rfl hmissing
  | unexpectedEnd got => exact absurd rfl hmissing
  | mismatchedEnd expected got => exact absurd rfl hmissing
  | nestingLimit name limit => exact absurd rfl hmissing
  | partialLimit name limit => cases h
  | unreadableData reason => cases h
  | refusedOutput => cases h
  | brokenStream reason => cases h

/-- What is left at the cursor goes up to the end of the error, and settles it for these open
sections. -/
structure Cursor.Settles (c : Cursor) (opened : List Opening) (e : Error) : Prop where
  check : ∀ b, (c.extend b).check opened = .error e
  exists_span : ∃ cause span, e = .located cause span ∧
    span.offset + span.length = c.offset + Text.size c.rest
  /-- This settles the line of a tag before the cursor, too. -/
  exists_solid : ∃ x ∈ c.rest, Text.isSpace x = false

namespace Cursor

variable {c : Cursor} {s : Step} {opened opened' : List Opening} {e : Error}

theorem exists_eq_start_of_extend {source rest : Text} (h : c.extend rest = start source) :
    ∃ upTo, c = start upTo := by
  obtain ⟨offset, upTo, lineStart, delimiters⟩ := c
  cases h
  exact ⟨upTo, rfl⟩

/-- A text with an opening delimiter in it is not all space. -/
theorem exists_solid_of_opening (d : Delimiters) (before w : Text) :
    ∃ x ∈ before ++ (d.opening.text ++ w), Text.isSpace x = false := by
  obtain ⟨x, hx⟩ := List.exists_mem_of_ne_nil _ d.opening.nonempty
  exact ⟨x, List.mem_append_right _ (List.mem_append_left _ hx), d.opening.solid.2 x hx⟩

/-- Where a tag is rejected, the tag settles that it is. -/
theorem exists_settles_of_step_error (h : c.step = .error e) (hdefinite : e.cause.isDefinite = true)
    (opened : List Opening) : ∃ c' rest, extend rest c' = c ∧ c'.Settles opened e := by
  obtain ⟨before, t, fault, hfind, hread, rfl⟩ := step_eq_error_iff.1 h
  have hclosed : fault.cause ≠ .unclosedTag c.delimiters.closing.text := by
    intro hcause
    rw [Error.located, hcause] at hdefinite
    contradiction
  obtain ⟨_, tag, rest, hrejected, happend, hsize⟩ := Tag.rejected_of_read hread hclosed
  obtain ⟨w, rfl⟩ := hrejected.opening_isPrefix
  refine ⟨{ c with rest := before ++ (c.delimiters.opening.text ++ w) }, rest, ?_, ?_, ?_, ?_⟩
  · have hc : before ++ (c.delimiters.opening.text ++ w) ++ rest = c.rest := by
      rw [List.append_assoc, happend, Text.append_of_splitAtFirst? hfind]
    simp only [extend, hc]
  · intro b
    refine check_of_step_error (step_eq_error_iff.2 ⟨before, w ++ b, fault, ?_, ?_, rfl⟩) opened
    · have hfound := Text.splitAtFirst?_of_rest c.delimiters.opening.nonempty hfind (w ++ b)
      simpa [extend] using hfound
    · have hrejects := hrejected.read_eq (List.append_assoc _ w b)
      rwa [← hsize] at hrejects
  · refine ⟨_, _, rfl, ?_⟩
    rw [hsize, Text.size_append before, Nat.add_assoc]
  · exact exists_solid_of_opening c.delimiters before w

/-- Where a tag cannot go with the open sections, the tag settles that. -/
theorem exists_settles_of_foldlM (h : c.step = .ok (some s))
    (hfold : (Token.ofStep c.offset s).foldlM Opening.step opened = .error e) :
    ∃ c' rest, extend rest c' = c ∧ c'.Settles opened e := by
  obtain ⟨before, t, r, hfind, hread, rfl⟩ := step_eq_some_iff.1 h
  have hlexeme := Tag.append_of_read hread
  obtain ⟨w, rfl, hwhatever⟩ := Tag.exists_inFrontOf_of_read hread
  rw [← List.append_assoc] at hlexeme
  have hw := List.append_cancel_right hlexeme
  refine ⟨{ c with rest := before ++ (c.delimiters.opening.text ++ w) }, r.rest, ?_, ?_, ?_, ?_⟩
  · have hc : before ++ (c.delimiters.opening.text ++ w) ++ r.rest = c.rest := by
      rw [← Text.append_of_splitAtFirst? hfind]
      simp
    simp only [extend, hc]
  · intro b
    have hfound := Text.splitAtFirst?_of_rest c.delimiters.opening.nonempty hfind (w ++ b)
    have hstep : (extend b { c with rest := before ++ (c.delimiters.opening.text ++ w) }).step =
        .ok (some (c.stepOver before (r.inFrontOf b))) :=
      step_eq_some_iff.2
        ⟨before, w ++ b, r.inFrontOf b, by simpa [extend] using hfound, hwhatever b, rfl⟩
    rw [check_of_step_some hstep]
    -- The tag is the same, and where its line ends does not matter.
    have hsame := (foldlM_stepOver c before (r.inFrontOf b) opened).trans
      (foldlM_stepOver c before r opened).symm
    exact congrArg (Except.bind · (c.stepOver before (r.inFrontOf b)).next.check)
      (hsame.trans hfold)
  · rw [foldlM_stepOver] at hfold
    cases htag : r.tag with
    | comment =>
        rw [htag] at hfold
        cases hfold
    | delimiters next =>
        rw [htag] at hfold
        cases hfold
    | named role =>
        rw [htag] at hfold
        obtain ⟨cause, rfl⟩ := (Opening.raises_of_step hfold).1.exists_eq_located
        refine ⟨cause, _, rfl, ?_⟩
        rw [hw, Text.size_append before, Nat.add_assoc]
  · exact exists_solid_of_opening c.delimiters before w

/-- What is settled after a step is settled before it. -/
theorem Settles.of_step (h : c.step = .ok (some s))
    (hfold : (Token.ofStep c.offset s).foldlM Opening.step opened = .ok opened')
    {d : Cursor} {rest : Text} (hnext : d.extend rest = s.next) (hd : d.Settles opened' e) :
    ∃ c' : Cursor, c'.extend rest = c ∧ c'.Settles opened e := by
  obtain ⟨x, hmem, hx⟩ := hd.exists_solid
  have hreturn : x ≠ '\r' := by
    rintro rfl
    contradiction
  obtain ⟨c', s', rfl, rfl, rfl, hstep⟩ := exists_step_extend h hnext
    (List.mem_append_right _ hmem) (Text.isBlank_eq_false hx) hreturn
  have hrest : s'.pieces ++ s'.next.rest = c'.rest := by
    simpa [extend, Step.extend] using append_of_step (hstep [])
  have hoffset : s'.next.offset = c'.offset + Text.size s'.pieces :=
    offset_of_step (c := c'.extend []) (s := s'.extend []) (hstep [])
  refine ⟨c', rfl, ?_, ?_, x, ?_, hx⟩
  · intro b
    rw [check_of_step_some (hstep b)]
    refine (congrArg (·.bind (s'.next.extend b).check) hfold).trans ?_
    exact hd.check b
  · obtain ⟨cause, span, he, hend⟩ := hd.exists_span
    refine ⟨cause, span, he, ?_⟩
    rw [hend, ← hrest, Text.size_append, hoffset, Nat.add_assoc]
  · rw [← hrest]
    exact List.mem_append_right _ hmem

/-- An error about something that stands in the text is settled by the text up to it. -/
theorem exists_settles_of_check {c : Cursor} {opened : List Opening}
    (h : c.check opened = .error e) (hdefinite : e.cause.isDefinite = true) :
    ∃ c' rest, extend rest c' = c ∧ c'.Settles opened e := by
  cases hs : c.step with
  | error e' =>
      rw [check_of_step_error hs] at h
      cases h
      exact exists_settles_of_step_error hs hdefinite opened
  | ok next =>
      cases next with
      | none =>
          rw [check_of_step_none hs] at h
          cases opened with
          | nil => cases h
          | cons innermost opened =>
              cases h
              cases hdefinite
      | some s =>
          rw [check_of_step_some hs] at h
          cases hfold : (Token.ofStep c.offset s).foldlM Opening.step opened with
          | error e' =>
              rw [hfold] at h
              cases h
              exact exists_settles_of_foldlM hs hfold
          | ok opened' =>
              rw [hfold] at h
              have hdecr : s.next.rest.length < c.rest.length := length_of_step hs
              obtain ⟨d, rest, hnext, hd⟩ := exists_settles_of_check h hdefinite
              obtain ⟨c', hc, hsettles⟩ := hd.of_step hs hfold hnext
              exact ⟨c', rest, hc, hsettles⟩
termination_by c.rest.length

end Cursor

/-- An error that is about what stands in a text is settled by the text up to the end of its span. -/
theorem Template.exists_upTo_of_compile {source : Text} {e : Error} (h : compile source = .error e)
    (hdefinite : e.cause.isDefinite = true) :
    ∃ (span : Span) (upTo rest : Text), e.span = some span ∧ upTo ++ rest = source ∧
      Text.size upTo = span.offset + span.length ∧
      ∀ more, compile (upTo ++ more) = .error { e with source := some (upTo ++ more) } := by
  obtain ⟨e', hcheck, rfl⟩ := Node.parse_eq_error_iff.1 (compile_eq_error_iff.1 h)
  rw [Node.cause_withSource] at hdefinite
  obtain ⟨c, rest, hc, hsettles⟩ := Cursor.exists_settles_of_check hcheck hdefinite
  obtain ⟨cause, span, rfl, hend⟩ := hsettles.exists_span
  obtain ⟨upTo, rfl⟩ := Cursor.exists_eq_start_of_extend hc
  refine ⟨span, upTo, rest, rfl, congrArg Cursor.rest hc, ?_, ?_⟩
  · rw [hend]
    exact (Nat.zero_add _).symm
  · intro more
    exact compile_eq_error_iff.2 (Node.parse_eq_error_iff.2 ⟨_, hsettles.check more, rfl⟩)

/-- An error that is about what stands in the text is settled by the text up to the end of its span,
and every text that begins like this has the same error.  So more text behind can only change errors
about something that is missing: a tag or a section that is not closed. -/
theorem Template.compile_append_of_error {source : Text} {e : Error}
    (h : compile source = .error e) :
    (e.cause.isDefinite = true →
      (∃ (span : Span) (upTo rest : Text), e.span = some span ∧ upTo ++ rest = source ∧
        Text.size upTo = span.offset + span.length ∧
        ∀ more, compile (upTo ++ more) = .error { e with source := some (upTo ++ more) }) ∧
      ∀ more, compile (source ++ more) = .error { e with source := some (source ++ more) }) ∧
    ∀ more, compile (source ++ more) ≠ .error { e with source := some (source ++ more) } →
      (∃ closing, e.cause = .unclosedTag closing) ∨ ∃ name, e.cause = .unclosedSection name := by
  have hstays (hdefinite : e.cause.isDefinite = true) (more : Text) :
      compile (source ++ more) = .error { e with source := some (source ++ more) } := by
    obtain ⟨span, upTo, rest, -, rfl, -, hcompile⟩ := exists_upTo_of_compile h hdefinite
    rw [List.append_assoc]
    exact hcompile (rest ++ more)
  refine ⟨fun hdefinite => ⟨exists_upTo_of_compile h hdefinite, hstays hdefinite⟩, ?_⟩
  intro more hchanges
  obtain ⟨cause, span, rfl, hsyntactic, -⟩ := Node.exists_span_of_parse (compile_eq_error_iff.1 h)
  exact Cause.eq_unclosed_of_isSyntactic hsyntactic fun hdefinite =>
    hchanges (hstays hdefinite more)

/-- An end tag on a line of its own, between other delimiters, does not fit and never will.  A
section that is left open can still be closed. -/
theorem Template.compile_append_of_error_of_section :
    (∀ more, compile ("{{=| |=}}\n|#a|\n|/b|".toList ++ more) =
      .error ⟨.mismatchedEnd ['a'] ['b'], some ⟨15, 4⟩,
        some ("{{=| |=}}\n|#a|\n|/b|".toList ++ more)⟩) ∧
      compile "{{#a}}".toList =
        .error ⟨.unclosedSection ['a'], some ⟨0, 6⟩, some "{{#a}}".toList⟩ ∧
      Node.parse ("{{#a}}".toList ++ "{{/a}}".toList) = .ok [.block .normal ⟨['a'], []⟩ []] ∧
      ∃ name, Cause.unclosedSection ['a'] = .unclosedSection name := by
  have hmismatch : compile "{{=| |=}}\n|#a|\n|/b|".toList =
      .error ⟨.mismatchedEnd ['a'] ['b'], some ⟨15, 4⟩, some "{{=| |=}}\n|#a|\n|/b|".toList⟩ :=
    compile_eq_error_iff.2 (by cbv)
  have hopen : compile "{{#a}}".toList =
      .error ⟨.unclosedSection ['a'], some ⟨0, 6⟩, some "{{#a}}".toList⟩ :=
    compile_eq_error_iff.2 (by cbv)
  have hclosed : Node.parse ("{{#a}}".toList ++ "{{/a}}".toList) =
      .ok [.block .normal ⟨['a'], []⟩ []] := by
    cbv
  refine ⟨((compile_append_of_error hmismatch).1 rfl).2, hopen, hclosed, ?_⟩
  refine ((compile_append_of_error hopen).2 "{{/a}}".toList ?_).resolve_left ?_
  · intro h
    rw [compile_eq_error_iff, hclosed] at h
    cases h
  · rintro ⟨closing, hclosing⟩
    cases hclosing

end Mustache
