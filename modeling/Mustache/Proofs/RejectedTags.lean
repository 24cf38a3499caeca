import Mustache.Proofs.TagGrammar

/-!
# Tags that are rejected

A text after an opening delimiter may fail to be a tag in two ways.  Either something is
missing: a name is not ended, or what comes after it is not the closing delimiter.  Or
what is there can be read to its end but makes no tag, because it has no name or does not
hold two delimiters.  In the first case it may be that only the text is too short.  In the
second the text that is to blame is there, and it is all that was looked at.

`Tag.Rejected` writes down the four forms of the second kind.  As with the forms of tags
that are accepted, the point is that they can be read off a text: a form says nothing of
what comes after it.

An empty tag in braces is different from the others.  It is rejected at the brace that
ends the name, so its form ends there, and not with the closing delimiter.

## Main results

* `Tag.exists_stop_of_readNamed`, `Tag.exists_content_of_readDelimiters` — when a name is
  missing, and when the content of a set-delimiter tag is not two delimiters;
* `Tag.read_eq_error_iff` — a tag is rejected exactly if the text begins with one of the
  forms, and the bytes to blame are those of the form.
-/

namespace Mustache

namespace Tag

/-- What comes after the pattern does not matter for where the pattern begins. -/
theorem runsUpTo_append_iff {pattern t : Text} (rest : Text) :
    RunsUpTo pattern t (pattern ++ rest) ↔ RunsUpTo pattern t pattern := by
  constructor
  · intro h
    have hnone := Text.not_isPrefix_of_rest (Nat.le_refl _) h []
    rwa [List.append_nil] at hnone
  · intro h
    have hnone : RunsUpTo pattern t (pattern ++ []) := by rwa [List.append_nil]
    exact Text.not_isPrefix_of_rest (Nat.le_refl _) hnone rest

/-- From its opening delimiter on, the text is read as a tag, `braced` or not, and rejected for this
cause. -/
inductive Rejected (d : Delimiters) : (braced : Bool) → Cause → Text → Prop
  /-- Nothing but space stands between two braces. -/
  | braced {space : Text} : Text.Spaces space →
    Rejected d true .emptyTag (d.opening.text ++ '{' :: space ++ ['}'])
  /-- Nothing but space comes after a sigil. -/
  | sigil {space space' : Text} {sigil : Char} {role : Role} : Text.Spaces space →
    Text.Spaces space' → (sigil, role) ∈ sigils →
    Rejected d false .emptyTag (d.opening.text ++ space ++ sigil :: space' ++ d.closing.text)
  /-- Nothing but space stands between the delimiters, and the closing one does not begin like
  something else. -/
  | plain {space : Text} : Text.Spaces space → (∀ c, d.closing.text.head? = some c → c ∉ marks) →
    (space = [] → d.closing.text.head? ≠ some '{') →
    Rejected d false .emptyTag (d.opening.text ++ space ++ d.closing.text)
  /-- The content of a set-delimiter tag is not two delimiters. -/
  | delimiters {space content : Text} : Text.Spaces space →
    RunsUpTo ('=' :: d.closing.text) content ('=' :: d.closing.text) →
    Delimiters.ofContent? content = none →
    Rejected d false (.invalidDelimiters content)
      (d.opening.text ++ space ++ '=' :: content ++ '=' :: d.closing.text)

variable {d : Delimiters} {before t : Text} {fault : Fault}

/-! ## The three kinds of body -/

/-- A comment is only rejected if it is not closed. -/
theorem cause_of_readComment (h : readComment d before t = .error fault) :
    fault.cause = .unclosedTag d.closing.text := by
  unfold readComment at h
  split at h
  · cases h
    rfl
  · cases h

theorem solid_stop (d : Delimiters) (braced : Bool) : Text.Solid (stop d braced) := by
  cases braced with
  | true =>
      refine ⟨List.cons_ne_nil _ _, ?_⟩
      intro c hc
      rw [List.mem_singleton.1 hc]
      rfl
  | false => exact d.closing.solid

/-- A name is missing where what ends it comes at once. -/
theorem readNamed_of_stop {space : Text} (hspace : Text.Spaces space) (role : Role)
    (braced : Bool) (before rest : Text) :
    readNamed d role braced before (space ++ (stop d braced ++ rest)) =
      .error ⟨.emptyTag, Text.size (before ++ space ++ stop d braced)⟩ := by
  have hsolid := solid_stop d braced
  obtain ⟨htake, hdrop⟩ := Text.span_append hspace (fun _ hc => hsolid.isSpace_head? rest hc)
  have hbreak : Text.breakAt
      (fun r => Text.beginsWithSpace r || (stop d braced).isPrefixOf r) (stop d braced ++ rest) =
        some ([], stop d braced ++ rest) := by
    refine Text.breakAt_eq_some_iff.2 ⟨rfl, ?_, ?_, nofun⟩
    · exact List.append_ne_nil_of_left_ne_nil hsolid.1 rest
    · rw [List.isPrefixOf_iff_prefix.2 (List.prefix_append _ _), Bool.or_true]
  simp only [readNamed]
  rw [stop_eq, htake, hdrop, hbreak, Text.size_append _ (stop d braced)]

/-- And only there it is missing. -/
theorem exists_stop_of_readNamed {role : Role} {braced : Bool}
    (h : readNamed d role braced before t = .error fault)
    (hclosed : fault.cause ≠ .unclosedTag d.closing.text) :
    ∃ space rest, Text.Spaces space ∧ space ++ (stop d braced ++ rest) = t ∧
      fault = ⟨.emptyTag, Text.size (before ++ space ++ stop d braced)⟩ := by
  have hbrace : (if braced then ['}'] else [] : Text) = brace braced := rfl
  simp only [readNamed] at h
  rw [stop_eq, hbrace] at h
  have ht := List.takeWhile_append_dropWhile (p := Text.isSpace) (l := t)
  have hspace := Text.spaces_takeWhile t
  have hhead : ∀ c, (t.dropWhile Text.isSpace).head? = some c → Text.isSpace c = false :=
    fun _ hc => Text.eq_false_of_head?_dropWhile hc
  generalize t.takeWhile Text.isSpace = space at h ht hspace
  generalize t.dropWhile Text.isSpace = u at h ht hhead
  split at h
  · cases h
    contradiction
  · rename_i v hbreak
    cases h
    -- No space comes first, so the name is empty because what ends it comes first.
    obtain ⟨rfl, hne, hstop, -⟩ := Text.breakAt_eq_some_iff.1 hbreak
    obtain ⟨c, v', rfl⟩ := List.exists_cons_of_ne_nil hne
    rw [Text.beginsWithSpace, hhead c rfl, Bool.false_or] at hstop
    obtain ⟨rest, hrest⟩ := List.isPrefixOf_iff_prefix.1 hstop
    refine ⟨space, rest, hspace, ?_, ?_⟩
    · rw [hrest]
      exact ht
    · rw [Text.size_append _ (stop d braced)]
  · split at h
    · cases h
      exact absurd rfl hclosed
    · split at h
      · cases h
        exact absurd rfl hclosed
      · cases h

/-- The content of a set-delimiter tag goes up to the first equals sign before a closing delimiter,
and it may not stand for two delimiters. -/
theorem readDelimiters_of_content {content : Text}
    (hruns : RunsUpTo ('=' :: d.closing.text) content ('=' :: d.closing.text))
    (hnone : Delimiters.ofContent? content = none) (before rest : Text) :
    readDelimiters d before (content ++ ('=' :: d.closing.text ++ rest)) =
      .error ⟨.invalidDelimiters content,
        Text.size (before ++ content ++ '=' :: d.closing.text)⟩ := by
  have hfind := (Text.splitAtFirst?_eq_some_iff (List.cons_ne_nil _ _)).2
    ⟨rfl, (runsUpTo_append_iff rest).2 hruns⟩
  simp only [readDelimiters, hfind, hnone, Text.size_append]

/-- Only then it is rejected. -/
theorem exists_content_of_readDelimiters (h : readDelimiters d before t = .error fault)
    (hclosed : fault.cause ≠ .unclosedTag d.closing.text) :
    ∃ content rest, RunsUpTo ('=' :: d.closing.text) content ('=' :: d.closing.text) ∧
      Delimiters.ofContent? content = none ∧ content ++ ('=' :: d.closing.text ++ rest) = t ∧
      fault = ⟨.invalidDelimiters content,
        Text.size (before ++ content ++ '=' :: d.closing.text)⟩ := by
  simp only [readDelimiters] at h
  split at h
  · cases h
    contradiction
  · rename_i content rest hfind
    obtain ⟨rfl, hfirst⟩ := (Text.splitAtFirst?_eq_some_iff (List.cons_ne_nil _ _)).1 hfind
    split at h
    · rename_i hnone
      cases h
      refine ⟨content, rest, (runsUpTo_append_iff rest).1 hfirst, hnone, rfl, ?_⟩
      rw [Text.size_append, Text.size_append]
    · cases h

/-! ## Whole tags -/

theorem Rejected.opening_isPrefix {braced : Bool} {cause : Cause} {tag : Text}
    (h : Rejected d braced cause tag) :
    d.opening.text <+: tag := by
  cases h <;> simp [List.append_assoc]

/-- A text that begins with one of the forms is rejected. -/
theorem Rejected.read_eq {braced : Bool} {cause : Cause} {tag rest : Text}
    (h : Rejected d braced cause tag)
    (happend : tag ++ rest = d.opening.text ++ t) :
    read d t = .error ⟨cause, Text.size tag⟩ := by
  cases h with
  | @braced space hspace =>
      obtain rfl : '{' :: (space ++ '}' :: rest) = t := by simpa using happend
      have hread := readNamed_of_stop (d := d) hspace (.interpolation false) true
        (d.opening.text ++ ['{']) rest
      show readNamed d (.interpolation false) true (d.opening.text ++ ['{']) _ = _
      simpa [stop] using hread
  | @sigil space space' c role hspace hspace' hsigil =>
      obtain rfl : space ++ c :: (space' ++ (d.closing.text ++ rest)) = t := by simpa using happend
      have hrole := ofSigil?_eq_some_iff.2 hsigil
      obtain ⟨hc, hbrace, hcomment, hdelimiters⟩ := sigil_cases hrole
      have hread := readNamed_of_stop (d := d) hspace' role false
        (d.opening.text ++ space ++ [c]) rest
      rw [read_append_cons hspace hc (fun _ => hbrace), if_neg hcomment, if_neg hdelimiters, hrole]
      simpa [stop] using hread
  | @plain space hspace hmarks hbrace =>
      obtain ⟨c, more, hclosing⟩ := List.exists_cons_of_ne_nil d.closing.nonempty
      have hhead : d.closing.text.head? = some c := by rw [hclosing]; rfl
      have hc : Text.isSpace c = false := d.closing.solid.2 c (List.mem_of_head? hhead)
      obtain ⟨hcomment, hdelimiters, hnone⟩ := not_mem_marks_iff.1 (hmarks c hhead)
      obtain rfl : space ++ c :: (more ++ rest) = t := by simpa [hclosing] using happend
      have hspace' : Text.Spaces [] := nofun
      have hread := readNamed_of_stop (d := d) hspace' (.interpolation true) false
        (d.opening.text ++ space) rest
      rw [read_append_cons hspace hc (fun hnil heq => hbrace hnil (heq ▸ hhead)), if_neg hcomment,
        if_neg hdelimiters, hnone]
      simpa [stop, hclosing] using hread
  | @delimiters space content hspace hruns hnone =>
      obtain rfl : space ++ '=' :: (content ++ ('=' :: d.closing.text ++ rest)) = t := by
        simpa using happend
      have hread := readDelimiters_of_content hruns hnone (d.opening.text ++ space ++ ['=']) rest
      rw [read_append_cons hspace rfl (fun _ => by decide), if_neg (by decide), if_pos rfl, hread]
      simp

/-- What is rejected begins with one of the forms, and the form is to blame. -/
theorem rejected_of_read (h : read d t = .error fault)
    (hclosed : fault.cause ≠ .unclosedTag d.closing.text) :
    ∃ braced tag rest, Rejected d braced fault.cause tag ∧ tag ++ rest = d.opening.text ++ t ∧
      fault.size = Text.size tag := by
  by_cases hbrace : t.head? = some '{'
  · obtain ⟨u, rfl⟩ : ∃ u, t = '{' :: u := List.head?_eq_some_iff.1 hbrace
    obtain ⟨space, rest, hspace, rfl, rfl⟩ := exists_stop_of_readNamed h hclosed
    exact ⟨_, _, rest, .braced hspace, by simp [stop], by simp [stop]⟩
  · rw [read_of_head?_ne hbrace] at h
    have ht := List.takeWhile_append_dropWhile (p := Text.isSpace) (l := t)
    have hspace := Text.spaces_takeWhile t
    have hhead : ∀ c, (t.dropWhile Text.isSpace).head? = some c → Text.isSpace c = false :=
      fun _ hc => Text.eq_false_of_head?_dropWhile hc
    generalize t.takeWhile Text.isSpace = space at h ht hspace
    generalize t.dropWhile Text.isSpace = u at h ht hhead
    subst ht
    cases u with
    | nil =>
        obtain ⟨_, rest, -, happend, -⟩ := exists_stop_of_readNamed h hclosed
        simp [(solid_stop d false).1] at happend
    | cons c u =>
        simp only at h
        split at h
        · exact absurd (cause_of_readComment h) hclosed
        · rename_i hcomment
          split at h
          · rename_i heq
            subst heq
            obtain ⟨content, rest, hruns, hnone, rfl, rfl⟩ :=
              exists_content_of_readDelimiters h hclosed
            exact ⟨_, _, rest, .delimiters hspace hruns hnone, by simp, by simp⟩
          · rename_i hdelimiters
            split at h
            · rename_i role hrole
              obtain ⟨space', rest, hspace', rfl, rfl⟩ := exists_stop_of_readNamed h hclosed
              exact ⟨_, _, rest, .sigil hspace hspace' (ofSigil?_eq_some_iff.1 hrole),
                by simp [stop], by simp [stop]⟩
            · rename_i hnone
              -- The character that showed that there is no sigil is the first of what ends a name.
              obtain ⟨space', rest, hspace', happend, rfl⟩ := exists_stop_of_readNamed h hclosed
              obtain rfl := hspace'.eq_nil_of_append_eq_cons happend (hhead c rfl)
              have hclosing : d.closing.text.head? = some c := by
                have hhead : (d.closing.text ++ rest).head? = some c := congrArg List.head? happend
                rwa [List.head?_append_of_ne_nil _ d.closing.nonempty] at hhead
              refine ⟨_, _, rest, .plain hspace ?_ ?_, ?_, by simp [stop]⟩
              · intro x hx
                rw [hclosing] at hx
                cases hx
                exact not_mem_marks_iff.2 ⟨hcomment, hdelimiters, hnone⟩
              · rintro rfl heq
                rw [hclosing] at heq
                exact hbrace heq
              · rw [← happend]
                simp [stop]

/-- A tag is rejected exactly if the text begins with one of the forms, and the form is to blame. -/
theorem read_eq_error_iff {cause : Cause} (hclosed : cause ≠ .unclosedTag d.closing.text)
    {size : Nat} :
    read d t = .error ⟨cause, size⟩ ↔
      ∃ braced tag rest, Rejected d braced cause tag ∧ tag ++ rest = d.opening.text ++ t ∧
        size = Text.size tag := by
  constructor
  · intro h
    exact rejected_of_read h hclosed
  · rintro ⟨braced, tag, rest, h, happend, rfl⟩
    exact h.read_eq happend

end Tag

end Mustache
