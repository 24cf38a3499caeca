import Mustache.Proofs.SectionStack

/-!
# Open sections

Whether a template can be parsed does not depend on its nodes.  An end tag is compared
with the section that is open, the number of sections that are open is limited, and at
the end none may be open.  So for errors all of the nodes can be forgotten, and what is
left of the machine that builds them is a list of the tags that have opened a section.

What is gained is that two templates can be compared for their errors where they have
different nodes, because their texts are cut in different places.  And an error can be
traced back to a token: it is the end tag that does not fit, or the tag that opened one
section too many, or that of a section which is never closed.

To find the last of these, one has to go back over the sections that were closed after it.
What a step does to the innermost section it does whatever there is further out, so tokens
that leave the open sections as they were would do so on their own.

## Main results

* `Builder.map_openings_step`, `Builder.run_eq_error_iff` — the open sections alone fail as
  the machine does;
* `Node.parse_eq_error_iff` — so this decides which error a template has;
* `Opening.moves_of_step` — what a step can do;
* `Opening.exists_opens_of_foldlM` — which token opened the innermost section, and that
  what comes after it is complete;
* `Opening.exists_raises_of_run` — an error ends the tokens or is raised by one of them.
-/

namespace Mustache

namespace Opening

/-- What a token does to the open sections, the innermost first. -/
def step (opened : List Opening) : Token → Except Error (List Opening)
  | .tag (.opening _) name _ span _ =>
    if opened.length < maxSectionDepth then
      .ok (⟨name, span⟩ :: opened)
    else
      .error (.located (.nestingLimit name maxSectionDepth) span)
  | .tag .closing name _ span _ =>
    match mismatch? name opened with
    | some cause => .error (.located cause span)
    | none => .ok opened.tail
  | _ => .ok opened

/-- What the end of the tokens does. -/
def finish (fault : Option Error) (opened : List Opening) : Except Error Unit :=
  match fault, opened with
  | some e, _ => .error e
  | none, innermost :: _ => .error (.located (.unclosedSection innermost.name) innermost.span)
  | none, [] => .ok ()

/-- Takes one token after the other, and then the end. -/
def run (fault : Option Error) (opened : List Opening) (tokens : List Token) : Except Error Unit :=
  (tokens.foldlM step opened).bind (finish fault)

theorem foldlM_singleton (opened : List Opening) (token : Token) :
    [token].foldlM step opened = step opened token := by
  simp only [List.foldlM_cons, List.foldlM_nil, bind_pure]

theorem run_append (fault : Option Error) (opened : List Opening) (tokens more : List Token) :
    run fault opened (tokens ++ more) =
      (tokens.foldlM step opened).bind fun opened => run fault opened more := by
  rw [run, List.foldlM_append]
  cases tokens.foldlM step opened <;> rfl

end Opening

/-! ## Without the nodes -/

namespace Builder

/-- A step does to the open sections what it does to them without the nodes. -/
theorem map_openings_step (b : Builder) (token : Token) :
    (b.step token).map openings = Opening.step b.openings token := by
  cases token with
  | text span => rfl
  | tag role name nameSpan span indent =>
      cases role with
      | interpolation escaped => rfl
      | inclusion => rfl
      | opening kind =>
          rw [step, opened, Opening.step, length_openings]
          split <;> rfl
      | closing =>
          obtain ⟨levels, nodes⟩ := b
          cases levels with
          | nil => rfl
          | cons innermost levels =>
              simp only [step, closed, Opening.step, openings, List.map_cons, Opening.mismatch?]
              split <;> rfl

theorem map_openings_foldlM (b : Builder) (tokens : List Token) :
    (tokens.foldlM step b).map openings = tokens.foldlM Opening.step b.openings := by
  induction tokens generalizing b with
  | nil => rfl
  | cons token tokens ih =>
      rw [List.foldlM_cons, List.foldlM_cons, ← map_openings_step]
      cases b.step token with
      | error e => rfl
      | ok next => exact ih next

theorem map_finish (fault : Option Error) (b : Builder) :
    (b.finish fault).map (fun _ => ()) = Opening.finish fault b.openings := by
  obtain ⟨levels, nodes⟩ := b
  cases fault with
  | some e => rfl
  | none => cases levels <;> rfl

/-- A run fails as it does without the nodes. -/
theorem run_eq_error_iff {fault : Option Error} {b : Builder} {tokens : List Token} {e : Error} :
    b.run fault tokens = .error e ↔ Opening.run fault b.openings tokens = .error e := by
  have hrun : (b.run fault tokens).map (fun _ => ()) = Opening.run fault b.openings tokens := by
    rw [run, Opening.run, ← map_openings_foldlM]
    cases tokens.foldlM step b with
    | error e => rfl
    | ok last => exact map_finish fault last
  rw [← hrun]
  cases b.run fault tokens <;> simp [Except.map]

/-- And it ends well if it does without them. -/
theorem exists_run_eq_ok {fault : Option Error} {b : Builder} {tokens : List Token}
    (h : Opening.run fault b.openings tokens = .ok ()) : ∃ nodes, b.run fault tokens = .ok nodes := by
  cases hrun : b.run fault tokens with
  | error e =>
      rw [run_eq_error_iff.1 hrun] at h
      contradiction
  | ok nodes => exact ⟨nodes, rfl⟩

end Builder

/-- What is wrong from a place on, if anything is, where these sections are open. -/
def Cursor.check (c : Cursor) (opened : List Opening) : Except Error Unit :=
  Opening.run c.tokens.2 opened c.tokens.1

/-- The error of a template is that of its tokens, with the template as its text. -/
theorem Node.parse_eq_error_iff {source : Text} {e : Error} :
    parse source = .error e ↔
      ∃ e', (Cursor.start source).check [] = .error e' ∧ e'.withSource source = e := by
  have hrun (e' : Error) : Builder.start.run (Cursor.start source).tokens.2
      (Cursor.start source).tokens.1 = .error e' ↔ (Cursor.start source).check [] = .error e' :=
    Builder.run_eq_error_iff
  simp only [← hrun, parse_eq_mapError_run]
  cases Builder.start.run (Cursor.start source).tokens.2 (Cursor.start source).tokens.1 <;>
    simp [Except.mapError]

/-! ## From step to step -/

namespace Cursor

variable {c : Cursor} {s : Step} {e : Error}

theorem check_of_step_error (h : c.step = .error e) (opened : List Opening) :
    c.check opened = .error e := by
  rw [check, tokens_of_step_error h]
  rfl

/-- A text does nothing to the open sections. -/
theorem foldlM_ofText (offset : Nat) (t : Text) (opened : List Opening) :
    (Token.ofText offset t).foldlM Opening.step opened = .ok opened := by
  unfold Token.ofText
  split <;> rfl

theorem check_of_step_none (h : c.step = .ok none) (opened : List Opening) :
    c.check opened = Opening.finish none opened := by
  rw [check, tokens_of_step_none h, Opening.run, foldlM_ofText]
  rfl

theorem check_of_step_some (h : c.step = .ok (some s)) (opened : List Opening) :
    c.check opened =
      ((Token.ofStep c.offset s).foldlM Opening.step opened).bind s.next.check := by
  rw [check, tokens_of_step_some h]
  exact Opening.run_append _ _ _ _

/-- What a step does to the open sections, its tag does, and it does not matter which blanks belong
to the tag. -/
theorem foldlM_stepOver (c : Cursor) (before : Text) (r : Tag.Reading) (opened : List Opening) :
    (Token.ofStep c.offset (c.stepOver before r)).foldlM Opening.step opened =
      match r.tag with
      | .named role =>
        Opening.step opened (.tag role r.body ⟨c.offset + Text.size before, Text.size r.body⟩
          ⟨c.offset + Text.size before, Text.size r.lexeme⟩ [])
      | _ => .ok opened := by
  have htag : (c.stepOver before r).tag = r.tag := rfl
  rw [Token.ofStep, List.foldlM_append, foldlM_ofText, offset_stepOver, Token.ofTag,
    htag]
  cases r.tag with
  | comment => rfl
  | delimiters next => rfl
  | named role =>
      refine (Opening.foldlM_singleton _ _).trans ?_
      cases role <;> rfl

end Cursor

/-! ## Back to the tokens -/

/-- The token is to blame for the error. -/
inductive Token.Raises : Token → Error → Prop
  | unexpectedEnd (name : Text) (nameSpan span : Span) (indent : Text) :
    Raises (.tag .closing name nameSpan span indent) (.located (.unexpectedEnd name) span)
  | mismatchedEnd (expected name : Text) (nameSpan span : Span) (indent : Text) :
    Raises (.tag .closing name nameSpan span indent)
      (.located (.mismatchedEnd expected name) span)
  | nestingLimit (kind : SectionKind) (name : Text) (nameSpan span : Span) (indent : Text) :
    Raises (.tag (.opening kind) name nameSpan span indent)
      (.located (.nestingLimit name maxSectionDepth) span)
  | unclosedSection (kind : SectionKind) (name : Text) (nameSpan span : Span) (indent : Text) :
    Raises (.tag (.opening kind) name nameSpan span indent)
      (.located (.unclosedSection name) span)

/-- It is to blame as a whole. -/
theorem Token.Raises.exists_eq_located {role : Role} {name indent : Text} {nameSpan span : Span}
    {e : Error} (h : (tag role name nameSpan span indent).Raises e) :
    ∃ cause, e = .located cause span := by
  cases h <;> exact ⟨_, rfl⟩

namespace Opening

variable {opened opened' : List Opening} {tokens : List Token} {token : Token} {e : Error}

/-- A step fails because of its token, and not because something is missing. -/
theorem raises_of_step (h : step opened token = .error e) :
    token.Raises e ∧ ∀ name, e.cause ≠ .unclosedSection name := by
  unfold step at h
  split at h
  · split at h
    · cases h
    · cases h
      refine ⟨.nestingLimit _ _ _ _ _, ?_⟩
      rintro name ⟨⟩
  · unfold mismatch? at h
    split at h
    · rename_i cause hcause
      cases h
      split at hcause
      · cases hcause
        refine ⟨.unexpectedEnd _ _ _ _, ?_⟩
        rintro name ⟨⟩
      · split at hcause
        · cases hcause
        · cases hcause
          refine ⟨.mismatchedEnd _ _ _ _ _, ?_⟩
          rintro name ⟨⟩
    · cases h
  · cases h

/-- What is wrong with the section if it is never closed. -/
def unclosed (opening : Opening) : Error :=
  .located (.unclosedSection opening.name) opening.span

/-- Wherever one more section may be open, the token opens this one. -/
structure Opens (token : Token) (opening : Opening) : Prop where
  raises : token.Raises opening.unclosed
  step_eq : ∀ outer : List Opening, outer.length < maxSectionDepth →
    step outer token = .ok (opening :: outer)

/-- What a step can do, and that the sections further out have no part in it. -/
inductive Moves (opened : List Opening) (token : Token) : List Opening → Prop
  | stays : (∀ outer, step outer token = .ok outer) → Moves opened token opened
  | opens {opening : Opening} : opened.length < maxSectionDepth → Opens token opening →
    Moves opened token (opening :: opened)
  | closes {innermost : Opening} {outside : List Opening} : opened = innermost :: outside →
    (∀ outer, step (innermost :: outer) token = .ok outer) → Moves opened token outside

theorem moves_of_step (h : step opened token = .ok opened') : Moves opened token opened' := by
  cases token with
  | text span =>
      cases h
      exact .stays fun _ => rfl
  | tag role name nameSpan span indent =>
      cases role with
      | interpolation escaped =>
          cases h
          exact .stays fun _ => rfl
      | inclusion =>
          cases h
          exact .stays fun _ => rfl
      | opening kind =>
          simp only [step] at h
          split at h
          · rename_i hroom
            cases h
            exact .opens hroom ⟨.unclosedSection kind name nameSpan span indent,
              fun _ houter => if_pos houter⟩
          · contradiction
      | closing =>
          cases opened with
          | nil => contradiction
          | cons innermost outside =>
              simp only [step, mismatch?] at h
              split at h
              · contradiction
              · rename_i hname
                cases h
                refine .closes rfl fun outer => ?_
                simp only [step, mismatch?, hname]
                rfl

/-- If tokens fail, one of them does. -/
theorem exists_step_of_foldlM (h : tokens.foldlM step opened = .error e) :
    ∃ before token after opened', tokens = before ++ token :: after ∧
      step opened' token = .error e := by
  induction tokens generalizing opened with
  | nil => cases h
  | cons token tokens ih =>
      rw [List.foldlM_cons] at h
      cases hs : step opened token with
      | error e' =>
          rw [hs] at h
          cases h
          exact ⟨[], token, tokens, opened, rfl, hs⟩
      | ok next =>
          rw [hs] at h
          obtain ⟨before, failing, after, opened', rfl, hfails⟩ := ih h
          exact ⟨token :: before, failing, after, opened', rfl, hfails⟩

/-- Where at most so many sections are open, the same are open again after the tokens. -/
def Complete (room : Nat) (tokens : List Token) : Prop :=
  ∀ outer : List Opening, outer.length ≤ room → tokens.foldlM step outer = .ok outer

theorem Complete.append {room : Nat} {more : List Token} (h : Complete room tokens)
    (hmore : Complete room more) : Complete room (tokens ++ more) := by
  intro outer houter
  rw [List.foldlM_append, h outer houter]
  exact hmore outer houter

/-- A section that is open in the end was opened by a token, and what comes after the token is
complete. -/
theorem exists_opens_of_foldlM {tokens : List Token} {innermost : Opening} {opened : List Opening}
    (h : tokens.foldlM step [] = .ok (innermost :: opened)) :
    ∃ before token after, tokens = before ++ token :: after ∧ before.foldlM step [] = .ok opened ∧
      opened.length < maxSectionDepth ∧ Opens token innermost ∧
      Complete (opened.length + 1) after := by
  rcases List.eq_nil_or_concat' tokens with rfl | ⟨front, last, rfl⟩
  · cases h
  · rw [List.foldlM_append] at h
    cases hfront : front.foldlM step [] with
    | error e =>
        rw [hfront] at h
        cases h
    | ok opened' =>
        rw [hfront] at h
        have hlast := (foldlM_singleton opened' last).symm.trans h
        generalize hnext : innermost :: opened = next at hlast
        cases moves_of_step hlast with
        | stays hstays =>
            subst hnext
            obtain ⟨before, token, after, rfl, hbefore, hroom, hopens, hafter⟩ :=
              exists_opens_of_foldlM hfront
            refine ⟨before, token, after ++ [last], List.append_assoc _ _ _, hbefore, hroom, hopens,
              hafter.append fun outer _ => ?_⟩
            rw [foldlM_singleton, hstays]
        | opens hroom hopens =>
            cases hnext
            exact ⟨front, last, [], rfl, hfront, hroom, hopens, fun _ _ => rfl⟩
        | @closes inner _ hopened hcloses =>
            subst hnext hopened
            -- The section that the last token closes was opened by another one.  So it is enough to
            -- look at the tokens before that.
            obtain ⟨front, first, between, rfl, hfront, hroom, hfirst, hbetween⟩ :=
              exists_opens_of_foldlM hfront
            obtain ⟨before, token, after, rfl, hbefore, hroom', hopens, hafter⟩ :=
              exists_opens_of_foldlM hfront
            refine ⟨before, token, after ++ first :: (between ++ [last]), by simp, hbefore, hroom',
              hopens, hafter.append fun outer houter => ?_⟩
            have hfirst := hfirst.step_eq outer (Nat.lt_of_le_of_lt houter hroom)
            have hbetween := hbetween (inner :: outer) (Nat.succ_le_succ houter)
            rw [List.foldlM_cons, hfirst]
            show (between ++ [last]).foldlM step (inner :: outer) = .ok outer
            rw [List.foldlM_append, hbetween]
            exact (foldlM_singleton _ last).trans (hcloses outer)
termination_by tokens.length

/-- An error ends the tokens or is raised by one of them.  If the error is that a section is not
closed, what comes after its tag is complete. -/
theorem exists_raises_of_run {fault : Option Error} (h : run fault [] tokens = .error e) :
    fault = some e ∨ ∃ before token after, tokens = before ++ token :: after ∧ token.Raises e ∧
      ∀ name, e.cause = .unclosedSection name → fault = none ∧ run none [] after = .ok () := by
  cases hfold : tokens.foldlM step [] with
  | error e' =>
      rw [run, hfold] at h
      cases h
      obtain ⟨before, token, after, opened, rfl, hfails⟩ := exists_step_of_foldlM hfold
      obtain ⟨hraises, hcause⟩ := raises_of_step hfails
      exact .inr ⟨before, token, after, rfl, hraises, fun name hname => absurd hname (hcause name)⟩
  | ok opened =>
      rw [run, hfold] at h
      cases fault with
      | some e' =>
          cases h
          exact .inl rfl
      | none =>
          cases opened with
          | nil => cases h
          | cons innermost opened =>
              cases h
              obtain ⟨before, token, after, rfl, -, -, hopens, hafter⟩ :=
                exists_opens_of_foldlM hfold
              refine .inr ⟨before, token, after, rfl, hopens.raises, fun _ _ => ⟨rfl, ?_⟩⟩
              rw [run, hafter [] (Nat.zero_le _)]
              rfl

end Opening

end Mustache
