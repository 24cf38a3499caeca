import Mustache.Proofs.OpenSections
import Mustache.Proofs.Partition

/-!
# Places in a template

An error of the parser points at a tag.  Where that tag stands is computed at many
places: some spans are those of tokens, and some end where reading a tag gave up,
which may be in the middle of it or at the end of the text.  This file says what
all of them have in common.  The span is that of a piece of the template, and the
piece begins with the opening delimiter.

Which delimiter that is depends on the place, because a set-delimiter tag changes
it for what comes after the tag.  `Text.inForce` says for every offset of a text
which delimiters are in force there.  It goes from tag to tag, like the lexer; but
it takes an offset and knows nothing of tokens and errors.

## Main results

* `Cursor.cutFrom_of_mem_tokens` — what tokens say of a text is there;
* `Cursor.Leads.inForce_eq` — where the lexer stands, the delimiters that it goes by
  are those in force up to where it goes next;
* `Tag.blames_of_read` — a tag that cannot be read is to blame up to some place in
  the text;
* `Cursor.opensTag_of_mem_tokens` — the span of a tag opens a tag;
* `Node.exists_span_of_parse` — an error of the parser is about the form of the
  template, and its span opens a tag in it.
-/

namespace Mustache

/-! ## From place to place -/

namespace Cursor

/-- The second place is reached from the first one by going from tag to tag. -/
inductive Leads : Cursor → Cursor → Prop
  | refl (c : Cursor) : Leads c c
  | step {c d : Cursor} {s : Step} : c.step = .ok (some s) → Leads s.next d → Leads c d

variable {c d : Cursor} {s : Step} {source passed : Text}

theorem offset_le_of_step (h : c.step = .ok (some s)) : c.offset ≤ s.next.offset := by
  rw [offset_of_step h]
  exact Nat.le_add_right _ _

theorem Leads.offset_le (h : c.Leads d) : c.offset ≤ d.offset := by
  induction h with
  | refl => exact Nat.le_refl _
  | step hs _ ih => exact Nat.le_trans (offset_le_of_step hs) ih

/-- What stands before a cursor that follows the template is a beginning of the template, and so it
is for every cursor after it. -/
theorem Leads.exists_follows (h : c.Leads d) (hc : c.Follows source passed) :
    ∃ passed', d.Follows source passed' := by
  induction h generalizing passed with
  | refl => exact ⟨passed, hc⟩
  | step hs _ ih => exact ih (hc.step hs)

/-- Every token comes from a place where a tag is found, or from the place where none is found
any more. -/
theorem exists_leads_of_mem_tokens {c : Cursor} {token : Token} (h : token ∈ c.tokens.1) :
    ∃ d, c.Leads d ∧
      ((∃ s, d.step = .ok (some s) ∧ token ∈ Token.ofStep d.offset s) ∨
        d.step = .ok none ∧ token ∈ Token.ofText d.offset d.rest) := by
  cases hs : c.step with
  | error e =>
      rw [tokens_of_step_error hs] at h
      contradiction
  | ok next =>
      cases next with
      | none =>
          rw [tokens_of_step_none hs] at h
          exact ⟨c, .refl c, .inr ⟨hs, h⟩⟩
      | some s =>
          rw [tokens_of_step_some hs, List.mem_append] at h
          rcases h with h | h
          · exact ⟨c, .refl c, .inl ⟨s, hs, h⟩⟩
          · have hdecr : s.next.rest.length < c.rest.length := length_of_step hs
            obtain ⟨d, hleads, hd⟩ := exists_leads_of_mem_tokens (c := s.next) h
            exact ⟨d, .step hs hleads, hd⟩
termination_by c.rest.length

/-- The fault that ends the tokens comes from a place where a tag cannot be read. -/
theorem exists_leads_of_fault {c : Cursor} {e : Error} (h : c.tokens.2 = some e) :
    ∃ d, c.Leads d ∧ d.step = .error e := by
  cases hs : c.step with
  | error e' =>
      rw [tokens_of_step_error hs] at h
      cases h
      exact ⟨c, .refl c, hs⟩
  | ok next =>
      cases next with
      | none =>
          rw [tokens_of_step_none hs] at h
          contradiction
      | some s =>
          rw [tokens_of_step_some hs] at h
          have hdecr : s.next.rest.length < c.rest.length := length_of_step hs
          obtain ⟨d, hleads, hd⟩ := exists_leads_of_fault (c := s.next) h
          exact ⟨d, .step hs hleads, hd⟩
termination_by c.rest.length

end Cursor

/-! ## What tokens are cut from -/

/-- What the token says of the text is there: a text that is not empty, or a tag and the name in
it, and just before the tag the blanks that it keeps. -/
def Token.CutFrom (source : Text) : Token → Prop
  | .text span => 0 < span.length ∧ ∃ piece, span.Covers source piece
  | .tag _ name nameSpan span indent =>
    nameSpan.Covers source name ∧ (∃ piece, span.Covers source piece) ∧
      ∃ lead : Span, lead.offset + lead.length = span.offset ∧ lead.Covers source indent

namespace Cursor

variable {c : Cursor} {s : Step} {source passed : Text}

theorem Follows.cutFrom_ofText (h : c.Follows source passed) {t r : Text} (hrest : t ++ r = c.rest)
    {token : Token} (ht : token ∈ Token.ofText c.offset t) : token.CutFrom source := by
  rw [Token.ofText_eq] at ht
  split at ht
  · contradiction
  · rename_i hne
    cases List.mem_singleton.1 ht
    have hsize : Text.size t ≠ 0 := fun hzero => hne (Text.size_eq_zero_iff.1 hzero)
    exact ⟨Nat.pos_of_ne_zero hsize, t, h.covers (a := []) hrest⟩

theorem Follows.cutFrom_ofStep (h : c.Follows source passed) (hs : c.step = .ok (some s))
    {token : Token} (ht : token ∈ Token.ofStep c.offset s) : token.CutFrom source := by
  have hrest : s.pieces ++ s.next.rest = c.rest := append_of_step hs
  rw [Step.pieces] at hrest
  cases token with
  | text span =>
      have htext : .text span ∈ Token.ofText c.offset s.text := by
        rw [Token.ofStep, List.mem_append] at ht
        refine ht.resolve_right ?_
        unfold Token.ofTag
        split <;> simp
      refine h.cutFrom_ofText (r := s.lead ++ s.lexeme ++ s.trail ++ s.next.rest) ?_ htext
      rw [← hrest]
      simp
  | tag role name nameSpan span indent =>
      obtain ⟨rfl, hspan, hname, rfl⟩ := (Step.partitions_of_step h hs).tag_of_mem_ofStep ht
      refine ⟨hname, ⟨_, hspan⟩, ?_⟩
      by_cases hrole : role = .inclusion
      · rw [if_pos hrole]
        refine ⟨_, rfl, h.covers (a := s.text) (r := s.lexeme ++ s.trail ++ s.next.rest) ?_⟩
        rw [← hrest]
        simp
      · rw [if_neg hrole]
        have hempty := h.covers (a := s.text ++ s.lead) (b := [])
          (r := s.lexeme ++ s.trail ++ s.next.rest) (by rw [← hrest]; simp)
        rw [Text.size_append, ← Nat.add_assoc] at hempty
        exact ⟨_, rfl, hempty⟩

/-- All that the tokens of a text say of it is there. -/
theorem cutFrom_of_mem_tokens {token : Token} (h : token ∈ (start source).tokens.1) :
    token.CutFrom source := by
  obtain ⟨c, hleads, ⟨s, hs, ht⟩ | ⟨-, ht⟩⟩ := exists_leads_of_mem_tokens h
  · obtain ⟨passed, hfollows⟩ := hleads.exists_follows (follows_start source)
    exact hfollows.cutFrom_ofStep hs ht
  · obtain ⟨passed, hfollows⟩ := hleads.exists_follows (follows_start source)
    exact hfollows.cutFrom_ofText (List.append_nil c.rest) ht

end Cursor

/-! ## The delimiters in force -/

namespace Cursor

variable {c d : Cursor} {s : Step}

/-- The delimiters in force at an offset, from the cursor on.  Up to where the next tag ends these
are the delimiters that the tag is found with. -/
def inForce (c : Cursor) (offset : Nat) : Delimiters :=
  match _h : c.step with
  | .ok (some s) => if offset < s.next.offset then c.delimiters else s.next.inForce offset
  | _ => c.delimiters
termination_by c.rest.length
decreasing_by exact length_of_step _h

theorem inForce_of_step (h : c.step = .ok (some s)) (offset : Nat) :
    c.inForce offset =
      if offset < s.next.offset then c.delimiters else s.next.inForce offset := by
  rw [inForce]
  split <;> simp_all

theorem inForce_eq_delimiters {offset : Nat}
    (h : ∀ s, c.step = .ok (some s) → offset < s.next.offset) :
    c.inForce offset = c.delimiters := by
  rw [inForce]
  split
  · rename_i s hs
    rw [if_pos (h s hs)]
  · rfl

/-- At a place that the lexer reaches, the delimiters in force are those that it goes by. -/
theorem Leads.inForce_eq (h : c.Leads d) {offset : Nat} (hfrom : d.offset ≤ offset)
    (hto : ∀ s, d.step = .ok (some s) → offset < s.next.offset) :
    c.inForce offset = d.delimiters := by
  induction h with
  | refl => exact inForce_eq_delimiters hto
  | step hs hleads ih =>
      have hpast := Nat.le_trans hleads.offset_le hfrom
      rw [inForce_of_step hs, if_neg (Nat.not_lt_of_le hpast), ih hfrom hto]

end Cursor

/-- The delimiters in force at an offset of a text. -/
def Text.inForce (source : Text) (offset : Nat) : Delimiters :=
  (Cursor.start source).inForce offset

/-- A tag that sets delimiters stands between the old ones itself. -/
example : (Text.inForce "{{=< >=}}".toList 8).opening.text = ['{', '{'] ∧
    (Text.inForce "{{=< >=}}".toList 9).opening.text = ['<'] := by
  cbv

namespace Cursor

variable {c : Cursor} {source : Text}

/-- Where a tag is found, it is found by the delimiters in force. -/
theorem Leads.inForce_of_step (h : (start source).Leads c) {s : Step}
    (hs : c.step = .ok (some s)) :
    source.inForce (c.offset + Text.size s.text + Text.size s.lead) = c.delimiters := by
  apply h.inForce_eq
  · omega
  · intro s' hs'
    rw [hs] at hs'
    cases hs'
    obtain ⟨x, hlast, -⟩ := Step.exists_getLast?_lexeme hs
    have hlexeme : Text.size s.lexeme ≠ 0 := by
      intro hzero
      rw [Text.size_eq_zero_iff.1 hzero] at hlast
      contradiction
    rw [offset_of_step hs, Step.pieces, Text.size_append, Text.size_append, Text.size_append]
    omega

/-- Where a tag cannot be read, the delimiters stay in force. -/
theorem Leads.inForce_of_step_error (h : (start source).Leads c) {e : Error}
    (hs : c.step = .error e) (n : Nat) : source.inForce (c.offset + n) = c.delimiters := by
  apply h.inForce_eq
  · exact Nat.le_add_right _ _
  · intro s hs'
    rw [hs] at hs'
    cases hs'

end Cursor

/-- The span is that of a piece of the text, and the piece begins with the opening delimiter that is
in force there. -/
structure Span.OpensTag (span : Span) (source : Text) : Prop where
  length_pos : 0 < span.length
  covers : ∃ piece, span.Covers source piece ∧
    (source.inForce span.offset).opening.text <+: piece

theorem Span.opensTag_of_covers {span : Span} {source piece : Text}
    (hcovers : span.Covers source piece)
    (hopening : (source.inForce span.offset).opening.text <+: piece) : span.OpensTag source := by
  refine ⟨?_, piece, hcovers, hopening⟩
  obtain ⟨-, -, -, -, hlength⟩ := hcovers
  rw [hlength, Nat.pos_iff_ne_zero, Ne, Text.size_eq_zero_iff]
  rintro rfl
  exact (source.inForce span.offset).opening.nonempty (List.prefix_nil.1 hopening)

/-! ## Tags that cannot be read -/

/-- Whether the cause is about the form of a template. -/
def Cause.isSyntactic : Cause → Bool
  | unclosedTag _ | emptyTag | invalidDelimiters _ | unexpectedEnd _ | mismatchedEnd _ _
  | unclosedSection _ | nestingLimit _ _ => true
  | partialLimit _ _ | unreadableData _ | refusedOutput | brokenStream _ => false

namespace Tag

/-- The fault is one of form, and a beginning of what was to be read is to blame: `before`, which
had been read already, and some of the text `t` behind it. -/
structure Fault.Blames (fault : Fault) (before t : Text) : Prop where
  isSyntactic : fault.cause.isSyntactic = true
  exists_size : ∃ a b, a ++ b = t ∧ fault.size = Text.size before + Text.size a

variable {d : Delimiters} {before t : Text} {fault : Fault}

/-- What had been read last may just as well be counted with what was to be read. -/
theorem Fault.Blames.widen {w : Text} (h : fault.Blames (before ++ w) t) :
    fault.Blames before (w ++ t) := by
  obtain ⟨a, b, rfl, hsize⟩ := h.exists_size
  refine ⟨h.isSyntactic, w ++ a, b, List.append_assoc _ _ _, ?_⟩
  rw [hsize, Text.size_append, Text.size_append, Nat.add_assoc]

theorem Fault.blames_unclosed {a b : Text} {size : Nat} (ht : a ++ b = t)
    (hsize : size = Text.size before + Text.size a) : (unclosed d size).Blames before t :=
  ⟨rfl, a, b, ht, hsize⟩

theorem blames_of_readComment (h : readComment d before t = .error fault) :
    fault.Blames before t := by
  unfold readComment at h
  split at h
  · cases h
    exact Fault.blames_unclosed (List.append_nil t) rfl
  · cases h

theorem blames_of_readDelimiters (h : readDelimiters d before t = .error fault) :
    fault.Blames before t := by
  simp only [readDelimiters] at h
  split at h
  · cases h
    exact Fault.blames_unclosed (List.append_nil t) rfl
  · rename_i content rest hfind
    split at h
    · cases h
      refine ⟨rfl, content ++ '=' :: d.closing.text, rest, ?_, ?_⟩
      · rw [List.append_assoc, Text.append_of_splitAtFirst? hfind]
      · rw [Text.size_append, Nat.add_assoc]
    · cases h

theorem blames_of_readNamed {role : Role} {braced : Bool}
    (h : readNamed d role braced before t = .error fault) : fault.Blames before t := by
  simp only [readNamed] at h
  have ht := List.takeWhile_append_dropWhile (p := Text.isSpace) (l := t)
  have hhead : ∀ c, (t.dropWhile Text.isSpace).head? = some c → Text.isSpace c = false :=
    fun _ hc => Text.eq_false_of_head?_dropWhile hc
  generalize t.takeWhile Text.isSpace = space at h ht
  generalize t.dropWhile Text.isSpace = u at h ht hhead
  rw [← ht]
  apply Fault.Blames.widen
  split at h
  · cases h
    exact Fault.blames_unclosed (List.append_nil u) rfl
  · rename_i v hbreak
    cases h
    -- No space comes first, so the name is empty because what ends it comes first.
    obtain ⟨rfl, hne, hstop, -⟩ := Text.breakAt_eq_some_iff.1 hbreak
    obtain ⟨c, v', rfl⟩ := List.exists_cons_of_ne_nil hne
    rw [Text.beginsWithSpace, hhead c rfl, Bool.false_or] at hstop
    obtain ⟨rest, hrest⟩ := List.isPrefixOf_iff_prefix.1 hstop
    exact ⟨rfl, _, rest, hrest, rfl⟩
  · rename_i name v _ hbreak
    have hu := Text.append_of_breakAt hbreak
    have hv := List.takeWhile_append_dropWhile (p := Text.isSpace) (l := v)
    generalize v.takeWhile Text.isSpace = space' at h hv
    split at h
    · cases h
      refine Fault.blames_unclosed (a := name ++ space') (b := v.dropWhile Text.isSpace) ?_ ?_
      · rw [List.append_assoc, hv, hu]
      · rw [Text.size_append name, Nat.add_assoc]
    · rename_i w hw
      rw [Text.strip?_eq_some_iff] at hw
      split at h
      · cases h
        refine Fault.blames_unclosed
          (a := name ++ space' ++ if braced then ['}'] else []) (b := w) ?_ ?_
        · rw [List.append_assoc, List.append_assoc, hw, hv, hu]
        · simp only [Text.size_append]
          omega
      · cases h

/-- A tag that cannot be read is to blame up to some place in the text. -/
theorem blames_of_read (h : read d t = .error fault) : fault.Blames d.opening.text t := by
  rw [read.eq_def] at h
  split at h
  · exact (blames_of_readNamed h).widen
  · have ht := List.takeWhile_append_dropWhile (p := Text.isSpace) (l := t)
    generalize t.takeWhile Text.isSpace = space at h ht
    rw [← ht]
    apply Fault.Blames.widen
    split at h
    · rename_i hnil
      rw [hnil]
      exact blames_of_readNamed h
    · rename_i c r hcons
      rw [hcons]
      split at h
      · exact (blames_of_readComment h).widen
      · split at h
        · exact (blames_of_readDelimiters h).widen
        · split at h
          · exact (blames_of_readNamed h).widen
          · exact blames_of_readNamed h

end Tag

/-! ## Errors have a place -/

/-- The error is about the form of a template, and about a place in it with this property. -/
def Error.Located (P : Span → Prop) (e : Error) : Prop :=
  ∃ cause span, e = .located cause span ∧ cause.isSyntactic = true ∧ P span

/-- If the token is that of a tag, the place of the tag has this property. -/
def Token.TagAt (P : Span → Prop) : Token → Prop
  | .text _ => True
  | .tag _ _ _ span _ => P span

namespace Cursor

variable {c : Cursor} {source passed : Text}

/-- Where a tag cannot be read, the error says so of a tag that is opened there. -/
theorem Leads.located_of_step {source : Text} (h : (start source).Leads c) {e : Error}
    (hs : c.step = .error e) : e.Located (·.OpensTag source) := by
  obtain ⟨passed, hfollows⟩ := h.exists_follows (follows_start source)
  obtain ⟨before, t, fault, hfind, hread, rfl⟩ := step_eq_error_iff.1 hs
  obtain ⟨hsyntactic, a, b, rfl, hsize⟩ := Tag.blames_of_read hread
  have hrest : before ++ (c.delimiters.opening.text ++ a) ++ b = c.rest := by
    rw [← Text.append_of_splitAtFirst? hfind, List.append_assoc, List.append_assoc]
  have hcovers := hfollows.covers hrest
  rw [Text.size_append, ← hsize] at hcovers
  refine ⟨_, _, rfl, hsyntactic, Span.opensTag_of_covers hcovers ?_⟩
  show (source.inForce (c.offset + Text.size before)).opening.text <+: _
  rw [h.inForce_of_step_error hs]
  exact List.prefix_append _ _

/-- The span of a tag opens a tag. -/
theorem opensTag_of_mem_tokens {source : Text} {token : Token}
    (h : token ∈ (start source).tokens.1) : token.TagAt (·.OpensTag source) := by
  cases token with
  | text span => exact trivial
  | tag role name nameSpan span indent =>
      obtain ⟨c, hleads, ⟨s, hs, hmem⟩ | ⟨-, hmem⟩⟩ := exists_leads_of_mem_tokens h
      · obtain ⟨passed, hfollows⟩ := hleads.exists_follows (follows_start source)
        have hparts := Step.partitions_of_step hfollows hs
        obtain ⟨rfl, hcovers, -, -⟩ := hparts.tag_of_mem_ofStep hmem
        refine Span.opensTag_of_covers hcovers ?_
        show (source.inForce (c.offset + Text.size s.text + Text.size s.lead)).opening.text <+: _
        rw [hleads.inForce_of_step hs]
        exact hparts.opening
      · unfold Token.ofText at hmem
        split at hmem <;> simp at hmem

end Cursor

/-- A token is to blame at the place of its tag. -/
theorem Token.Raises.located {P : Span → Prop} {token : Token} {e : Error} (h : token.Raises e)
    (htoken : token.TagAt P) : e.Located P := by
  cases h <;> exact ⟨_, _, rfl, rfl, htoken⟩

/-- An error of a run over the tokens of a template is about the place of a tag in it. -/
theorem Builder.located_of_run_start {source : Text} {e : Error}
    (h : start.run (Cursor.start source).tokens.2 (Cursor.start source).tokens.1 = .error e) :
    e.Located (·.OpensTag source) := by
  rcases Opening.exists_raises_of_run (run_eq_error_iff.1 h) with
    hfault | ⟨before, token, after, htokens, hraises, -⟩
  · obtain ⟨c, hleads, hs⟩ := Cursor.exists_leads_of_fault hfault
    exact hleads.located_of_step hs
  · have htoken : token ∈ (Cursor.start source).tokens.1 := by simp [htokens]
    exact hraises.located (Cursor.opensTag_of_mem_tokens htoken)

/-- An error of the parser is about the form of the template.  It has a span that opens a tag, and
the text that the span points into is the template. -/
theorem Node.exists_span_of_parse {source : Text} {e : Error} (h : parse source = .error e) :
    ∃ cause span, e = ⟨cause, some span, some source⟩ ∧ cause.isSyntactic = true ∧
      span.OpensTag source := by
  rw [parse_eq_mapError_run] at h
  cases hr : Builder.start.run (Cursor.start source).tokens.2 (Cursor.start source).tokens.1 with
  | ok nodes =>
      rw [hr] at h
      cases h
  | error e' =>
      rw [hr] at h
      obtain ⟨cause, span, rfl, hsyntactic, hopens⟩ := Builder.located_of_run_start hr
      exact ⟨cause, span, (Except.error.inj h).symm, hsyntactic, hopens⟩

end Mustache
