import Mustache.Proofs.Places
import Mustache.Proofs.TagForm

/-!
# Tokens one at a time

A parser asks for one token after the other and need not have them all at once.
`TokenStream` answers such questions.  Between two of them it keeps the tokens of the
last step that nobody has asked for yet, and the place where the next step begins.
A step may make no token, and then the stream goes on to the next step before it
answers.

So an answer takes as many steps as there are tags without a token, and it has to be
shown that every step gets on.  It does because of the delimiters.  A template can
choose its own, but a delimiter that a set-delimiter tag puts in force is a word: it
has characters, and none of them is space.  A tag begins with the one delimiter and
ends with the other, so it takes up as many bytes as both have together.

## Main results

* `Tag.readDelimiters_eq_ok_iff` — which set-delimiter tags are accepted, and what they
  put in force;
* `Cursor.offset_add_le_of_step` — a step moves on by the size of both delimiters;
* `TokenStream.next_eq` — an answer is the first of all that remain, and leaves the rest;
* `TokenStream.next_of_ended` — after an error or the end there is nothing more;
* `TokenStream.progress` — all of this for the stream of a template.
-/

namespace Mustache

/-! ## Words as delimiters -/

namespace Text

theorem solid_of_mem_words {t w : Text} (h : w ∈ words t) : Solid w := by
  obtain ⟨hsplit, hne⟩ := mem_words_iff.1 h
  exact ⟨hne, fun _ hc => eq_false_of_mem_splitOnP hsplit hc⟩

end Text

namespace Delimiter

/-- A text without space and without an equals sign is a delimiter. -/
theorem exists_text_eq {t : Text} (hsolid : Text.Solid t) (hequals : '=' ∉ t) :
    ∃ d : Delimiter, d.text = t := by
  refine ⟨⟨t, hsolid.1, List.all_eq_true.2 ?_⟩, rfl⟩
  intro c hc
  have hne : c ≠ '=' := fun heq => hequals (heq ▸ hc)
  simp [allows, hsolid.2 c hc, hne]

end Delimiter

namespace Tag

/-- After its first equals sign a set-delimiter tag goes on with `content` up to the next equals
sign before the closing delimiter.  The text `rest` comes after the tag.  The content has two words,
`a` and `b`, and there is no equals sign in them. -/
structure Sets (closing t content rest a b : Text) : Prop where
  append : content ++ ('=' :: closing ++ rest) = t
  first : ∀ x y, x ++ y = t → x.length < content.length → ¬ '=' :: closing <+: y
  words : Text.words content = [a, b]
  left : '=' ∉ a
  right : '=' ∉ b

variable {d : Delimiters} {before t : Text} {r : Reading}

/-- A set-delimiter tag that is accepted puts its two words in force. -/
theorem exists_sets_of_readDelimiters (h : readDelimiters d before t = .ok r) :
    ∃ next : Delimiters, r.tag = .delimiters next ∧
      Sets d.closing.text t r.body r.rest next.opening.text next.closing.text := by
  simp only [readDelimiters] at h
  split at h
  · cases h
  · rename_i content rest hfind
    obtain ⟨happend, hfirst⟩ := (Text.splitAtFirst?_eq_some_iff (List.cons_ne_nil _ _)).1 hfind
    split at h
    · cases h
    · rename_i next hnext
      cases h
      exact ⟨next, rfl, happend, hfirst, Delimiters.ofContent?_eq_some_iff.1 hnext,
        next.opening.equals_not_mem_text, next.closing.equals_not_mem_text⟩

/-- A set-delimiter tag is accepted exactly if its content is two words without equals signs.  That
the words are not empty and hold no space need not be asked. -/
theorem readDelimiters_eq_ok_iff :
    (∃ r, readDelimiters d before t = .ok r) ↔
      ∃ content rest a b, Sets d.closing.text t content rest a b := by
  constructor
  · rintro ⟨r, h⟩
    obtain ⟨next, -, hsets⟩ := exists_sets_of_readDelimiters h
    exact ⟨_, _, _, _, hsets⟩
  · rintro ⟨content, rest, a, b, h⟩
    have hmem (w : Text) (hw : w ∈ [a, b]) : Text.Solid w :=
      Text.solid_of_mem_words (h.words.symm ▸ hw)
    obtain ⟨opening, rfl⟩ := Delimiter.exists_text_eq (hmem a (by simp)) h.left
    obtain ⟨closing, rfl⟩ := Delimiter.exists_text_eq (hmem b (by simp)) h.right
    have hfind : Text.splitAtFirst? ('=' :: d.closing.text) t = some (content, rest) :=
      (Text.splitAtFirst?_eq_some_iff (List.cons_ne_nil _ _)).2 ⟨h.append, h.first⟩
    have hnext : Delimiters.ofContent? content = some ⟨opening, closing⟩ :=
      Delimiters.ofContent?_eq_some_iff.2 h.words
    simp only [readDelimiters, hfind, hnext]
    exact ⟨_, rfl⟩

end Tag

/-! ## Steps -/

namespace Cursor

variable {c d : Cursor} {s : Step}

/-- The step over a set-delimiter tag. -/
theorem step_setDelimiters {before space t : Text} (hspace : Text.Spaces space)
    (hfind : Text.splitAtFirst? c.delimiters.opening.text c.rest =
      some (before, space ++ '=' :: t)) :
    ((∃ s, c.step = .ok (some s)) ↔
        ∃ content rest a b, Tag.Sets c.delimiters.closing.text t content rest a b) ∧
      ∀ s, c.step = .ok (some s) → s.tag = .delimiters s.next.delimiters ∧
        ∃ rest, Tag.Sets c.delimiters.closing.text t s.body rest
          s.next.delimiters.opening.text s.next.delimiters.closing.text := by
  have hread := Tag.read_append_cons (d := c.delimiters) hspace (c := '=') rfl
    (fun _ => by decide) t
  rw [if_neg (by decide), if_pos rfl] at hread
  have hstep (s : Step) : c.step = .ok (some s) ↔ ∃ r,
      Tag.readDelimiters c.delimiters (c.delimiters.opening.text ++ space ++ ['=']) t = .ok r ∧
        c.stepOver before r = s := by
    rw [step_eq_some_iff, hfind]
    constructor
    · rintro ⟨_, _, r, ⟨rfl, rfl⟩, hr, rfl⟩
      exact ⟨r, hread ▸ hr, rfl⟩
    · rintro ⟨r, hr, rfl⟩
      exact ⟨before, _, r, rfl, hread.trans hr, rfl⟩
  constructor
  · have haccepted : (∃ r, Tag.readDelimiters c.delimiters
        (c.delimiters.opening.text ++ space ++ ['=']) t = .ok r) ↔ _ :=
      Tag.readDelimiters_eq_ok_iff
    rw [← haccepted]
    constructor
    · rintro ⟨s, hs⟩
      obtain ⟨r, hr, -⟩ := (hstep s).1 hs
      exact ⟨r, hr⟩
    · rintro ⟨r, hr⟩
      exact ⟨_, (hstep _).2 ⟨r, hr, rfl⟩⟩
  · intro s hs
    obtain ⟨r, hr, rfl⟩ := (hstep s).1 hs
    obtain ⟨next, htag, hsets⟩ := Tag.exists_sets_of_readDelimiters hr
    have hnext : (c.stepOver before r).next.delimiters = next := by
      show r.tag.delimitersAfter c.delimiters = next
      rw [htag]
      rfl
    rw [hnext]
    exact ⟨htag, r.rest, hsets⟩

/-- Any other tag leaves the delimiters in force. -/
theorem delimiters_next_of_step (hs : c.step = .ok (some s))
    (htag : ∀ next, s.tag ≠ .delimiters next) : s.next.delimiters = c.delimiters := by
  obtain ⟨before, t, r, -, -, rfl⟩ := step_eq_some_iff.1 hs
  show r.tag.delimitersAfter c.delimiters = c.delimiters
  cases hr : r.tag with
  | delimiters next => exact absurd hr (htag next)
  | comment => rfl
  | named role => rfl

/-- A tag has both of its delimiters, one at either end. -/
theorem size_delimiters_le_lexeme (hs : c.step = .ok (some s)) :
    Text.size c.delimiters.opening.text + Text.size c.delimiters.closing.text ≤
      Text.size s.lexeme := by
  obtain ⟨before, t, r, -, hr, rfl⟩ := step_eq_some_iff.1 hs
  obtain ⟨⟨a, ha⟩, b, hb⟩ := Tag.ends_of_read hr
  have hbefore := congrArg Text.size ha
  have hafter := congrArg Text.size hb
  rw [Text.size_append] at hbefore hafter
  show _ ≤ Text.size (r.before ++ r.body ++ r.after)
  rw [Text.size_append, Text.size_append]
  omega

/-- A step moves on by at least the size of both delimiters. -/
theorem offset_add_le_of_step (hs : c.step = .ok (some s)) :
    c.offset + Text.size c.delimiters.opening.text + Text.size c.delimiters.closing.text ≤
      s.next.offset := by
  have hlexeme := size_delimiters_le_lexeme hs
  rw [offset_of_step hs, Step.pieces, Text.size_append, Text.size_append]
  omega

/-- A step from a place that was reached reaches the next one. -/
theorem Leads.next (h : c.Leads d) (hs : d.step = .ok (some s)) : c.Leads s.next := by
  induction h with
  | refl => exact .step hs (.refl _)
  | step hfirst _ ih => exact .step hfirst (ih hs)

theorem Leads.offset_le_size {source : Text} (h : (start source).Leads c) :
    c.offset ≤ Text.size source := by
  obtain ⟨passed, hfollows⟩ := h.exists_follows (follows_start source)
  rw [← hfollows.append, Text.size_append, hfollows.offset]
  exact Nat.le_add_right _ _

end Cursor

/-! ## The number of tokens -/

theorem Token.length_ofText_le (offset : Nat) (t : Text) :
    (ofText offset t).length ≤ Text.size t := by
  rw [ofText_eq]
  split
  · exact Nat.zero_le _
  · rename_i hne
    exact Nat.pos_of_ne_zero fun hzero => hne (Text.size_eq_zero_iff.1 hzero)

theorem Token.length_ofTag_le (offset : Nat) (s : Step) : (ofTag offset s).length ≤ 1 := by
  unfold ofTag
  split
  · exact Nat.le_refl 1
  · exact Nat.zero_le 1

/-- A template has at most as many tokens as bytes. -/
theorem Cursor.length_tokens_le (c : Cursor) : c.tokens.1.length ≤ Text.size c.rest := by
  cases hs : c.step with
  | error e =>
      rw [tokens_of_step_error hs]
      exact Nat.zero_le _
  | ok next =>
      cases next with
      | none =>
          rw [tokens_of_step_none hs]
          exact Token.length_ofText_le _ _
      | some s =>
          have hdecr : s.next.rest.length < c.rest.length := length_of_step hs
          have hmore := length_tokens_le s.next
          have htext := Token.length_ofText_le c.offset s.text
          have htag := Token.length_ofTag_le (c.offset + Text.size s.text + Text.size s.lead) s
          have hlexeme := size_delimiters_le_lexeme hs
          have hopening : Text.size c.delimiters.opening.text ≠ 0 :=
            fun hzero => c.delimiters.opening.nonempty (Text.size_eq_zero_iff.1 hzero)
          rw [tokens_of_step_some hs, ← append_of_step hs]
          simp only [Token.ofStep, Step.pieces, List.length_append, Text.size_append]
          omega
termination_by c.rest.length

/-! ## The stream -/

/-- What is kept between two tokens. -/
structure TokenStream where
  /-- The tokens of the last step that were not handed out yet. -/
  waiting : List Token
  /-- Where the next step begins.  There is no such place after an error, and none after the text at
  the end of the template. -/
  place : Option Cursor

namespace TokenStream

/-- The stream of a template. -/
def start (source : Text) : TokenStream :=
  ⟨[], some (.start source)⟩

/-- The next token, or the error that takes its place, or nothing; and what is kept after it. -/
def next (stream : TokenStream) : Option (Except Error Token) × TokenStream :=
  match stream with
  | ⟨token :: waiting, place⟩ => (some (.ok token), ⟨waiting, place⟩)
  | ⟨[], none⟩ => (none, ⟨[], none⟩)
  | ⟨[], some c⟩ =>
    match _h : c.step with
    | .error e => (some (.error e), ⟨[], none⟩)
    | .ok none => next ⟨Token.ofText c.offset c.rest, none⟩
    | .ok (some s) => next ⟨Token.ofStep c.offset s, some s.next⟩
termination_by stream.place.elim 0 fun c => c.rest.length + 1
decreasing_by
  · exact Nat.zero_lt_succ _
  · exact Nat.succ_lt_succ (Cursor.length_of_step _h)

/-- What is kept after so many questions. -/
def after (n : Nat) (stream : TokenStream) : TokenStream :=
  (fun stream => stream.next.2)^[n] stream

/-- The tokens that the stream still has to hand out, in order. -/
def tokens (stream : TokenStream) : List Token :=
  stream.waiting ++ stream.place.elim [] fun c => c.tokens.1

/-- The error that comes after them, if one does. -/
def fault (stream : TokenStream) : Option Error :=
  stream.place.bind fun c => c.tokens.2

/-- All that the stream still has to hand out, in order. -/
def remaining (stream : TokenStream) : List (Except Error Token) :=
  stream.tokens.map .ok ++ (stream.fault.map .error).toList

variable {stream : TokenStream} {c : Cursor}

/-- Where no token waits, a step does not change what remains: its tokens wait then. -/
theorem remaining_of_step_none (h : c.step = .ok none) :
    remaining ⟨[], some c⟩ = remaining ⟨Token.ofText c.offset c.rest, none⟩ := by
  simp [remaining, tokens, fault, Cursor.tokens_of_step_none h]

theorem remaining_of_step_some {s : Step} (h : c.step = .ok (some s)) :
    remaining ⟨[], some c⟩ = remaining ⟨Token.ofStep c.offset s, some s.next⟩ := by
  simp [remaining, tokens, fault, Cursor.tokens_of_step_some h]

/-- An answer is the first of all that remain, and the rest remains after it. -/
theorem next_eq (stream : TokenStream) :
    stream.next.1 = stream.remaining.head? ∧
      stream.next.2.remaining = stream.remaining.tail := by
  fun_induction next stream with
  | case1 token waiting place => exact ⟨rfl, rfl⟩
  | case2 => exact ⟨rfl, rfl⟩
  | case3 c e hs =>
      have hremaining : remaining ⟨[], some c⟩ = [.error e] := by
        simp [remaining, tokens, fault, Cursor.tokens_of_step_error hs]
      rw [hremaining]
      exact ⟨rfl, rfl⟩
  | case4 c hs ih =>
      rw [remaining_of_step_none hs]
      exact ih
  | case5 c s hs ih =>
      rw [remaining_of_step_some hs]
      exact ih

theorem after_succ (n : Nat) (stream : TokenStream) :
    stream.after (n + 1) = (stream.after n).next.2 :=
  Function.iterate_succ_apply' _ n stream

theorem remaining_after (n : Nat) (stream : TokenStream) :
    (stream.after n).remaining = stream.remaining.drop n := by
  induction n with
  | zero => rfl
  | succ n ih => rw [after_succ, (next_eq _).2, ih, List.tail_drop]

/-- The answers are what remains, in order, and then nothing. -/
theorem next_after (n : Nat) (stream : TokenStream) :
    (stream.after n).next.1 = stream.remaining[n]? := by
  rw [(next_eq _).1, remaining_after, List.head?_drop]

/-- Only the last of what remains can be an error. -/
theorem length_remaining_of_error {n : Nat} {e : Error}
    (h : stream.remaining[n]? = some (.error e)) : stream.remaining.length = n + 1 := by
  rw [remaining, List.getElem?_append] at h
  rw [remaining, List.length_append]
  split at h
  · rw [List.getElem?_map, Option.map_eq_some_iff] at h
    obtain ⟨token, -, htoken⟩ := h
    cases htoken
  · rename_i hlen
    rw [List.length_map] at h hlen ⊢
    cases hfault : stream.fault with
    | none =>
        rw [hfault] at h
        cases h
    | some fault =>
        rw [hfault] at h
        have hlast : n - stream.tokens.length < 1 := (List.getElem?_eq_some_iff.1 h).1
        show stream.tokens.length + 1 = n + 1
        omega

/-- Once the answer is an error, or nothing, there is nothing more. -/
theorem next_of_ended {n m : Nat} (hend : ∀ token, (stream.after n).next.1 ≠ some (.ok token))
    (hlt : n < m) : (stream.after m).next.1 = none := by
  rw [next_after] at hend ⊢
  rw [List.getElem?_eq_none_iff]
  cases hanswer : stream.remaining[n]? with
  | none =>
      have hlength := List.getElem?_eq_none_iff.1 hanswer
      omega
  | some answer =>
      cases answer with
      | ok token => exact absurd hanswer (hend token)
      | error e =>
          have hlength := length_remaining_of_error hanswer
          omega

/-- What every step keeps is kept by an answer, whichever steps it takes. -/
theorem place_next {P : Cursor → Prop}
    (hstep : ∀ {c s}, P c → c.step = .ok (some s) → P s.next) (stream : TokenStream)
    (h : ∀ c ∈ stream.place, P c) : ∀ c ∈ stream.next.2.place, P c := by
  fun_induction next stream with
  | case1 token waiting place => exact h
  | case2 => exact h
  | case3 c e hs => exact nofun
  | case4 c hs ih => exact ih nofun
  | case5 c s hs ih =>
      refine ih ?_
      rintro _ ⟨⟩
      exact hstep (h c rfl) hs

/-- Between two tokens the stream of a template stands where lexing gets to. -/
theorem leads_after (source : Text) (n : Nat) :
    ∀ c ∈ ((start source).after n).place, (Cursor.start source).Leads c := by
  induction n with
  | zero =>
      rintro _ ⟨⟩
      exact .refl _
  | succ n ih =>
      rw [after_succ]
      exact place_next Cursor.Leads.next _ ih

end TokenStream

/-! ## Progress -/

/-- In the template `source` lexing gets on from this place, and the delimiters in force there can
be found. -/
structure Cursor.Advances (c : Cursor) (source : Text) : Prop where
  /-- Neither delimiter is empty or holds space or an equals sign. -/
  delimiters : ∀ delimiter ∈ [c.delimiters.opening, c.delimiters.closing],
    Text.Solid delimiter.text ∧ '=' ∉ delimiter.text
  /-- A set-delimiter tag is accepted exactly if its content is two words without equals signs. -/
  accepts : ∀ before space t, Text.Spaces space →
    Text.splitAtFirst? c.delimiters.opening.text c.rest = some (before, space ++ '=' :: t) →
      ((∃ s, c.step = .ok (some s)) ↔
        ∃ content rest a b, Tag.Sets c.delimiters.closing.text t content rest a b) ∧
      ∀ s, c.step = .ok (some s) → s.tag = .delimiters s.next.delimiters ∧
        ∃ rest, Tag.Sets c.delimiters.closing.text t s.body rest
          s.next.delimiters.opening.text s.next.delimiters.closing.text
  /-- Any other tag leaves the delimiters in force. -/
  keeps : ∀ s, c.step = .ok (some s) → (∀ next, s.tag ≠ .delimiters next) →
    s.next.delimiters = c.delimiters
  /-- If there is no fault and a tag is left, the step moves on by the size of both delimiters. -/
  moves : ∀ s, c.step = .ok (some s) →
    c.offset + Text.size c.delimiters.opening.text + Text.size c.delimiters.closing.text ≤
        s.next.offset ∧ s.next.offset ≤ Text.size source

theorem Cursor.Leads.advances {c : Cursor} {source : Text} (h : (start source).Leads c) :
    c.Advances source where
  delimiters delimiter _ := ⟨delimiter.solid, delimiter.equals_not_mem_text⟩
  accepts _ _ _ hspace hfind := step_setDelimiters hspace hfind
  keeps _ hs htag := delimiters_next_of_step hs htag
  moves _ hs := ⟨offset_add_le_of_step hs, (h.next hs).offset_le_size⟩

/-- Lexing gets on, and its delimiters can always be found.  In every text it begins with two braces
on either side.  At every place that it gets to, the delimiters have characters, none of which is
space or an equals sign; only a set-delimiter tag changes them, and such a tag is accepted exactly
if its content is two words without equals signs; and a step over a tag takes at least as many bytes
as both delimiters have.  So a stream hands out no more than a text has bytes, and perhaps an error:
the tokens of the text, then the fault that ends them, and after that nothing for ever. -/
theorem TokenStream.progress (source : Text) :
    (Cursor.start source).delimiters = .braces ∧
      (∀ c, (Cursor.start source).Leads c → c.Advances source) ∧
      (∀ n, ∀ c ∈ ((start source).after n).place, (Cursor.start source).Leads c) ∧
      (∀ n, ((start source).after n).next.1 =
        ((Cursor.start source).tokens.1.map Except.ok ++
          ((Cursor.start source).tokens.2.map Except.error).toList)[n]?) ∧
      (∀ n, Text.size source < n → ((start source).after n).next.1 = none) ∧
      ∀ n m, (∀ token, ((start source).after n).next.1 ≠ some (.ok token)) → n < m →
        ((start source).after m).next.1 = none := by
  refine ⟨rfl, fun c h => h.advances, leads_after source, ?_, ?_, ?_⟩
  · intro n
    exact next_after n _
  · intro n hn
    have hcount : (Cursor.start source).tokens.1.length ≤ Text.size source :=
      Cursor.length_tokens_le _
    have hfault :
        ((start source).fault.map Except.error : Option (Except Error Token)).toList.length ≤ 1 :=
      Option.length_toList_le
    rw [next_after, List.getElem?_eq_none_iff, remaining, List.length_append, List.length_map]
    show (Cursor.start source).tokens.1.length + _ ≤ n
    omega
  · intro n m hend hlt
    exact next_of_ended hend hlt

end Mustache
