import Mustache.Proofs.Failures

/-!
# Streams with a limit

A stream takes bytes, and it need not take all that it is offered at once.  So a
limit can fall anywhere, in the middle of a character as well as between two
texts, and the write that meets it has to stop the rendering.  What stops it
inside is only that a text was refused, the fault being left beside the stream;
outside the fault is what has to be reported, and an error that has another cause
must not be taken for it.

An `Account` says what has become of a stream with a limit, and `Limited` is all
that is asked of such a stream: as long as there is room it takes some of what it
is offered, maybe after some interruptions, and after that it takes nothing, for a
fault that is always the same.  How much it takes at a time is its own affair.  A
computation settles an output with the stream if the account is as if the output had
been offered at once, and if the computation ends as the output does or, where that
was too much, with the fault beside the stream.  This goes piece by piece, so
rendering a template settles its output.

A stream that does nothing but interrupt its writer once it is full is the exception:
the writer never gets to report it.  Then rendering has no result.

## Main results

* `ByteStream.Limited.writeAll` — bytes that are offered until all are taken are
  taken up to the limit;
* `ByteStream.Limited.compositional` — outputs are settled piece by piece;
* `Template.stream_limited` — a template that is rendered to a stream with a limit.
-/

namespace Mustache

namespace ByteStream

/-! ## Accounts -/

/-- What has become of a stream with a limit. -/
structure Account where
  /-- The bytes that were taken. -/
  taken : List UInt8
  /-- How many more bytes will be taken. -/
  room : Nat
  /-- How many bytes had been taken at each flush, the latest first. -/
  flushes : List Nat
deriving DecidableEq, Repr

namespace Account

/-- The account after bytes were offered. -/
def offer (a : Account) (bytes : List UInt8) : Account :=
  { a with taken := a.taken ++ bytes.take a.room, room := a.room - bytes.length }

/-- The account after a flush. -/
def flush (a : Account) : Account :=
  { a with flushes := a.taken.length :: a.flushes }

@[simp] theorem offer_room (a : Account) (bytes : List UInt8) :
    (a.offer bytes).room = a.room - bytes.length := rfl

@[simp] theorem offer_nil (a : Account) : a.offer [] = a := by
  simp [offer]

theorem offer_of_room_eq_zero {a : Account} (h : a.room = 0) (bytes : List UInt8) :
    a.offer bytes = a := by
  obtain ⟨taken, room, flushes⟩ := a
  cases h
  simp [offer]

/-- Bytes may be offered in pieces. -/
theorem offer_append (a : Account) (xs ys : List UInt8) :
    a.offer (xs ++ ys) = (a.offer xs).offer ys := by
  simp [offer, List.take_append, Nat.sub_sub]

end Account

/-! ## Settling outputs -/

section Settling

variable {σ : Type} {keeps : σ → Account → Prop} {fault : Fault} {a : Account} {o o' : Output}
  {result : EStateM.Result Error (StreamSink σ) Unit}

/-- Where there is room for its text the output is taken and the computation ends as it does.  Where
there is not, as much is taken as there is room for, and the fault is left beside the stream; or the
stream stalls, if it interrupts its writer then. -/
structure Settles (keeps : σ → Account → Prop) (fault : Fault) (o : Output) (a : Account)
    (result : EStateM.Result Error (StreamSink σ) Unit) : Prop where
  fits : o.text.bytes.length ≤ a.room → outcome result = o.outcome ∧
    (sinkAfter result).trouble = none ∧ keeps (sinkAfter result).stream (a.offer o.text.bytes)
  fails : a.room < o.text.bytes.length → fault.kind ≠ .interrupted →
    outcome result = .error (.placeless .refusedOutput) ∧
      (sinkAfter result).trouble = some (.failed fault) ∧
      keeps (sinkAfter result).stream (a.offer o.text.bytes)
  stalls : a.room < o.text.bytes.length → fault.kind = .interrupted →
    outcome result = .error (.placeless .refusedOutput) ∧
      (sinkAfter result).trouble = some .stalled

theorem Settles.outcome_of_full (h : Settles keeps fault o a result)
    (hfull : a.room < o.text.bytes.length) :
    outcome result = .error (.placeless .refusedOutput) := by
  by_cases hkind : fault.kind = .interrupted
  · exact (h.stalls hfull hkind).1
  · exact (h.fails hfull hkind).1

/-- After an output that was not taken whole nothing is taken. -/
theorem Settles.append_of_full (h : Settles keeps fault o a result)
    (hfull : a.room < o.text.bytes.length) : Settles keeps fault (o ++ o') a result := by
  cases herror : o.error? with
  | some e => rwa [Output.append_of_error?_eq_some herror]
  | none =>
      rw [Output.append_of_error?_eq_none herror]
      have hroom : (a.offer o.text.bytes).room = 0 := Nat.sub_eq_zero_of_le (Nat.le_of_lt hfull)
      have hoffer : a.offer (o.text ++ o'.text).bytes = a.offer o.text.bytes := by
        rw [Text.bytes_append, Account.offer_append, Account.offer_of_room_eq_zero hroom]
      have hlength : a.room < (o.text ++ o'.text).bytes.length := by
        rw [Text.bytes_append, List.length_append]
        exact Nat.lt_add_right _ hfull
      refine ⟨fun hfits => absurd hfits (Nat.not_le_of_lt hlength), fun _ hkind => ?_,
        fun _ => h.stalls hfull⟩
      rw [hoffer]
      exact h.fails hfull hkind

/-- After an output that was taken whole there is so much less room for the next one. -/
theorem Settles.append_of_fits (hfits : o.text.bytes.length ≤ a.room) (herror : o.error? = none)
    (h : Settles keeps fault o' (a.offer o.text.bytes) result) :
    Settles keeps fault (o ++ o') a result := by
  rw [Output.append_of_error?_eq_none herror]
  have hoffer : a.offer (o.text ++ o'.text).bytes =
      (a.offer o.text.bytes).offer o'.text.bytes := by
    rw [Text.bytes_append, Account.offer_append]
  have hle : (o.text ++ o'.text).bytes.length ≤ a.room ↔
      o'.text.bytes.length ≤ (a.offer o.text.bytes).room := by
    rw [Text.bytes_append, List.length_append, Account.offer_room]
    omega
  have hlt : a.room < (o.text ++ o'.text).bytes.length ↔
      (a.offer o.text.bytes).room < o'.text.bytes.length := by
    rw [← Nat.not_le, ← Nat.not_le, hle]
  constructor
  · rw [hle, hoffer]
    exact h.fits
  · rw [hlt, hoffer]
    exact h.fails
  · rw [hlt]
    exact h.stalls

end Settling

/-! ## Streams with a limit -/

variable {σ : Type} [ByteStream σ]

/-- After finitely many interruptions the stream gives this answer to the bytes. -/
inductive Answers (bytes : List UInt8) (answer : Except Fault Nat) : σ → σ → Prop
  | now {s s' : σ} : ByteStream.write bytes s = (answer, s') → Answers bytes answer s s'
  | later {s s' s'' : σ} {fault : Fault} : ByteStream.write bytes s = (.error fault, s') →
    fault.kind = .interrupted → Answers bytes answer s' s'' → Answers bytes answer s s''

/-- Interruptions make no difference to a writer. -/
theorem Answers.writeAll_eq {bytes : List UInt8} (hne : bytes ≠ []) {n : Nat} {s s' : σ}
    (h : Answers bytes (.ok (n + 1)) s s') :
    writeAll bytes s = writeAll (bytes.drop (n + 1)) s' := by
  induction h with
  | now hwrite => rw [writeAll_of_ne_nil hne, hwrite]
  | later hwrite hkind _ ih =>
      rw [writeAll_of_ne_nil hne, hwrite]
      simp only [if_pos hkind]
      exact ih

/-- In states that keep an account, the stream takes bytes as long as there is room in the account,
and then takes none, for the fault that is given. -/
structure Limited (keeps : σ → Account → Prop) (fault : Fault) : Prop where
  /-- It may take fewer bytes than there is room for. -/
  takes {s : σ} {a : Account} : keeps s a → a.room ≠ 0 → ∀ bytes, bytes ≠ [] →
    ∃ n s', Answers bytes (.ok n) s s' ∧ n ≠ 0 ∧ n ≤ bytes.length ∧ n ≤ a.room ∧
      keeps s' (a.offer (bytes.take n))
  /-- A stream that takes nothing without a fault has the fault of incomplete writes. -/
  refuses {s : σ} {a : Account} : keeps s a → a.room = 0 → ∀ bytes, bytes ≠ [] →
    ∃ s', keeps s' a ∧ (ByteStream.write bytes s = (.error fault, s') ∨
      ByteStream.write bytes s = (.ok 0, s') ∧ fault = incomplete)
  /-- Flushing may fail, for any fault. -/
  flushes {s : σ} {a : Account} : keeps s a → keeps (ByteStream.flush s).2 a.flush

namespace Limited

variable {keeps : σ → Account → Prop} {fault : Fault}

/-- What comes of offering bytes to a stream that is full. -/
theorem writeAll_of_full (h : Limited keeps fault) {s : σ} {a : Account} (hs : keeps s a)
    (hroom : a.room = 0) {bytes : List UInt8} (hne : bytes ≠ []) :
    ∃ s', keeps s' a ∧ ByteStream.writeAll bytes s =
      if fault.kind = .interrupted then none else some (.error fault, s') := by
  by_cases hkind : fault.kind = .interrupted
  · have hnever : ByteStream.writeAll bytes s = none := by
      refine writeAll_eq_none hne (fun s => keeps s a) (fun s hs => ?_) hs
      obtain ⟨s', hs', hwrite | ⟨-, rfl⟩⟩ := h.refuses hs hroom bytes hne
      · exact ⟨fault, s', hwrite, hkind, hs'⟩
      · cases hkind
    exact ⟨s, hs, by rw [if_pos hkind, hnever]⟩
  · obtain ⟨s', hs', hwrite⟩ := h.refuses hs hroom bytes hne
    refine ⟨s', hs', ?_⟩
    rw [if_neg hkind, writeAll_of_ne_nil hne]
    rcases hwrite with hwrite | ⟨hwrite, rfl⟩
    · rw [hwrite]
      exact if_neg hkind
    · rw [hwrite]

/-- Bytes that are offered until all of them are taken are taken up to the limit. -/
theorem writeAll (h : Limited keeps fault) (bytes : List UInt8) {s : σ} {a : Account}
    (hs : keeps s a) :
    ∃ s', keeps s' (a.offer bytes) ∧ ByteStream.writeAll bytes s =
      if bytes.length ≤ a.room then some (.ok (), s')
      else if fault.kind = .interrupted then none else some (.error fault, s') := by
  -- The stream takes at least one byte at a time, so fewer bytes are offered next.
  induction hn : bytes.length using Nat.strongRecOn generalizing bytes s a with
  | ind length ih =>
      subst hn
      by_cases hne : bytes = []
      · refine ⟨s, by rwa [hne, Account.offer_nil], ?_⟩
        rw [hne, writeAll_nil]
        exact (if_pos (Nat.zero_le _)).symm
      · have hpos : 0 < bytes.length := List.length_pos_iff.2 hne
        by_cases hroom : a.room = 0
        · obtain ⟨s', hs', hwrite⟩ := h.writeAll_of_full hs hroom hne
          have hfull : ¬ bytes.length ≤ a.room := by omega
          refine ⟨s', by rwa [Account.offer_of_room_eq_zero hroom], ?_⟩
          rw [if_neg hfull]
          exact hwrite
        · obtain ⟨n, s', hanswers, htaken, hlength, hle, hs'⟩ := h.takes hs hroom bytes hne
          obtain ⟨n, rfl⟩ := Nat.exists_eq_succ_of_ne_zero htaken
          have hless : (bytes.drop (n + 1)).length < bytes.length := by
            rw [List.length_drop]
            omega
          obtain ⟨s'', hs'', hrest⟩ := ih _ hless (bytes.drop (n + 1)) hs' rfl
          -- What was taken and what is offered next make up the bytes.
          rw [← Account.offer_append, List.take_append_drop] at hs''
          have hfits : (bytes.drop (n + 1)).length ≤ (a.offer (bytes.take (n + 1))).room ↔
              bytes.length ≤ a.room := by
            rw [Account.offer_room, List.length_drop, List.length_take]
            omega
          refine ⟨s'', hs'', ?_⟩
          rw [hanswers.writeAll_eq hne, hrest]
          simp only [hfits]

/-- Writing a text settles it. -/
theorem settles_writeText (h : Limited keeps fault) (t : Text) {s : StreamSink σ} {a : Account}
    (hs : keeps s.stream a) (htrouble : s.trouble = none) :
    Settles keeps fault (.ofText t) a (writeText t s) := by
  obtain ⟨stream, trouble⟩ := s
  cases htrouble
  obtain ⟨stream', hstream', hwrite⟩ := h.writeAll t.bytes hs
  by_cases hfits : t.bytes.length ≤ a.room
  · have hresult : writeText t (⟨stream, none⟩ : StreamSink σ) = .ok () ⟨stream', none⟩ := by
      simp only [writeText, Sink.write, hwrite, if_pos hfits]
    rw [hresult]
    exact ⟨fun _ => ⟨rfl, rfl, hstream'⟩, fun hfull => absurd hfits (Nat.not_le_of_lt hfull),
      fun hfull => absurd hfits (Nat.not_le_of_lt hfull)⟩
  · by_cases hkind : fault.kind = .interrupted
    · have hresult : writeText t (⟨stream, none⟩ : StreamSink σ) =
          .error (.placeless .refusedOutput) ⟨stream, some .stalled⟩ := by
        simp only [writeText, Sink.write, hwrite, if_neg hfits, if_pos hkind]
      rw [hresult]
      exact ⟨fun hle => absurd hle hfits, fun _ hne => absurd hkind hne, fun _ _ => ⟨rfl, rfl⟩⟩
    · have hresult : writeText t (⟨stream, none⟩ : StreamSink σ) =
          .error (.placeless .refusedOutput) ⟨stream', some (.failed fault)⟩ := by
        simp only [writeText, Sink.write, hwrite, if_neg hfits, if_neg hkind]
      rw [hresult]
      exact ⟨fun hle => absurd hle hfits, fun _ _ => ⟨rfl, rfl, hstream'⟩,
        fun _ heq => absurd heq hkind⟩

/-- Outputs are settled piece by piece. -/
theorem compositional (h : Limited keeps fault) :
    Output.Compositional fun (m : RenderM (StreamSink σ) Unit) o =>
      ∀ s a, keeps s.stream a → s.trouble = none → Settles keeps fault o a (m s) where
  nothing s a hs htrouble :=
    ⟨fun _ => ⟨rfl, htrouble, by rwa [← a.offer_nil] at hs⟩, nofun, nofun⟩
  ofText t _ _ hs htrouble := h.settles_writeText t hs htrouble
  ofError e s a hs htrouble :=
    ⟨fun _ => ⟨rfl, htrouble, by rwa [← a.offer_nil] at hs⟩, nofun, nofun⟩
  append := by
    intro m m' o o' hm hm' s a hs htrouble
    have hsettles := hm s a hs htrouble
    by_cases hfits : o.text.bytes.length ≤ a.room
    · obtain ⟨hend, htrouble', hkeeps⟩ := hsettles.fits hfits
      cases herror : o.error? with
      | none =>
          rw [seq_eq_of_ok (hend.trans (Output.outcome_eq_ok_iff.2 herror))]
          exact .append_of_fits hfits herror (hm' _ _ hkeeps htrouble')
      | some e =>
          rw [seq_eq_of_error (hend.trans (Output.outcome_eq_error_iff.2 herror)),
            Output.append_of_error?_eq_some herror]
          exact hsettles
    · have hfull : a.room < o.text.bytes.length := Nat.lt_of_not_le hfits
      rw [seq_eq_of_error (hsettles.outcome_of_full hfull)]
      exact hsettles.append_of_full hfull

end Limited

end ByteStream

/-! ## Streams in memory -/

namespace BoundedStream

/-- The account of a stream in memory that has this fault when it is full. -/
structure Keeps (fault : Fault) (s : BoundedStream) (a : ByteStream.Account) : Prop where
  taken : s.bytes = a.taken
  room : s.room = some a.room
  flushes : s.flushes = a.flushes
  full : s.full.getD ByteStream.incomplete = fault

theorem write_of_room {s : BoundedStream} {room : Nat} (h : s.room = some room)
    {bytes : List UInt8} (hne : min bytes.length room ≠ 0) :
    ByteStream.write bytes s =
      (.ok (min bytes.length room), s.take (min bytes.length room) bytes) := by
  obtain ⟨taken, _, full, unflushed, flushes⟩ := s
  cases h
  cases full with
  | none => rfl
  | some fault => exact if_neg fun hzero => hne hzero.1

theorem write_of_full {s : BoundedStream} (h : s.room = some 0) {bytes : List UInt8}
    (hne : bytes ≠ []) :
    ByteStream.write bytes s = (s.full.elim (.ok 0) .error, s) := by
  obtain ⟨taken, _, full, unflushed, flushes⟩ := s
  cases h
  cases full with
  | none =>
      show (Except.ok (min bytes.length 0), BoundedStream.take _ (min bytes.length 0) bytes) = _
      rw [Nat.min_zero]
      rfl
  | some fault => exact if_pos ⟨Nat.min_zero _, hne⟩

theorem Keeps.take {fault : Fault} {s : BoundedStream} {a : ByteStream.Account}
    (h : Keeps fault s a) {bytes : List UInt8} {n : Nat} (hlength : n ≤ bytes.length)
    (hroom : n ≤ a.room) : Keeps fault (s.take n bytes) (a.offer (bytes.take n)) where
  taken := by
    show ((bytes.take n).reverse ++ s.taken).reverse = a.taken ++ (bytes.take n).take a.room
    rw [List.reverse_append, List.reverse_reverse, List.take_take, Nat.min_eq_right hroom,
      ← h.taken, BoundedStream.bytes]
  room := by
    show s.room.map (· - n) = some (a.room - (bytes.take n).length)
    rw [h.room, Option.map_some, List.length_take, Nat.min_eq_left hlength]
  flushes := h.flushes
  full := h.full

/-- A stream in memory is a stream with a limit. -/
theorem limited (fault : Fault) : ByteStream.Limited (Keeps fault) fault where
  takes := by
    intro s a hs hroom bytes hne
    have hlength : bytes.length ≠ 0 := fun hzero => hne (List.length_eq_zero_iff.1 hzero)
    have hpos : min bytes.length a.room ≠ 0 := by omega
    have hle : min bytes.length a.room ≤ bytes.length := Nat.min_le_left _ _
    have hle' : min bytes.length a.room ≤ a.room := Nat.min_le_right _ _
    exact ⟨_, _, .now (write_of_room hs.room hpos), hpos, hle, hle', hs.take hle hle'⟩
  refuses := by
    intro s a hs hroom bytes hne
    have hfull := write_of_full (hroom ▸ hs.room) hne
    refine ⟨s, hs, ?_⟩
    have hfault := hs.full
    cases h : s.full with
    | none =>
        rw [h] at hfull hfault
        exact .inr ⟨hfull, hfault.symm⟩
    | some fault' =>
        rw [h] at hfull hfault
        obtain rfl : fault' = fault := hfault
        exact .inl hfull
  flushes := by
    intro s a hs
    have hlength : s.taken.length = a.taken.length := by
      rw [← hs.taken, BoundedStream.bytes, List.length_reverse]
    refine ⟨hs.taken, hs.room, ?_, hs.full⟩
    show s.taken.length :: s.flushes = a.taken.length :: a.flushes
    rw [hlength, hs.flushes]

end BoundedStream

/-! ## Templates -/

namespace Template

section Ends

variable {σ : Type} [ByteStream σ] {τ : Type} [Partials τ] {t : Template} {partials : τ}
  {options : Options} {v : Value} {s : σ} {result : EStateM.Result Error (StreamSink σ) Unit}

/-- A stream that took everything is flushed. -/
theorem stream_of_ok (h : t.renderTo partials options v (StreamSink.mk s none) = result)
    (hend : outcome result = .ok ()) {answer : Except Fault Unit} {s' : σ}
    (hflush : ByteStream.flush (sinkAfter result).stream = (answer, s')) :
    (answer = .ok () → t.stream partials options v s = some (.ok () s')) ∧
      ∀ fault, answer = .error fault →
        t.stream partials options v s = some (.error (.placeless (.brokenStream fault)) s') := by
  cases result with
  | error e sink => cases hend
  | ok u sink =>
      simp only [sinkAfter] at hflush
      constructor
      · rintro rfl
        simp only [stream, h, hflush]
      · rintro fault rfl
        simp only [stream, h, hflush]

/-- Where a text was refused, the fault beside the stream is reported. -/
theorem stream_of_failed (h : t.renderTo partials options v (StreamSink.mk s none) = result)
    {fault : Fault} (hend : outcome result = .error (.placeless .refusedOutput))
    (htrouble : (sinkAfter result).trouble = some (.failed fault)) :
    t.stream partials options v s =
      some (.error (.placeless (.brokenStream fault)) (sinkAfter result).stream) := by
  rw [stream, h]
  cases result with
  | ok u sink => cases hend
  | error e sink =>
      cases hend
      simp only [sinkAfter] at htrouble ⊢
      rw [htrouble]
      rfl

/-- A stream that stalls keeps the rendering from coming to an end. -/
theorem stream_of_stalled (h : t.renderTo partials options v (StreamSink.mk s none) = result)
    {e : Error} (hend : outcome result = .error e)
    (htrouble : (sinkAfter result).trouble = some .stalled) :
    t.stream partials options v s = none := by
  rw [stream, h]
  cases result with
  | ok u sink => cases hend
  | error e sink =>
      simp only [sinkAfter] at htrouble ⊢
      rw [htrouble]

/-- An error without trouble is reported as it is. -/
theorem stream_of_error (h : t.renderTo partials options v (StreamSink.mk s none) = result)
    {e : Error} (hend : outcome result = .error e) (htrouble : (sinkAfter result).trouble = none) :
    t.stream partials options v s = some (.error e (sinkAfter result).stream) := by
  rw [stream, h]
  cases result with
  | ok u sink => cases hend
  | error e' sink =>
      cases hend
      simp only [sinkAfter] at htrouble ⊢
      rw [htrouble]

/-- Of a settled output only what the output itself reports can be that it was refused. -/
theorem cause_ne_refusedOutput_of_stream
    (h : t.renderTo partials options v (StreamSink.mk s none) = result)
    {keeps : σ → ByteStream.Account → Prop} {fault : Fault} {a : ByteStream.Account} {o : Output}
    (hsettles : ByteStream.Settles keeps fault o a result)
    (hfails : o.FailsOnly fun e => e.cause ≠ .refusedOutput) {e : Error} {done : σ}
    (he : t.stream partials options v s = some (.error e done)) : e.cause ≠ .refusedOutput := by
  rcases Nat.lt_or_ge a.room o.text.bytes.length with hlt | hfits
  · by_cases hkind : fault.kind = .interrupted
    · obtain ⟨hend, htrouble⟩ := hsettles.stalls hlt hkind
      rw [stream_of_stalled h hend htrouble] at he
      cases he
    · obtain ⟨hend, htrouble, -⟩ := hsettles.fails hlt hkind
      rw [stream_of_failed h hend htrouble] at he
      cases he
      nofun
  · obtain ⟨hend, htrouble, -⟩ := hsettles.fits hfits
    cases ho : o.outcome with
    | error e' =>
        rw [stream_of_error h (hend.trans ho) htrouble] at he
        cases he
        exact hfails e (Output.outcome_eq_error_iff.1 ho)
    | ok u =>
        rcases hflush : ByteStream.flush (sinkAfter result).stream with ⟨answer, s'⟩
        obtain ⟨hflushed, hunflushed⟩ := stream_of_ok h (hend.trans ho) hflush
        cases answer with
        | ok u =>
            rw [hflushed rfl] at he
            cases he
        | error fault' =>
            rw [hunflushed fault' rfl] at he
            cases he
            nofun

end Ends

end Template

/-- A template that is rendered to a stream with a limit sends it the bytes of its whole output as
far as there is room for them.  If there is not enough, the stream's fault is reported, provided
that it is no interruption: a stream that interrupts every write keeps the rendering from ever coming
to an end.  If there is enough room, an error of the rendering is reported as it is, and the stream is
flushed if there is none, once, after all of the output; then what is reported is whether that
failed, and for which fault.  That output was refused is not reported unless the escaper refuses
it. -/
theorem Template.stream_limited {σ : Type} [ByteStream σ]
    {keeps : σ → ByteStream.Account → Prop} {fault : Fault}
    (h : ByteStream.Limited keeps fault) {s : σ} {a : ByteStream.Account} (hs : keeps s a)
    {τ : Type} [Partials τ] (t : Template) (partials : τ) (options : Options) (v : Value) :
    let full := t.renderTo partials options v (TextSink.empty none)
    let bytes := (sinkAfter full).text.bytes
    let run := t.stream partials options v s
    (a.room < bytes.length → fault.kind ≠ .interrupted → ∃ done, keeps done (a.offer bytes) ∧
      run = some (.error (.placeless (.brokenStream fault)) done)) ∧
    (a.room < bytes.length → fault.kind = .interrupted → run = none) ∧
    (bytes.length ≤ a.room → ∃ done, keeps done (a.offer bytes) ∧
      (∀ e, outcome full = .error e → run = some (.error e done)) ∧
      (outcome full = .ok () → ∀ answer flushed, ByteStream.flush done = (answer, flushed) →
        keeps flushed (a.offer bytes).flush ∧
          (answer = .ok () → run = some (.ok () flushed)) ∧
          ∀ fault', answer = .error fault' →
            run = some (.error (.placeless (.brokenStream fault')) flushed))) ∧
    ((∀ text, (options.escaper text).accepted = true) →
      ∀ e done, run = some (.error e done) → e.cause ≠ .refusedOutput) := by
  intro full bytes run
  have hfull : full = (t.output partials options v).emit (TextSink.empty none) := by
    rw [← renderTo_eq_emit]
  obtain ⟨hend, htext⟩ := (t.output partials options v).emit_unbounded
  rw [← hfull] at hend htext
  have hsettles := h.compositional.renderTo t partials options v ⟨s, none⟩ a hs rfl
  have hfailure := t.failsOnly_output partials options v
  generalize t.output partials options v = o at hend htext hsettles hfailure
  have hbytes : bytes = o.text.bytes := congrArg Text.bytes htext
  rw [hend, hbytes]
  generalize hresult : t.renderTo partials options v (StreamSink.mk s none) = result at hsettles
  refine ⟨?_, ?_, ?_, ?_⟩
  · intro hlt hkind
    obtain ⟨hend', htrouble, hkeeps⟩ := hsettles.fails hlt hkind
    exact ⟨_, hkeeps, stream_of_failed hresult hend' htrouble⟩
  · intro hlt hkind
    obtain ⟨hend', htrouble⟩ := hsettles.stalls hlt hkind
    exact stream_of_stalled hresult hend' htrouble
  · intro hfits
    obtain ⟨hend', htrouble, hkeeps⟩ := hsettles.fits hfits
    refine ⟨_, hkeeps, fun e he => stream_of_error hresult (hend'.trans he) htrouble, ?_⟩
    intro hok answer flushed hflush
    have hflushed := h.flushes hkeeps
    rw [hflush] at hflushed
    exact ⟨hflushed, stream_of_ok hresult (hend'.trans hok) hflush⟩
  · intro haccepts e done
    exact cause_ne_refusedOutput_of_stream hresult hsettles
      fun e he => (hfailure e he).cause_ne_refusedOutput haccepts

/-- A stream with room for five bytes, and an output whose last character is cut by that. -/
theorem Template.stream_limited_of_boundedStream :
    let t : Template := ⟨"{{x}}é".toList,
      [.interpolation ⟨['x'], []⟩ true, .literal ⟨5, 2⟩], by cbv⟩
    let v : Value := .ofData (.map .direct [(.text ['x'], .text ['<'])] none)
    let fault : Fault := ⟨.other, ['!']⟩
    let run := t.stream NoPartials.mk {} v (⟨[], some 5, some fault, none, []⟩ : BoundedStream)
    ∃ done : BoundedStream, run = some (.error (.placeless (.brokenStream fault)) done) ∧
      done.bytes = [38, 108, 116, 59, 195] ∧ done.flushes = [] ∧
      ∀ e done, run = some (.error e done) → e.cause ≠ .refusedOutput := by
  intro t v fault run
  have hs : BoundedStream.Keeps fault (⟨[], some 5, some fault, none, []⟩ : BoundedStream)
      ⟨[], 5, []⟩ := ⟨rfl, rfl, rfl, rfl⟩
  obtain ⟨hbroken, -, -, hcause⟩ :=
    stream_limited (BoundedStream.limited fault) hs t NoPartials.mk {} v
  have hbytes : (sinkAfter (t.renderTo NoPartials.mk {} v (TextSink.empty none))).text.bytes =
      [38, 108, 116, 59, 195, 169] := by cbv
  rw [hbytes] at hbroken
  obtain ⟨done, hkeeps, hrun⟩ := hbroken (by decide) (by decide)
  exact ⟨done, hrun, hkeeps.taken, hkeeps.flushes, hcause fun _ => rfl⟩

/-- A stream with room for one byte that is interrupted from then on, and an output of two: there is
no result, and so no report of the fault. -/
theorem Template.stream_eq_none_of_interruptions :
    let t : Template := ⟨"ab".toList, [.literal ⟨0, 2⟩], by cbv⟩
    let fault : Fault := ⟨.interrupted, ['!']⟩
    let s : BoundedStream := ⟨[], some 1, some fault, none, []⟩
    let full := t.renderTo NoPartials.mk {} .null (TextSink.empty none)
    let run := t.stream NoPartials.mk {} .null s
    outcome full = .ok () ∧ (sinkAfter full).text.bytes = [97, 98] ∧ run = none ∧
      ∀ done, run ≠ some (.error (.placeless (.brokenStream fault)) done) := by
  intro t fault s full run
  have hs : BoundedStream.Keeps fault s ⟨[], 1, []⟩ := ⟨rfl, rfl, rfl, rfl⟩
  have houtput : t.output NoPartials.mk {} .null = .ofText ['a', 'b'] := by cbv
  have hsettles := (BoundedStream.limited fault).compositional.renderTo t NoPartials.mk {} .null
    ⟨s, none⟩ _ hs rfl
  rw [houtput] at hsettles
  obtain ⟨hend, htrouble⟩ := hsettles.stalls (by decide) rfl
  have hrun : run = none := stream_of_stalled rfl hend htrouble
  refine ⟨by cbv, by cbv, hrun, fun done heq => ?_⟩
  rw [hrun] at heq
  cases heq

end Mustache
