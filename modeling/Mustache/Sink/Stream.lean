import Mustache.Error
import Mustache.Sink

/-!
# Streams of bytes

A stream is what the outside world offers: it takes some of the bytes that it is
offered and says how many, or it fails, and it wants to be flushed when all is
written. `StreamSink` makes a sink of it. A text is offered as its bytes in UTF-8,
again and again until the stream has taken all of them, and the fault that ends
this is kept beside the stream, because all that rendering learns about it is that
the text was refused.

An interruption is no such fault: whoever is interrupted tries again. A stream that
is interrupted every time therefore keeps a writer busy for ever. So `writeAll` may
have no result, and a sink whose stream did that is marked as stalled. It answers
as if the text had been refused, which ends the rendering; that there is no answer in
fact is for those to say who rendered to a stream.

`BoundedStream` is a stream in memory with a limit.

## Main results

* `writeAll_nil`, `writeAll_of_ne_nil` — what is done with no bytes, and with some;
* `writeAll_eq_none` — writing to a stream that is interrupted every time never
  comes to an end.
-/

namespace Mustache

/-- A state that bytes can be written to. -/
class ByteStream (σ : Type) where
  /-- Offers bytes; the answer is how many of them were taken, or why none was. -/
  write : List UInt8 → StateM σ (Except Fault Nat)
  /-- Has everything that was taken passed on. -/
  flush : StateM σ (Except Fault Unit)

namespace ByteStream

/-- The fault of a stream that takes none of the bytes that it is offered. -/
def incomplete : Fault :=
  ⟨.writeZero, "failed to write whole buffer".toList⟩

section

variable {σ : Type} [ByteStream σ]

/-- One turn of writing, with the bytes that are left: there are bytes for a next turn, or there is
a result. Interrupted bytes are for the next turn again. -/
def attempt (bytes : List UInt8) (s : σ) : (List UInt8 × σ) ⊕ (Except Fault Unit × σ) :=
  if bytes = [] then .inr (.ok (), s)
  else
    match ByteStream.write bytes s with
    | (.error fault, s) =>
      if fault.kind = .interrupted then .inl (bytes, s) else .inr (.error fault, s)
    | (.ok 0, s) => .inr (.error incomplete, s)
    | (.ok (n + 1), s) => .inl (bytes.drop (n + 1), s)

/-- Takes turns at writing until there is a result. There is none if this goes on for ever. -/
def writeAll (bytes : List UInt8) (s : σ) : Option (Except Fault Unit × σ) :=
  match attempt bytes s with
  | .inr result => some result
  -- A call in a term carries its place in the file along with it, and this one does not.
  | .inl (bytes, s) => by
    apply writeAll
    · exact bytes
    · exact s
partial_fixpoint

@[simp] theorem writeAll_nil (s : σ) : writeAll [] s = some (.ok (), s) := by
  rw [writeAll, attempt, if_pos rfl]

theorem writeAll_of_ne_nil {bytes : List UInt8} (h : bytes ≠ []) (s : σ) :
    writeAll bytes s =
      match ByteStream.write bytes s with
      | (.error fault, s) =>
        if fault.kind = .interrupted then writeAll bytes s else some (.error fault, s)
      | (.ok 0, s) => some (.error incomplete, s)
      | (.ok (n + 1), s) => writeAll (bytes.drop (n + 1)) s := by
  rw [writeAll, attempt, if_neg h]
  rcases ByteStream.write bytes s with ⟨fault | _ | n, s⟩
  · by_cases hkind : fault.kind = .interrupted
    · simp only [if_pos hkind]
    · simp only [if_neg hkind]
  · rfl
  · rfl

/-- Where some bytes bring nothing but interruptions, and the stream to states in which this is so
again, writing them never comes to an end. -/
theorem writeAll_eq_none {bytes : List UInt8} (hne : bytes ≠ []) (interrupts : σ → Prop)
    (h : ∀ s, interrupts s → ∃ fault s', ByteStream.write bytes s = (.error fault, s') ∧
      fault.kind = .interrupted ∧ interrupts s') {s : σ} (hs : interrupts s) :
    writeAll bytes s = none := by
  -- Whatever there is for a result comes of finitely many attempts, and none of them leads out.
  have hnever (bytes' : List UInt8) (s : σ) (r : Except Fault Unit × σ)
      (hr : writeAll bytes' s = some r) : bytes' = bytes → ¬ interrupts s := by
    refine writeAll.partial_correctness (fun bytes' s _ => bytes' = bytes → ¬ interrupts s) ?_
      bytes' s r hr
    rintro writeAll ih _ s r hr rfl hs
    obtain ⟨fault, s', hwrite, hfault, hs'⟩ := h s hs
    simp only [attempt, if_neg hne, hwrite, if_pos hfault] at hr
    exact ih _ _ _ hr rfl hs'
  cases hresult : writeAll bytes s with
  | none => rfl
  | some r => exact absurd hs (hnever bytes s r hresult rfl)

end

end ByteStream

/-- What became of a stream that does not take a text. -/
inductive Trouble
  /-- It failed. -/
  | failed (fault : Fault)
  /-- Writing to it never came to an end. -/
  | stalled
deriving DecidableEq, Repr

/-- A stream as a sink, with its last trouble. -/
structure StreamSink (σ : Type) where
  stream : σ
  trouble : Option Trouble

namespace StreamSink

instance {σ : Type} [ByteStream σ] : Sink (StreamSink σ) where
  write t s :=
    match ByteStream.writeAll t.bytes s.stream with
    | some (.ok (), stream) => (true, { s with stream })
    | some (.error fault, stream) => (false, ⟨stream, some (.failed fault)⟩)
    | none => (false, { s with trouble := some .stalled })

end StreamSink

/-! ## A stream in memory -/

/-- A stream that keeps the bytes that it takes. -/
structure BoundedStream where
  /-- The bytes that were taken, the latest first. -/
  taken : List UInt8
  /-- How many more bytes may be taken, if there is a limit. -/
  room : Option Nat
  /-- Why bytes are not taken when there is no room; if nothing is given, none is taken. -/
  full : Option Fault
  /-- Why flushing fails, if it does. -/
  unflushed : Option Fault
  /-- How many bytes had been taken at each flush, the latest first. -/
  flushes : List Nat
deriving DecidableEq, Repr

namespace BoundedStream

/-- The bytes in a stream. -/
def bytes (s : BoundedStream) : List UInt8 :=
  s.taken.reverse

/-- Takes the first so many of some bytes. -/
def take (s : BoundedStream) (n : Nat) (bytes : List UInt8) : BoundedStream :=
  { s with taken := (bytes.take n).reverse ++ s.taken, room := s.room.map (· - n) }

instance : ByteStream BoundedStream where
  write bytes s :=
    let n := s.room.elim bytes.length (min bytes.length)
    match s.full with
    | some fault =>
      if n = 0 ∧ bytes ≠ [] then (.error fault, s) else (.ok n, s.take n bytes)
    | none => (.ok n, s.take n bytes)
  flush s :=
    (s.unflushed.elim (.ok ()) .error, { s with flushes := s.taken.length :: s.flushes })

end BoundedStream

end Mustache
