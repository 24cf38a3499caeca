import Mustache.Proofs.HtmlSafety

/-!
# Escaping and reading back

What the HTML escaper writes can be put anywhere in a page.  That is half of what is
asked of it; the other half is that the page shows the text that was escaped, whatever
this was, and be it a text that looks like an entity already.

`Entity.decode` is the reader.  It goes from left to right and takes what it finds: the
character that an entity stands for, or any other character as it is.  It never has to
go back, since no entity begins where another one does or inside one.

An escaper is asked about every piece of a value by itself, and how a value is cut into
pieces is up to its type.  The loop of the HTML escaper starts anew with each of them.
What it writes is the encoding of the piece, though, and that goes character by
character, so the cuts do not show: the pieces, escaped one by one, make up the escaped
text of the value.

## Main results

* `Text.Entity.decode_encode` — what was encoded is read back;
* `Text.Entity.exists_encode_iff` — which texts are encodings;
* `Escaper.html_lossless` — what the HTML escaper makes of a text;
* `Value.output_html` — the escaped output of a value is the encoding of its text;
* `Value.writeValue_html` — so are two renderings of it, with and without the escaper.
-/

namespace Mustache

/-! ## Reading entities -/

namespace Text.Entity

/-- The characters that are written as entities. -/
def special : List Char :=
  ['&', '<', '>', '"', '\'']

/-- A text with the entities in it, from left to right, read as the characters that they stand
for. -/
def decode : Text → Text
  | '&' :: 'a' :: 'm' :: 'p' :: ';' :: t => '&' :: decode t
  | '&' :: 'l' :: 't' :: ';' :: t => '<' :: decode t
  | '&' :: 'g' :: 't' :: ';' :: t => '>' :: decode t
  | '&' :: 'q' :: 'u' :: 'o' :: 't' :: ';' :: t => '"' :: decode t
  | '&' :: '#' :: '3' :: '9' :: ';' :: t => '\'' :: decode t
  | c :: t => c :: decode t
  | [] => []

@[simp] theorem decode_nil : decode [] = [] := rfl

theorem decode_cons {c : Char} (h : c ≠ '&') (t : Text) : decode (c :: t) = c :: decode t := by
  simp [decode, h]

theorem encodeChar_of_not_mem {c : Char} (h : c ∉ special) : encodeChar c = [c] := by
  unfold encodeChar entity?
  split <;> simp_all [special]

/-- A run of characters that need no entity stays as it is. -/
theorem encode_of_forall_not_mem {t : Text} (h : ∀ c ∈ t, c ∉ special) : encode t = t := by
  induction t with
  | nil => rfl
  | cons c t ih =>
      obtain ⟨hc, ht⟩ := List.forall_mem_cons.1 h
      rw [encode_cons, encodeChar_of_not_mem hc, ih ht, List.singleton_append]

/-- One character is read back, whatever comes after it. -/
theorem decode_encodeChar_append (c : Char) (t : Text) :
    decode (encodeChar c ++ t) = c :: decode t := by
  by_cases h : c ∈ special
  · simp only [special, List.mem_cons, List.not_mem_nil, or_false] at h
    rcases h with rfl | rfl | rfl | rfl | rfl <;> rfl
  · have hc : c ≠ '&' := by
      rintro rfl
      exact h List.mem_cons_self
    rw [encodeChar_of_not_mem h, List.singleton_append, decode_cons hc]

theorem decode_encode (t : Text) : decode (encode t) = t := by
  induction t with
  | nil => rfl
  | cons c t ih => rw [encode_cons, decode_encodeChar_append, ih]

theorem encode_injective : Function.Injective encode :=
  Function.LeftInverse.injective decode_encode

end Text.Entity

/-! ## What an encoding is -/

/-- The text holds no angle brackets, no quotation marks, and no ampersands but those of
entities. -/
structure Text.Harmless (t : Text) : Prop where
  plain : ∀ c ∈ ['<', '>', '"', '\''], c ∉ t
  entities : t.EntitiesOnly

namespace Text

theorem Harmless.tail {c : Char} {t : Text} (h : Harmless (c :: t)) : Harmless t where
  plain := fun d hd hmem => h.plain d hd (List.mem_cons_of_mem c hmem)
  entities := fun a b hab => h.entities (c :: a) b (congrArg (c :: ·) hab)

theorem harmless_encode (t : Text) : Harmless (Entity.encode t) where
  plain := fun _ hc => not_mem_encode hc t
  entities := entitiesOnly_encode t

namespace Entity

/-- A harmless text is what its reading is encoded as. -/
theorem encode_decode {t : Text} (h : Harmless t) : encode (decode t) = t := by
  -- The cases are those of the reader: five entities, any other character, and the end.
  fun_induction decode t with
  | case1 t ih => exact congrArg (['&', 'a', 'm', 'p', ';'] ++ ·) (ih h.tail.tail.tail.tail.tail)
  | case2 t ih => exact congrArg (['&', 'l', 't', ';'] ++ ·) (ih h.tail.tail.tail.tail)
  | case3 t ih => exact congrArg (['&', 'g', 't', ';'] ++ ·) (ih h.tail.tail.tail.tail)
  | case4 t ih =>
      exact congrArg (['&', 'q', 'u', 'o', 't', ';'] ++ ·) (ih h.tail.tail.tail.tail.tail.tail)
  | case5 t ih => exact congrArg (['&', '#', '3', '9', ';'] ++ ·) (ih h.tail.tail.tail.tail.tail)
  | case6 c t h1 h2 h3 h4 h5 ih =>
      have hc : c ∉ special := by
        intro hmem
        rcases List.mem_cons.1 hmem with rfl | hmem
        · obtain ⟨e, he, r, hr⟩ := h.entities [] t rfl
          simp only [entities, List.mem_cons, List.not_mem_nil, or_false] at he
          rcases he with rfl | rfl | rfl | rfl | rfl
          · exact h1 r rfl (List.cons.inj hr).2.symm
          · exact h2 r rfl (List.cons.inj hr).2.symm
          · exact h3 r rfl (List.cons.inj hr).2.symm
          · exact h4 r rfl (List.cons.inj hr).2.symm
          · exact h5 r rfl (List.cons.inj hr).2.symm
        · exact h.plain c hmem List.mem_cons_self
      rw [encode_cons, encodeChar_of_not_mem hc, ih h.tail, List.singleton_append]
  | case7 => rfl

/-- The encodings are the harmless texts. -/
theorem exists_encode_iff {t : Text} : (∃ s, encode s = t) ↔ Harmless t := by
  constructor
  · rintro ⟨s, rfl⟩
    exact harmless_encode s
  · intro h
    exact ⟨decode t, encode_decode h⟩

end Entity

end Text

/-- The HTML escaper encodes safely and without loss.  What it writes holds no angle brackets and no
quotation marks, and every ampersand in it begins an entity.  Read from left to right it is the text
again, so no other text is escaped alike.  Characters that need no entity come out as they are and
in their places, between what is made of the text before and of the text after them. -/
theorem Escaper.html_lossless (t : Text) :
    (Escaper.html t).accepted = true ∧
      (∀ c ∈ ['<', '>', '"', '\''], c ∉ (Escaper.html t).text) ∧
      (∀ a b, a ++ '&' :: b = (Escaper.html t).text → ∃ e ∈ Text.entities, e <+: '&' :: b) ∧
      Text.Entity.decode (Escaper.html t).text = t ∧
      (∀ t', (Escaper.html t').text = (Escaper.html t).text → t' = t) ∧
      ∀ a u b, a ++ u ++ b = t → (∀ c ∈ u, c ∉ ['&', '<', '>', '"', '\'']) →
        (Escaper.html t).text = (Escaper.html a).text ++ u ++ (Escaper.html b).text := by
  have hharmless := Text.harmless_encode t
  rw [← text_html] at hharmless
  refine ⟨rfl, hharmless.plain, hharmless.entities, ?_, ?_, ?_⟩
  · rw [text_html, Text.Entity.decode_encode]
  · intro t' ht'
    rw [text_html, text_html] at ht'
    exact Text.Entity.encode_injective ht'
  · rintro a u b rfl hu
    simp only [text_html, Text.Entity.encode_append, Text.Entity.encode_of_forall_not_mem hu]

/-- A text that looks like an entity already, next to a character of two bytes. -/
example : (Escaper.html "é&lt;".toList).text = "é&amp;lt;".toList := by decide

/-! ## Values, piece by piece -/

/-- Encoding the pieces of a text is encoding the text. -/
theorem Text.Entity.flatten_map_encode (pieces : List Text) :
    (pieces.map encode).flatten = encode pieces.flatten := by
  induction pieces with
  | nil => rfl
  | cons piece pieces ih =>
      rw [List.map_cons, List.flatten_cons, ih, List.flatten_cons, encode_append]

/-- Data inside any number of options and pointers. -/
inductive Data.Wraps (inner : Data) : Data → Prop
  | refl : Wraps inner inner
  | some {d : Data} : Wraps inner d → Wraps inner (.some d)
  | pointer {d : Data} : Wraps inner d → Wraps inner (.pointer d)

namespace Value

theorem ofData_of_wraps {inner d : Data} (h : inner.Wraps d) : ofData d = ofData inner := by
  induction h with
  | refl => rfl
  | some _ ih => rw [ofData_some, ih]
  | pointer _ ih => rw [ofData_pointer, ih]

/-- Markup is written as it is. -/
theorem output_raw (markup : Text) (escaper : Option Escaper) :
    (raw markup).output escaper = .ofText markup :=
  congrArg Output.ofText (List.append_nil markup)

/-- What can be read is written without an error, unless an escaper has one. -/
theorem outcome_output_none {v : Value} (h : ∀ reason, v ≠ .unreadable .variant none reason) :
    (v.output none).outcome = .ok () := by
  have hescaper : v.escaper none = none := by cases v <;> rfl
  unfold Value.output
  cases hshown : v.shown with
  | error reason =>
      unfold shown at hshown
      split at hshown <;> cases hshown
      exact absurd rfl (h reason)
  | ok pieces =>
      have htext : Output.concat (pieces.map (.ofPiece none)) = .ofText pieces.flatten :=
        Output.concat_map_ofText pieces
      simp only [hescaper, htext]
      rfl

/-- The HTML escaper encodes what is written without it, and changes nothing about the error. -/
theorem output_html {v : Value} (hraw : ∀ markup, v ≠ .raw markup) :
    v.output (some .html) = ⟨Text.Entity.encode (v.output none).text, (v.output none).error?⟩ := by
  have hescaper : v.escaper (some .html) = some .html ∧ v.escaper none = none := by
    cases v with
    | raw markup => exact absurd rfl (hraw markup)
    | _ => exact ⟨rfl, rfl⟩
  have hpiece : Output.ofPiece (some .html) = Output.ofText ∘ Text.Entity.encode := by
    funext t
    exact congrArg Output.ofText (Escaper.text_html t)
  unfold Value.output
  rw [hescaper.1, hescaper.2, hpiece]
  cases v.shown with
  | error reason => rfl
  | ok pieces =>
      have hplain : Output.concat (pieces.map (.ofPiece none)) = .ofText pieces.flatten :=
        Output.concat_map_ofText pieces
      simp only [hplain, ← List.map_map, Output.concat_map_ofText, Text.Entity.flatten_map_encode]
      rfl

section Records

variable {σ : Type} [Sink σ] {good : σ → Prop} {text : σ → Text}

/-- Into a sink that takes everything a value is written in full, whatever its pieces are.  With the
HTML escaper this is what the escaper makes of the whole text that is written without an escaper.
Markup is the exception, also inside options and pointers: it is written as it is both times.  Both
times nothing is written of a variant whose name cannot be read, and the reason is reported. -/
theorem writeValue_html (h : Sink.Records good text) (v : Value) {s : σ} (hs : good s) :
    let plain := writeValue none v s
    let escaped := writeValue (some .html) v s
    outcome escaped = outcome plain ∧
      ((∀ reason, v ≠ .unreadable .variant none reason) → outcome plain = .ok ()) ∧
      (∀ reason, v = .unreadable .variant none reason →
        outcome plain = .error (.unreadable reason)) ∧
      ∃ content, text (sinkAfter plain) = text s ++ content ∧
        ((∀ markup, v ≠ .raw markup) →
          text (sinkAfter escaped) = text s ++ (Escaper.html content).text) ∧
        ∀ markup d, (Data.raw markup).Wraps d → v = .ofData d →
          content = markup ∧ text (sinkAfter escaped) = text s ++ markup := by
  intro plain escaped
  obtain ⟨hplain, -, hplain'⟩ := h.compositional.writeValue none v s hs
  obtain ⟨hescaped, -, hescaped'⟩ := h.compositional.writeValue (some .html) v s hs
  have hok : (∀ reason, v ≠ .unreadable .variant none reason) → outcome plain = .ok () :=
    fun hread => hplain.trans (outcome_output_none hread)
  have herror : ∀ reason, v = .unreadable .variant none reason →
      outcome plain = .error (.unreadable reason) := by
    rintro reason rfl
    exact hplain
  by_cases hraw : ∃ markup, v = .raw markup
  · obtain ⟨markup, rfl⟩ := hraw
    rw [output_raw] at hplain hplain' hescaped hescaped'
    refine ⟨hescaped.trans hplain.symm, hok, herror, markup, hplain',
      fun hnot => absurd rfl (hnot markup), ?_⟩
    intro markup' d hwraps hd
    rw [ofData_of_wraps hwraps] at hd
    obtain rfl : markup = markup' := raw.inj hd
    exact ⟨rfl, hescaped'⟩
  · have hmarkup : ∀ markup, v ≠ .raw markup := fun markup hv => hraw ⟨markup, hv⟩
    rw [output_html hmarkup] at hescaped hescaped'
    refine ⟨hescaped.trans hplain.symm, hok, herror, (v.output none).text, hplain', ?_, ?_⟩
    · intro _
      rw [Escaper.text_html]
      exact hescaped'
    · intro markup d hwraps hd
      rw [ofData_of_wraps hwraps] at hd
      exact absurd hd (hmarkup markup)

/-- A list with a text of its own, which it writes in three pieces, a date among data whose type is
not known, and markup behind a pointer that is optional. -/
theorem writeValue_html_of_pieces :
    let v : Value := .list [.unit] ["a&".toList, "<".toList, "'b".toList]
    let u : Value := .dynamic (.other (some ["<1".toList, ">".toList]))
    let w : Value := .ofData (.some (.pointer (.raw "<b>".toList)))
    let start := TextSink.empty none
    Sink.Records (fun s : TextSink => s.room = none) TextSink.text ∧ start.room = none ∧
      (sinkAfter (writeValue none v start)).text = "a&<'b".toList ∧
      (sinkAfter (writeValue (some .html) v start)).text = "a&amp;&lt;&#39;b".toList ∧
      (sinkAfter (writeValue (some .html) u start)).text = "&lt;1&gt;".toList ∧
      (sinkAfter (writeValue (some .html) w start)).text = "<b>".toList := by
  intro v u w start
  obtain ⟨-, -, -, content, hplain, hescaped, -⟩ :=
    writeValue_html TextSink.records v (s := start) rfl
  obtain ⟨-, -, -, content', hplain', hescaped', -⟩ :=
    writeValue_html TextSink.records u (s := start) rfl
  obtain ⟨-, -, -, _, -, -, hraw⟩ := writeValue_html TextSink.records w (s := start) rfl
  have hcontent : content = "a&<'b".toList := hplain.symm
  have hcontent' : content' = "<1>".toList := hplain'.symm
  refine ⟨TextSink.records, rfl, ?_, ?_, ?_, ?_⟩
  · rw [hplain, hcontent]
    rfl
  · rw [hescaped nofun, hcontent]
    decide +kernel
  · rw [hescaped' nofun, hcontent']
    decide +kernel
  · exact (hraw "<b>".toList _ (.some (.pointer .refl)) rfl).2

end Records

end Value

end Mustache
