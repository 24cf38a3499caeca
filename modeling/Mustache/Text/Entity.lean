import Mustache.Text

/-!
# HTML entities

Five characters have a meaning of their own in HTML text and in attribute
values: `&`, `<`, `>`, and the two quotation marks. `Entity.encode` writes each
of them as an entity and every other character as it is, so that a text can be
put anywhere in a page and reads as itself there.

All five are characters of a single byte, and no byte of another character is one
of these bytes. So they can be looked for among the bytes of a text as well.

## Main results

* `encode_append` — encoding goes character by character, so a text may be
  encoded piece by piece;
* `ofByte?_of_entity?`, `ofByte?_eq_none` — the bytes of a text tell where the
  special characters are.
-/

namespace Mustache.Text.Entity

/-- The entity that stands for a character, if it needs one. -/
def entity? : Char → Option Text
  | '&' => some ['&', 'a', 'm', 'p', ';']
  | '<' => some ['&', 'l', 't', ';']
  | '>' => some ['&', 'g', 't', ';']
  | '"' => some ['&', 'q', 'u', 'o', 't', ';']
  | '\'' => some ['&', '#', '3', '9', ';']
  | _ => none

/-- How one character is written. -/
def encodeChar (c : Char) : Text :=
  (entity? c).getD [c]

/-- A text with the five special characters written as entities. -/
def encode (t : Text) : Text :=
  t.flatMap encodeChar

@[simp] theorem encode_nil : encode [] = [] := rfl

@[simp] theorem encode_cons (c : Char) (t : Text) :
    encode (c :: t) = encodeChar c ++ encode t := rfl

@[simp] theorem encode_append (a b : Text) : encode (a ++ b) = encode a ++ encode b := by
  simp [encode]

/-! ## Bytes of special characters -/

/-- The entity that stands for a byte, if this is a special character by itself. -/
def ofByte? (b : UInt8) : Option Text :=
  entity? (Char.ofUInt8 b)

theorem toNat_ofUInt8 (b : UInt8) : (Char.ofUInt8 b).toNat = b.toNat :=
  UInt8.toNat_toUInt32 b

theorem entity?_cases {c : Char} {entity : Text} (h : entity? c = some entity) :
    c = '&' ∨ c = '<' ∨ c = '>' ∨ c = '"' ∨ c = '\'' := by
  unfold entity? at h
  split at h <;> simp_all

/-- A special character is one byte, and this byte has the entity of the character. -/
theorem ofByte?_of_entity? {c : Char} {entity : Text} (h : entity? c = some entity) :
    ∃ b, String.utf8EncodeChar c = [b] ∧ ofByte? b = some entity := by
  rcases entity?_cases h with rfl | rfl | rfl | rfl | rfl <;> exact ⟨_, rfl, h⟩

/-- A byte that begins or continues a longer character is not special. -/
theorem ofByte?_of_le {b : UInt8} (h : 128 ≤ b.toNat) : ofByte? b = none := by
  cases hb : ofByte? b with
  | none => rfl
  | some entity =>
    rw [← toNat_ofUInt8] at h
    rcases entity?_cases hb with hc | hc | hc | hc | hc <;> rw [hc] at h <;>
      exact absurd h (by decide)

/-- A character of one byte is this byte, and every byte of a longer one is out of the range of
those. -/
theorem utf8EncodeChar_cases (c : Char) :
    (∃ b, String.utf8EncodeChar c = [b] ∧ Char.ofUInt8 b = c) ∨
      ∀ b ∈ String.utf8EncodeChar c, 128 ≤ b.toNat := by
  unfold String.utf8EncodeChar
  by_cases h : c.val.toNat ≤ 127
  · refine .inl ⟨_, if_pos h, Char.ext (UInt32.toNat.inj ((toNat_ofUInt8 _).trans ?_))⟩
    rw [UInt8.toNat_ofNat']
    omega
  · right
    simp only [if_neg h]
    split
    · simp only [List.mem_cons, List.not_mem_nil, or_false]
      rintro b (rfl | rfl) <;> simp only [UInt8.toNat_ofNat'] <;> omega
    · split
      · simp only [List.mem_cons, List.not_mem_nil, or_false]
        rintro b (rfl | rfl | rfl) <;> simp only [UInt8.toNat_ofNat'] <;> omega
      · simp only [List.mem_cons, List.not_mem_nil, or_false]
        rintro b (rfl | rfl | rfl | rfl) <;> simp only [UInt8.toNat_ofNat'] <;> omega

/-- No byte of a character that needs no entity is special. -/
theorem ofByte?_eq_none {c : Char} (h : entity? c = none) {b : UInt8}
    (hb : b ∈ String.utf8EncodeChar c) : ofByte? b = none := by
  rcases utf8EncodeChar_cases c with ⟨b', hone, rfl⟩ | hlong
  · rw [hone, List.mem_singleton] at hb
    rwa [hb]
  · exact ofByte?_of_le (hlong b hb)

end Mustache.Text.Entity
