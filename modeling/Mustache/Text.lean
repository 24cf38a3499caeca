/-!
# Text measured in bytes and cut at characters

Templates, names and output are all `Text`, a list of characters: lexing is
recursion on the characters that are left, and a statement about a template is
an equation between lists.

Positions are counted in bytes of UTF-8, because that is what an editor or a
terminal wants to be told. `size` is that count; it is additive over `++`, so
the offset of a piece is the size of what stands before it. The bytes themselves
are `bytes`, for those who write or go through them one by one. No text is ever
cut inside a character: `fit` takes whole characters while they fit into a number
of bytes, and `breakAt` cuts before the first place with a property.

## Main results

* `size_append` — sizes add up;
* `length_bytes` — the size of a text is the number of its bytes;
* `append_of_breakAt`, `breakAt_cons` — `breakAt` loses nothing, and it is
  decided character by character;
* `breakAt_eq_some_iff`, `splitAtFirst?_eq_some_iff` — the cut is at the first
  place, and a pattern is found at its first occurrence;
* `eq_false_of_mem_splitOnP` — between separators no separator is left;
* `fit_append`, `size_fit_le` — `fit` loses nothing and takes no more bytes
  than it may.
-/

namespace Mustache

/-- A piece of text. -/
abbrev Text := List Char

namespace Text

/-! ## Size -/

/-- The number of bytes of a text in UTF-8. -/
def size (t : Text) : Nat :=
  t.foldl (fun n c => n + c.utf8Size) 0

private theorem foldl_utf8Size (t : Text) (n : Nat) :
    t.foldl (fun n c => n + c.utf8Size) n = n + size t := by
  unfold size
  induction t generalizing n with
  | nil => rfl
  | cons c r ih => rw [List.foldl_cons, List.foldl_cons, ih, ih (0 + _)]; omega

@[simp] theorem size_nil : size [] = 0 := rfl

@[simp] theorem size_cons (c : Char) (t : Text) : size (c :: t) = c.utf8Size + size t := by
  rw [size, List.foldl_cons, foldl_utf8Size]; omega

@[simp] theorem size_append (a b : Text) : size (a ++ b) = size a + size b := by
  induction a with
  | nil => simp
  | cons c r ih => simp [ih]; omega

theorem size_eq_zero_iff {t : Text} : size t = 0 ↔ t = [] := by
  cases t with
  | nil => simp
  | cons c r => have := c.utf8Size_pos; simp; omega

/-! ## Bytes -/

/-- The bytes of a text in UTF-8. -/
def bytes (t : Text) : List UInt8 :=
  t.flatMap String.utf8EncodeChar

@[simp] theorem bytes_nil : bytes [] = [] := rfl

@[simp] theorem bytes_cons (c : Char) (t : Text) :
    bytes (c :: t) = String.utf8EncodeChar c ++ bytes t := rfl

theorem bytes_append (a b : Text) : bytes (a ++ b) = bytes a ++ bytes b :=
  List.flatMap_append

theorem length_bytes (t : Text) : (bytes t).length = size t := by
  induction t with
  | nil => rfl
  | cons c t ih => simp [ih]

/-! ## Cutting before a place -/

/-- Cuts a text before the first place where what follows satisfies `p`. The
end of the text is no such place. -/
def breakAt (p : Text → Bool) (t : Text) : Option (Text × Text) :=
  go [] t
where
  /-- Carries the characters that were passed over, the latest first. -/
  go (seen : Text) : Text → Option (Text × Text)
    | [] => none
    | c :: r => if p (c :: r) then some (seen.reverse, c :: r) else go (c :: seen) r

private theorem breakAt_go (p : Text → Bool) (seen t : Text) :
    breakAt.go p seen t = (breakAt p t).map fun (a, b) => (seen.reverse ++ a, b) := by
  unfold breakAt
  induction t generalizing seen with
  | nil => rfl
  | cons c r ih =>
    unfold breakAt.go
    split
    · simp
    · rw [ih, ih [c]]
      simp [Option.map_map, Function.comp_def]

@[simp] theorem breakAt_nil (p : Text → Bool) : breakAt p [] = none := rfl

theorem breakAt_cons (p : Text → Bool) (c : Char) (r : Text) :
    breakAt p (c :: r) =
      if p (c :: r) then some ([], c :: r) else (breakAt p r).map fun (a, b) => (c :: a, b) := by
  rw [breakAt, breakAt.go, breakAt_go]
  rfl

theorem append_of_breakAt {p : Text → Bool} {t a b : Text} (h : breakAt p t = some (a, b)) :
    a ++ b = t := by
  induction t generalizing a with
  | nil => simp at h
  | cons c r ih =>
    rw [breakAt_cons] at h
    split at h
    · simp_all
    · obtain ⟨⟨a', b'⟩, h', he⟩ := Option.map_eq_some_iff.1 h
      obtain ⟨rfl, rfl⟩ := Prod.mk.inj he
      simp [ih h']

/-- What follows the cut satisfies the property. -/
theorem of_breakAt {p : Text → Bool} {t a b : Text} (h : breakAt p t = some (a, b)) :
    p b = true := by
  induction t generalizing a with
  | nil => simp at h
  | cons c r ih =>
    rw [breakAt_cons] at h
    split at h
    · simp_all
    · obtain ⟨⟨a', b'⟩, h', he⟩ := Option.map_eq_some_iff.1 h
      obtain ⟨rfl, rfl⟩ := Prod.mk.inj he
      exact ih h'

/-- The cut is before the first place with the property. -/
theorem breakAt_eq_some_iff {p : Text → Bool} {t a b : Text} :
    breakAt p t = some (a, b) ↔
      a ++ b = t ∧ b ≠ [] ∧ p b = true ∧
        ∀ x y, x ++ y = t → x.length < a.length → p y = false := by
  induction t generalizing a with
  | nil =>
    simp only [breakAt_nil, List.append_eq_nil_iff, reduceCtorEq, false_iff]
    rintro ⟨⟨-, hb⟩, hne, -⟩
    exact hne hb
  | cons c r ih =>
    rw [breakAt_cons]
    by_cases hp : p (c :: r) = true
    · rw [if_pos hp, Option.some.injEq, Prod.mk.injEq]
      constructor
      · rintro ⟨rfl, rfl⟩
        exact ⟨rfl, List.cons_ne_nil _ _, hp, nofun⟩
      · rintro ⟨happend, -, -, hfirst⟩
        cases a with
        | nil => exact ⟨rfl, happend.symm⟩
        | cons d a =>
          have := hfirst [] (c :: r) rfl (Nat.zero_lt_succ _)
          rw [hp] at this
          cases this
    · rw [if_neg hp, Option.map_eq_some_iff]
      constructor
      · rintro ⟨⟨a', b'⟩, h, he⟩
        obtain ⟨rfl, rfl⟩ := Prod.mk.inj he
        obtain ⟨rfl, hne, hb, hfirst⟩ := ih.1 h
        refine ⟨rfl, hne, hb, ?_⟩
        intro x y hxy hlt
        cases x with
        | nil => simpa [← hxy] using hp
        | cons d x =>
          obtain ⟨-, hxy⟩ := List.cons.inj hxy
          exact hfirst x y hxy (Nat.lt_of_succ_lt_succ hlt)
      · rintro ⟨happend, hne, hb, hfirst⟩
        cases a with
        | nil =>
          rw [List.nil_append] at happend
          exact absurd (happend ▸ hb) hp
        | cons d a =>
          obtain ⟨rfl, htail⟩ := List.cons.inj happend
          refine ⟨(a, b), ih.2 ⟨htail, hne, hb, ?_⟩, rfl⟩
          intro x y hxy hlt
          exact hfirst (d :: x) y (congrArg _ hxy) (Nat.succ_lt_succ hlt)

theorem breakAt_eq_none_iff {p : Text → Bool} {t : Text} :
    breakAt p t = none ↔ ∀ x y, x ++ y = t → y ≠ [] → p y = false := by
  induction t with
  | nil =>
    simp only [breakAt_nil, List.append_eq_nil_iff, true_iff]
    rintro x y ⟨-, hy⟩ hne
    exact absurd hy hne
  | cons c r ih =>
    rw [breakAt_cons]
    by_cases hp : p (c :: r) = true
    · rw [if_pos hp]
      refine ⟨nofun, fun h => ?_⟩
      have := h [] (c :: r) rfl (List.cons_ne_nil _ _)
      rw [hp] at this
      cases this
    · rw [if_neg hp, Option.map_eq_none_iff, ih]
      constructor
      · intro h x y hxy hne
        cases x with
        | nil => simpa [← hxy] using hp
        | cons d x => exact h x y (List.cons.inj hxy).2 hne
      · intro h x y hxy hne
        exact h (c :: x) y (congrArg _ hxy) hne

/-- Cuts a text before the first occurrence of a pattern. -/
def breakBefore (pattern : Text) : Text → Option (Text × Text) :=
  breakAt pattern.isPrefixOf

/-- Removes a pattern from the front of a text that begins with it. -/
def strip? (pattern t : Text) : Option Text :=
  if pattern.isPrefixOf t then some (t.drop pattern.length) else none

theorem strip?_eq_some_iff {pattern t r : Text} : strip? pattern t = some r ↔ pattern ++ r = t := by
  rw [strip?]
  split
  · rename_i h
    obtain ⟨s, rfl⟩ := List.isPrefixOf_iff_prefix.1 h
    simp [eq_comm]
  · rename_i h
    refine ⟨nofun, ?_⟩
    rintro rfl
    exact absurd (List.isPrefixOf_iff_prefix.2 (List.prefix_append _ _)) h

/-- A text cut before a pattern and the pattern taken off the second part: the text before
the first occurrence, and the text after it. -/
def splitAtFirst? (pattern t : Text) : Option (Text × Text) :=
  (breakBefore pattern t).map fun (a, b) => (a, b.drop pattern.length)

theorem append_of_splitAtFirst? {pattern t a b : Text}
    (h : splitAtFirst? pattern t = some (a, b)) : a ++ (pattern ++ b) = t := by
  obtain ⟨⟨a', b'⟩, h', he⟩ := Option.map_eq_some_iff.1 h
  obtain ⟨rfl, rfl⟩ := Prod.mk.inj he
  obtain ⟨s, hs⟩ := List.isPrefixOf_iff_prefix.1 (of_breakAt h')
  rw [← append_of_breakAt h', ← hs]
  simp

/-- A pattern is found at its first occurrence. -/
theorem splitAtFirst?_eq_some_iff {pattern t a b : Text} (hp : pattern ≠ []) :
    splitAtFirst? pattern t = some (a, b) ↔
      a ++ (pattern ++ b) = t ∧ ∀ x y, x ++ y = t → x.length < a.length → ¬ pattern <+: y := by
  rw [splitAtFirst?, breakBefore, Option.map_eq_some_iff]
  constructor
  · rintro ⟨⟨a', b'⟩, h, he⟩
    obtain ⟨rfl, rfl⟩ := Prod.mk.inj he
    obtain ⟨rfl, -, hb, hfirst⟩ := breakAt_eq_some_iff.1 h
    obtain ⟨s, rfl⟩ := List.isPrefixOf_iff_prefix.1 hb
    rw [List.drop_left]
    refine ⟨rfl, fun x y hxy hlt hy => ?_⟩
    have := hfirst x y hxy hlt
    rw [List.isPrefixOf_iff_prefix.2 hy] at this
    cases this
  · rintro ⟨rfl, hfirst⟩
    refine ⟨(a, pattern ++ b), breakAt_eq_some_iff.2 ⟨rfl, ?_, ?_, ?_⟩, ?_⟩
    · exact List.append_ne_nil_of_left_ne_nil hp b
    · exact List.isPrefixOf_iff_prefix.2 (List.prefix_append _ _)
    · intro x y hxy hlt
      rw [Bool.eq_false_iff, Ne, List.isPrefixOf_iff_prefix]
      exact hfirst x y hxy hlt
    · simp only [List.drop_left]

/-- A pattern that is not found does not occur. -/
theorem splitAtFirst?_eq_none_iff {pattern t : Text} (hp : pattern ≠ []) :
    splitAtFirst? pattern t = none ↔ ¬ pattern <:+: t := by
  rw [splitAtFirst?, breakBefore, Option.map_eq_none_iff, breakAt_eq_none_iff]
  constructor
  · rintro h ⟨x, y, hxy⟩
    have := h x (pattern ++ y) (by rw [← hxy, List.append_assoc])
      (List.append_ne_nil_of_left_ne_nil hp y)
    rw [List.isPrefixOf_iff_prefix.2 (List.prefix_append _ _)] at this
    cases this
  · intro h x y hxy _
    rw [Bool.eq_false_iff, Ne, List.isPrefixOf_iff_prefix]
    rintro ⟨r, rfl⟩
    exact h ⟨x, r, by rw [← hxy, List.append_assoc]⟩

/-! ## Pieces between separators -/

/-- No separator is left in the pieces of a text that is cut at its separators. -/
theorem eq_false_of_mem_splitOnP {p : Char → Bool} {t w : Text} (hw : w ∈ t.splitOnP p) {c : Char}
    (hc : c ∈ w) : p c = false := by
  induction t generalizing w with
  | nil =>
    rw [List.splitOnP_nil, List.mem_singleton] at hw
    rw [hw] at hc
    cases hc
  | cons x t ih =>
    rw [List.splitOnP_cons_eq_if_modifyHead] at hw
    split at hw
    · rcases List.mem_cons.1 hw with rfl | hw
      · cases hc
      · exact ih hw hc
    · rename_i hx
      obtain ⟨first, more, hsplit⟩ := List.exists_cons_of_ne_nil (List.splitOnP_ne_nil p t)
      rw [hsplit, List.modifyHead_cons] at hw
      rw [hsplit] at ih
      -- Only the first piece has become longer, by a character that is no separator.
      rcases List.mem_cons.1 hw with rfl | hw
      · rcases List.mem_cons.1 hc with rfl | hc
        · exact Bool.eq_false_iff.2 hx
        · exact ih List.mem_cons_self hc
      · exact ih (List.mem_cons_of_mem first hw) hc

/-! ## Fitting into a number of bytes -/

/-- The longest beginning of a text that has at most `room` bytes, and what is left. -/
def fit (room : Nat) (t : Text) : Text × Text :=
  go room [] t
where
  /-- Carries the characters that were taken, the latest first. -/
  go (room : Nat) (seen : Text) : Text → Text × Text
    | [] => (seen.reverse, [])
    | c :: r =>
      if c.utf8Size ≤ room then go (room - c.utf8Size) (c :: seen) r else (seen.reverse, c :: r)

private theorem fit_go (room : Nat) (seen t : Text) :
    fit.go room seen t = (seen.reverse ++ (fit room t).1, (fit room t).2) := by
  unfold fit
  induction t generalizing room seen with
  | nil => simp [fit.go]
  | cons c r ih =>
    unfold fit.go
    split
    · rw [ih, ih _ [c]]
      simp
    · simp

@[simp] theorem fit_nil (room : Nat) : fit room [] = ([], []) := rfl

theorem fit_cons (room : Nat) (c : Char) (r : Text) :
    fit room (c :: r) =
      if c.utf8Size ≤ room then (c :: (fit (room - c.utf8Size) r).1, (fit (room - c.utf8Size) r).2)
      else ([], c :: r) := by
  rw [fit, fit.go, fit_go]
  simp

theorem fit_append (room : Nat) (t : Text) : (fit room t).1 ++ (fit room t).2 = t := by
  induction t generalizing room with
  | nil => rfl
  | cons c r ih =>
    rw [fit_cons]
    split
    · simp [ih]
    · rfl

theorem size_fit_le (room : Nat) (t : Text) : size (fit room t).1 ≤ room := by
  induction t generalizing room with
  | nil => simp
  | cons c r ih =>
    rw [fit_cons]
    split
    · have := ih (room - c.utf8Size)
      simp
      omega
    · simp

/-- A text that fits is taken whole. -/
theorem fit_of_size_le {room : Nat} {t : Text} (h : size t ≤ room) : fit room t = (t, []) := by
  induction t generalizing room with
  | nil => rfl
  | cons c r ih =>
    rw [size_cons] at h
    rw [fit_cons, if_pos (by omega), ih (by omega)]

end Text

end Mustache
