import Mustache.Delimiters
import Mustache.Error

/-!
# Reading one tag

After its opening delimiter a tag has, perhaps after some space, a sigil that
says what the tag is for, then its body, then the closing delimiter. The body is
a name for most tags; for a comment it is whatever comes before the closing
delimiter, and for a set-delimiter tag it is whatever comes before an equals
sign and the closing delimiter. A tag may also hold its name in braces of its
own, which is one of the two ways to interpolate without escaping.

`Tag.read` cuts a text that follows an opening delimiter into the pieces of such
a tag and the rest. Nothing else in the library looks inside a tag.

## Main results

* `append_of_read` — the pieces of a tag and the rest, one after the other, are
  the opening delimiter and the text that was read;
* `opening_isPrefix_of_read`, `closing_isSuffix_of_read` — a tag begins with the
  opening delimiter and ends with the closing one.
-/

namespace Mustache

/-- When the nodes of a section are rendered: for what its name finds, or for lack of it. -/
inductive SectionKind
  | normal
  | inverted
deriving DecidableEq, Repr

/-- What a tag with a name is for. -/
inductive Role
  /-- Writes what the name finds. -/
  | interpolation (escaped : Bool)
  /-- Opens a section. -/
  | opening (kind : SectionKind)
  /-- Closes a section. -/
  | closing
  /-- Includes a partial. -/
  | inclusion
deriving DecidableEq, Repr

/-- The role that a sigil before the name gives to a tag. -/
def Role.ofSigil? : Char → Option Role
  | '&' => some (.interpolation false)
  | '#' => some (.opening .normal)
  | '^' => some (.opening .inverted)
  | '/' => some .closing
  | '>' => some .inclusion
  | _ => none

/-- What a tag is for. -/
inductive Tag
  | comment
  /-- Puts other delimiters in force. -/
  | delimiters (next : Delimiters)
  /-- A tag whose body is a name. -/
  | named (role : Role)
deriving DecidableEq

namespace Tag

/-- Whether the tag takes its whole line with it when nothing else is on the line. -/
def ownsLine : Tag → Bool
  | named (.interpolation _) => false
  | _ => true

/-- A tag, cut out of the text that begins with its opening delimiter. -/
structure Reading where
  tag : Tag
  /-- What comes before the body, from the opening delimiter on. -/
  before : Text
  /-- The name, or the content of a comment or of a set-delimiter tag. -/
  body : Text
  /-- What comes after the body, up to and with the closing delimiter. -/
  after : Text
  /-- The text after the tag. -/
  rest : Text

/-- The whole tag, from delimiter to delimiter. -/
def Reading.lexeme (r : Reading) : Text :=
  r.before ++ r.body ++ r.after

/-- Why a text does not begin with a tag, and how many of its bytes are to blame. -/
structure Fault where
  cause : Cause
  size : Nat

/-- The tag was not closed within so many bytes. -/
def Fault.unclosed (d : Delimiters) (size : Nat) : Fault :=
  ⟨.unclosedTag d.closing.text, size⟩

/-! ## The three kinds of body -/

/-- Reads a comment after its sigil. -/
def readComment (d : Delimiters) (before t : Text) : Except Fault Reading :=
  match Text.splitAtFirst? d.closing.text t with
  | none => .error (.unclosed d (Text.size before + Text.size t))
  | some (body, rest) => .ok ⟨.comment, before, body, d.closing.text, rest⟩

/-- Reads a set-delimiter tag after its first equals sign. -/
def readDelimiters (d : Delimiters) (before t : Text) : Except Fault Reading :=
  let stop := '=' :: d.closing.text
  match Text.splitAtFirst? stop t with
  | none => .error (.unclosed d (Text.size before + Text.size t))
  | some (content, rest) =>
    match Delimiters.ofContent? content with
    | none =>
      .error ⟨.invalidDelimiters content,
        Text.size before + Text.size content + Text.size stop⟩
    | some next => .ok ⟨.delimiters next, before, content, stop, rest⟩

/-- Reads the name of a tag after its sigil, and the end of the tag. In a `braced` tag
the name ends before a brace, which must come before the closing delimiter. -/
def readNamed (d : Delimiters) (role : Role) (braced : Bool) (before t : Text) :
    Except Fault Reading :=
  let brace : Text := if braced then ['}'] else []
  let stop := if braced then brace else d.closing.text
  let before := before ++ t.takeWhile Text.isSpace
  let t := t.dropWhile Text.isSpace
  match Text.breakAt (fun r => Text.beginsWithSpace r || stop.isPrefixOf r) t with
  | none => .error (.unclosed d (Text.size before + Text.size t))
  | some ([], _) => .error ⟨.emptyTag, Text.size before + Text.size stop⟩
  | some (name, r) =>
    let space := r.takeWhile Text.isSpace
    let size := Text.size before + Text.size name + Text.size space
    match Text.strip? brace (r.dropWhile Text.isSpace) with
    | none => .error (.unclosed d size)
    | some r =>
      match Text.strip? d.closing.text r with
      | none => .error (.unclosed d (size + Text.size brace))
      | some rest => .ok ⟨.named role, before, name, space ++ brace ++ d.closing.text, rest⟩

/-! ## The whole tag -/

/-- Reads the tag whose opening delimiter stands before the text `t`. -/
def read (d : Delimiters) (t : Text) : Except Fault Reading :=
  match t with
  | '{' :: r => readNamed d (.interpolation false) true (d.opening.text ++ ['{']) r
  | _ =>
    let before := d.opening.text ++ t.takeWhile Text.isSpace
    match t.dropWhile Text.isSpace with
    | [] => readNamed d (.interpolation true) false before []
    | c :: r =>
      if c = '!' then readComment d (before ++ [c]) r
      else if c = '=' then readDelimiters d (before ++ [c]) r
      else match Role.ofSigil? c with
        | some role => readNamed d role false (before ++ [c]) r
        | none => readNamed d (.interpolation true) false before (c :: r)

theorem append_of_readComment {d : Delimiters} {before t : Text} {r : Reading}
    (h : readComment d before t = .ok r) : r.lexeme ++ r.rest = before ++ t := by
  rw [readComment] at h
  split at h
  · cases h
  · rename_i he
    cases h
    simp [Reading.lexeme, ← Text.append_of_splitAtFirst? he]

theorem append_of_readDelimiters {d : Delimiters} {before t : Text} {r : Reading}
    (h : readDelimiters d before t = .ok r) : r.lexeme ++ r.rest = before ++ t := by
  simp only [readDelimiters] at h
  split at h
  · cases h
  · rename_i he
    split at h
    · cases h
    · cases h
      simp [Reading.lexeme, ← Text.append_of_splitAtFirst? he]

theorem append_of_readNamed {d : Delimiters} {role : Role} {braced : Bool} {before t : Text}
    {r : Reading} (h : readNamed d role braced before t = .ok r) :
    r.lexeme ++ r.rest = before ++ t := by
  simp only [readNamed] at h
  split at h
  · cases h
  · cases h
  · rename_i name s _ hn
    have hs := Text.append_of_breakAt hn
    split at h
    · cases h
    · rename_i u hu
      rw [Text.strip?_eq_some_iff] at hu
      split at h
      · cases h
      · rename_i v hv
        rw [Text.strip?_eq_some_iff] at hv
        cases h
        conv => rhs; rw [← List.takeWhile_append_dropWhile (p := Text.isSpace) (l := t), ← hs,
          ← List.takeWhile_append_dropWhile (p := Text.isSpace) (l := s), ← hu, ← hv]
        simp [Reading.lexeme]

theorem append_of_read {d : Delimiters} {t : Text} {r : Reading} (h : read d t = .ok r) :
    r.lexeme ++ r.rest = d.opening.text ++ t := by
  rw [read.eq_def] at h
  split at h
  · simpa using append_of_readNamed h
  · have ht := List.takeWhile_append_dropWhile (p := Text.isSpace) (l := t)
    generalize t.takeWhile Text.isSpace = w at h ht
    split at h
    · rename_i he
      rw [append_of_readNamed h, ← ht, he, List.append_assoc]
    · rename_i c s he
      have hc : (d.opening.text ++ w ++ [c]) ++ s = d.opening.text ++ t := by
        rw [← ht, he]
        simp
      split at h
      · rw [append_of_readComment h, hc]
      · split at h
        · rw [append_of_readDelimiters h, hc]
        · split at h
          · rw [append_of_readNamed h, hc]
          · rw [append_of_readNamed h, ← ht, he, List.append_assoc]

/-! ## The ends of a tag -/

theorem ends_of_readComment {d : Delimiters} {before t : Text} {r : Reading}
    (h : readComment d before t = .ok r) : before <+: r.before ∧ d.closing.text <:+ r.after := by
  rw [readComment] at h
  split at h
  · cases h
  · cases h
    exact ⟨List.prefix_rfl, List.suffix_rfl⟩

theorem ends_of_readDelimiters {d : Delimiters} {before t : Text} {r : Reading}
    (h : readDelimiters d before t = .ok r) :
    before <+: r.before ∧ d.closing.text <:+ r.after := by
  simp only [readDelimiters] at h
  split at h
  · cases h
  · split at h
    · cases h
    · cases h
      exact ⟨List.prefix_rfl, List.suffix_cons _ _⟩

theorem ends_of_readNamed {d : Delimiters} {role : Role} {braced : Bool} {before t : Text}
    {r : Reading} (h : readNamed d role braced before t = .ok r) :
    before <+: r.before ∧ d.closing.text <:+ r.after := by
  simp only [readNamed] at h
  split at h
  · cases h
  · cases h
  · split at h
    · cases h
    · split at h
      · cases h
      · cases h
        exact ⟨List.prefix_append _ _, List.suffix_append _ _⟩

theorem ends_of_read {d : Delimiters} {t : Text} {r : Reading} (h : read d t = .ok r) :
    d.opening.text <+: r.before ∧ d.closing.text <:+ r.after := by
  have widen (w : Text) (h : d.opening.text ++ w <+: r.before ∧ d.closing.text <:+ r.after) :
      d.opening.text <+: r.before ∧ d.closing.text <:+ r.after :=
    ⟨(List.prefix_append _ _).trans h.1, h.2⟩
  rw [read.eq_def] at h
  split at h
  · exact widen _ (ends_of_readNamed h)
  · split at h
    · exact widen _ (ends_of_readNamed h)
    · simp only [List.append_assoc] at h
      split at h
      · exact widen _ (ends_of_readComment h)
      · split at h
        · exact widen _ (ends_of_readDelimiters h)
        · split at h
          · exact widen _ (ends_of_readNamed h)
          · exact widen _ (ends_of_readNamed h)

theorem opening_isPrefix_of_read {d : Delimiters} {t : Text} {r : Reading}
    (h : read d t = .ok r) : d.opening.text <+: r.lexeme := by
  rw [Reading.lexeme, List.append_assoc]
  exact (ends_of_read h).1.trans (List.prefix_append _ _)

theorem closing_isSuffix_of_read {d : Delimiters} {t : Text} {r : Reading}
    (h : read d t = .ok r) : d.closing.text <:+ r.lexeme :=
  (ends_of_read h).2.trans (List.suffix_append _ _)

end Tag

end Mustache
