import Mustache.Proofs.DottedNames
import Mustache.Proofs.Occurrence
import Mustache.Proofs.Redelimited
import Mustache.Proofs.WholeTags

/-!
# The names of tags

The name of a tag is used in two ways.  An end tag must have the name of the section
that it closes, character for character; and what a tag finds in the data is decided by
the path that its name stands for.  The two ways agree: different names have different
paths, so an end tag that would find what its section finds does close it.

It is the full stops that have to be looked at.  Those at the ends of a name and those
that follow each other part empty segments, and these are kept, so that the segments
with full stops between them are the name again.  The name `.` is not split, but its
path is one that no other name has: no segment that was split off has a full stop in it.

What can be a name at all depends on the tag, on the delimiters in force and on the text
after the tag.  But a set-delimiter tag can put a delimiter in force that is too long to
stand in the name, and so every text without space is the name of some tag.

## Main results

* `Text.isName_iff_solid` — which texts are names;
* `Path.segments_ofName_eq_self` — the only segment with a full stop in it;
* `Path.ofName_injective`, `Opening.mismatch?_eq_none_iff` — names with the same path are
  the same, and end tags may as well be compared by their paths;
* `Path.ofName_corresponds` — all this together, and the path of a dotted name.
-/

namespace Mustache

/-! ## Which texts are names -/

/-- Some text has a tag with this name. -/
def Text.IsName (name : Text) : Prop :=
  ∃ (source : Text) (role : Role), (role, name) ∈ source.tags

theorem Tag.Named.solid {d : Delimiters} {rest before name after : Text} {role : Role}
    (h : Named d rest role before name after) : Text.Solid name := by
  cases h with
  | braced _ _ hsolid _ => exact hsolid
  | sigil _ _ _ _ hsolid _ => exact hsolid
  | plain _ _ hsolid _ _ _ => exact hsolid

theorem Text.IsName.solid {name : Text} (h : IsName name) : Solid name := by
  obtain ⟨source, role, hmem⟩ := h
  obtain ⟨token, htoken, htag⟩ := List.mem_filterMap.1 hmem
  cases token with
  | text span => cases htag
  | tag role name nameSpan span indent =>
      cases htag
      obtain ⟨_, _, _, _, -, -, hnamed⟩ := Cursor.exists_named_of_mem_tokens htoken
      exact hnamed.solid

/-- Where space comes after a name, no delimiter begins in it that is longer than it. -/
theorem Tag.runsUpTo_of_length_lt {closing name : Text} (hclosing : Text.Solid closing)
    (hlength : name.length < closing.length) {c : Char} (hc : Text.isSpace c = true)
    (after : Text) : RunsUpTo closing name (c :: after) := by
  intro x y hxy hlt hbegins
  obtain ⟨first, more, rfl, rfl⟩ := Text.exists_cons_of_append hxy hlt
  -- The delimiter goes on behind the name, so it has the space in it.
  have hinside : first :: more ++ [c] <+: closing := by
    refine List.prefix_of_prefix_length_le ?_ hbegins ?_
    · exact ⟨after, by simp⟩
    · simp only [List.length_append, List.length_cons, List.length_nil] at hlength ⊢
      omega
  have hsolid := hclosing.2 c (hinside.subset (by simp))
  rw [hc] at hsolid
  contradiction

theorem Delimiters.exists_length_lt (n : Nat) : ∃ d : Delimiters, n < d.closing.text.length := by
  refine ⟨⟨Delimiters.braces.opening, List.replicate (n + 1) '}', ?_, ?_⟩, ?_⟩
  · exact List.cons_ne_nil _ _
  · rw [List.all_eq_true]
    intro c hc
    rw [List.eq_of_mem_replicate hc]
    decide
  · show n < (List.replicate (n + 1) '}').length
    rw [List.length_replicate]
    exact Nat.lt_succ_self n

/-- A text without space is the name of a tag whose closing delimiter is too long to stand in it. -/
theorem Tag.exists_read_eq_of_solid {d : Delimiters} {name : Text} (hname : Text.Solid name)
    (hlength : name.length < d.closing.text.length) :
    ∃ t r, read d t = .ok r ∧ r.tag = .named (.interpolation false) ∧ r.body = name := by
  have hruns : RunsUpTo d.closing.text name ([' '] ++ d.closing.text ++ []) :=
    runsUpTo_of_length_lt d.closing.solid hlength rfl _
  have hspace : Text.Spaces [' '] := List.forall_mem_singleton.2 rfl
  have hsigil : ('&', Role.interpolation false) ∈ sigils := by decide
  have hnamed : Named d [] (.interpolation false) (d.opening.text ++ [] ++ ['&']) name
      ([' '] ++ d.closing.text) :=
    .sigil nofun nofun hspace hsigil hname hruns
  have hform := hnamed.form (t := '&' :: (name ++ ' ' :: d.closing.text)) (by simp)
  exact ⟨_, _, hform.read_eq, rfl, rfl⟩

/-- Every text without space can be the name of a tag. -/
theorem Text.Solid.isName {name : Text} (hname : Solid name) : IsName name := by
  obtain ⟨d, hlength⟩ := Delimiters.exists_length_lt name.length
  obtain ⟨t, r, hread, htag, rfl⟩ := Tag.exists_read_eq_of_solid hname hlength
  obtain ⟨s, hs, -, -, hrest, -, hdelimiters⟩ := d.step_setting (d.opening.text ++ t)
  have hfind : splitAtFirst? s.next.delimiters.opening.text s.next.rest = some ([], t) := by
    rw [hrest, hdelimiters]
    exact (splitAtFirst?_eq_some_iff d.opening.nonempty).2 ⟨rfl, nofun⟩
  have hs' : s.next.step = .ok (some (s.next.stepOver [] r)) :=
    Cursor.step_eq_some_iff.2 ⟨[], t, r, hfind, hdelimiters ▸ hread, rfl⟩
  have hnamed : (s.next.stepOver [] r).tag = .named (.interpolation false) := htag
  have htag' : (s.next.stepOver [] r).tag? = some (.interpolation false, r.body) := by
    rw [Step.tag?, hnamed]
    rfl
  refine ⟨d.setting ++ (d.opening.text ++ t), .interpolation false, ?_⟩
  rw [tags, Cursor.tokens_of_step_some hs, Cursor.tokens_of_step_some hs', List.filterMap_append,
    List.filterMap_append, Token.filterMap_tag?_ofStep, Token.filterMap_tag?_ofStep, htag']
  simp

/-- The names are the texts without space, the empty text apart. -/
theorem Text.isName_iff_solid {name : Text} : IsName name ↔ Solid name :=
  ⟨IsName.solid, Solid.isName⟩

/-- Where a name stands in front of a full stop and another name, all this is a name. -/
theorem Text.IsName.dotted {x y : Text} (hx : IsName x) (hy : IsName y) :
    IsName (x ++ '.' :: y) := by
  rw [isName_iff_solid] at hx hy ⊢
  refine ⟨List.append_ne_nil_of_left_ne_nil hx.1 _, ?_⟩
  intro c hc
  rcases List.mem_append.1 hc with hc | hc
  · exact hx.2 c hc
  · rcases List.mem_cons.1 hc with rfl | hc
    · rfl
    · exact hy.2 c hc

/-! ## Names and paths -/

namespace Path

/-- The only segment with a full stop in it is that of the name `.`. -/
theorem segments_ofName_eq_self {name s : Text} (hs : s ∈ (ofName name).segments)
    (hstop : '.' ∈ s) : (ofName name).segments = [['.']] := by
  rw [segments_ofName] at hs ⊢
  by_cases hself : name = ['.']
  · rw [if_pos hself]
  · rw [if_neg hself] at hs
    rw [List.splitOn_eq_splitOnP] at hs
    have hparted := Text.eq_false_of_mem_splitOnP hs hstop
    rw [beq_self_eq_true] at hparted
    contradiction

/-- Names with the same path are the same. -/
theorem ofName_injective : Function.Injective ofName :=
  Function.LeftInverse.injective name_ofName

end Path

/-- An end tag fits the innermost open section exactly if the paths of the two names are the same. -/
theorem Opening.mismatch?_eq_none_iff {name : Text} {innermost : Opening} {outer : List Opening} :
    mismatch? name (innermost :: outer) = none ↔ Path.ofName innermost.name = Path.ofName name := by
  rw [Path.ofName_injective.eq_iff, mismatch?]
  by_cases hsame : innermost.name = name
  · rw [if_pos hsame]
    exact iff_of_true rfl hsame
  · rw [if_neg hsame]
    exact iff_of_false (Option.some_ne_none _) hsame

/-- Names and paths correspond to each other.  The path of a name has segments, and with full stops
between them they are the name again; a segment has no full stop in it, unless it is the only one of
the name `.`.  So two names are the same exactly if they have the same path, and an end tag fits the
innermost open section exactly if the path of its name is that of the section.  A name, a full stop
and another name make a name again, and its path is the one path behind the other, unless one of the
two names is `.`. -/
theorem Path.ofName_corresponds {x y : Text} (hx : Text.IsName x) (hy : Text.IsName y) :
    (ofName x).segments ≠ [] ∧ ['.'].intercalate (ofName x).segments = x ∧
      (∀ s ∈ (ofName x).segments, '.' ∈ s → (ofName x).segments = [['.']]) ∧
      (x = y ↔ ofName x = ofName y) ∧
      (∀ span outer, Opening.mismatch? y (⟨x, span⟩ :: outer) = none ↔ ofName x = ofName y) ∧
      Text.IsName (x ++ '.' :: y) ∧
      (x ≠ ['.'] → y ≠ ['.'] →
        (ofName (x ++ '.' :: y)).segments = (ofName x).segments ++ (ofName y).segments) := by
  refine ⟨List.cons_ne_nil _ _, name_ofName x, fun s => segments_ofName_eq_self,
    ofName_injective.eq_iff.symm, fun span outer => Opening.mismatch?_eq_none_iff, hx.dotted hy, ?_⟩
  intro hself hself'
  have hne : x ++ '.' :: y ≠ ['.'] := by
    obtain ⟨c, more, rfl⟩ := List.exists_cons_of_ne_nil hx.solid.1
    simp
  rw [ofName_dotted hne hself hself', segments_append]

/-- Stops at the end of one name and at the beginning of the other: the name of both has them all. -/
theorem Path.ofName_corresponds_of_stops :
    Text.IsName ['a', '.'] ∧ Text.IsName ['.', 'b'] ∧
      ['.'].intercalate (ofName ['a', '.']).segments = ['a', '.'] ∧
      ofName ['a', '.'] ≠ ofName ['.', 'b'] ∧ Text.IsName "a...b".toList ∧
      (ofName "a...b".toList).segments = [['a'], [], [], ['b']] := by
  have hx : Text.Solid ['a', '.'] := ⟨by decide, by simp [Text.isSpace, Text.spaceRanges]⟩
  have hy : Text.Solid ['.', 'b'] := ⟨by decide, by simp [Text.isSpace, Text.spaceRanges]⟩
  obtain ⟨-, hjoin, -, hsame, -, hname, hdotted⟩ := ofName_corresponds hx.isName hy.isName
  refine ⟨hx.isName, hy.isName, hjoin, ?_, hname, hdotted (by decide) (by decide)⟩
  intro heq
  exact absurd (hsame.2 heq) (by decide)

end Mustache
