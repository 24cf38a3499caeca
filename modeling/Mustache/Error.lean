import Mustache.Span

/-!
# What can go wrong

A template can be malformed, a partial can include itself without end, and the
place that the output goes to can refuse it. `Cause` lists these cases with the
names and texts that belong to each; every wording is a function of the cause,
so no text is built where an error arises.

An error about a template also says where: the span of the offending tag,
together with the text that the span points into. That text is not always the
template that was asked for, since a partial is compiled only when it is
included. An error about the rendering as a whole has neither span nor text, and
`Error.withSource` keeps it that way.

## Main results

* `withSource_of_span_eq_none`, `withSource_withSource` — a text is attached
  only to an error with a span, and the first one stays.
-/

namespace Mustache

/-- The sorts of faults of a stream of bytes, as far as they make a difference to a writer. -/
inductive FaultKind
  /-- The stream was interrupted before it did anything, and is to be asked again. -/
  | interrupted
  /-- The stream takes no more bytes. -/
  | writeZero
  | other
deriving DecidableEq, Repr

/-- Why a stream of bytes did not do what it was asked for. -/
structure Fault where
  kind : FaultKind
  reason : Text
deriving DecidableEq, Repr

/-- What went wrong. -/
inductive Cause
  /-- The text ended, or something else stood there, where a tag should be closed by `closing`. -/
  | unclosedTag (closing : Text)
  /-- A tag without a name. -/
  | emptyTag
  /-- A set-delimiter tag whose content is not two delimiters. -/
  | invalidDelimiters (content : Text)
  /-- An end tag where no section is open. -/
  | unexpectedEnd (got : Text)
  /-- An end tag for another section than the innermost one. -/
  | mismatchedEnd (expected got : Text)
  /-- The text ended inside a section. -/
  | unclosedSection (name : Text)
  /-- A section inside as many others as there may be. -/
  | nestingLimit (name : Text) (limit : Nat)
  /-- A partial included from inside as many others as there may be. -/
  | partialLimit (name : Text) (limit : Nat)
  /-- The data could not be read. -/
  | unreadableData (reason : Text)
  /-- The output was refused. -/
  | refusedOutput
  /-- The stream that the output goes to failed. -/
  | brokenStream (fault : Fault)
deriving DecidableEq, Repr

namespace Cause

/-- A stable name for the kind of cause. -/
def code : Cause → String
  | unclosedTag _ => "mustache::unclosed_tag"
  | emptyTag => "mustache::empty_tag"
  | invalidDelimiters _ => "mustache::invalid_delimiters"
  | unexpectedEnd _ => "mustache::unexpected_end_tag"
  | mismatchedEnd _ _ => "mustache::mismatched_end_tag"
  | unclosedSection _ => "mustache::unclosed_section"
  | nestingLimit _ _ => "mustache::nesting_limit_exceeded"
  | partialLimit _ _ => "mustache::recursion_limit_exceeded"
  | unreadableData _ => "mustache::reflect"
  | refusedOutput => "mustache::write"
  | brokenStream _ => "mustache::io"

/-- The sentence that reports the cause. -/
def message : Cause → String
  | unclosedTag closing => "unclosed tag, expected `" ++ .ofList closing ++ "`"
  | emptyTag => "tag has no name"
  | invalidDelimiters content => "invalid set-delimiter tag `=" ++ .ofList content ++ "=`"
  | unexpectedEnd got => "unmatched end tag: got `" ++ .ofList got ++ "`, expected nothing"
  | mismatchedEnd expected got =>
    "unmatched end tag: got `" ++ .ofList got ++ "`, expected `" ++ .ofList expected ++ "`"
  | unclosedSection name =>
    "unclosed section: got end of template, expected `" ++ .ofList name ++ "`"
  | nestingLimit name limit =>
    "section `" ++ .ofList name ++ "` nests deeper than " ++ limit.repr ++ " levels"
  | partialLimit name limit =>
    "partial `" ++ .ofList name ++ "` exceeds the nesting limit of " ++ limit.repr
  | unreadableData reason => "reflection error: " ++ .ofList reason
  | refusedOutput => "failed to write output"
  | brokenStream fault => "I/O error: " ++ .ofList fault.reason

/-- The remark to put beside the offending tag. -/
def label : Cause → String
  | unclosedTag closing => "expected `" ++ .ofList closing ++ "` here"
  | emptyTag => "empty tag"
  | invalidDelimiters _ => "expected two delimiters"
  | unexpectedEnd _ => "no section to close"
  | mismatchedEnd expected _ => "expected `" ++ .ofList expected ++ "`"
  | unclosedSection _ => "section opened here"
  | nestingLimit _ _ => "too deeply nested"
  | partialLimit _ _ => "partial included here"
  | unreadableData _ => "reflection error"
  | refusedOutput => "write error"
  | brokenStream _ => "I/O error"

/-- Advice on what to do about the cause, where there is some. -/
def help? : Cause → Option String
  | invalidDelimiters _ => some "set-delimiter tags look like `\x7b\x7b=<% %>=\x7d\x7d`"
  | mismatchedEnd _ _ => some "sections must be closed in the reverse order they were opened"
  | unclosedSection _ => some "add an end tag before the end of the template"
  | nestingLimit _ _ => some "split the template into partials to reduce nesting"
  | partialLimit _ _ =>
    some ("check the partials for unbounded recursion, or raise " ++
      "`RenderOptions::max_partial_depth`")
  | _ => none

end Cause

/-- A cause, with the place it points to. -/
structure Error where
  cause : Cause
  /-- The offending tag, if the error is about a place in a template. -/
  span : Option Span
  /-- The text that the span points into. -/
  source : Option Text
deriving DecidableEq, Repr

namespace Error

/-- An error about a place in a template. -/
def located (cause : Cause) (span : Span) : Error :=
  ⟨cause, some span, none⟩

/-- An error about no place in particular. -/
def placeless (cause : Cause) : Error :=
  ⟨cause, none, none⟩

/-- The error about data that cannot be read. -/
def unreadable (reason : Text) : Error :=
  placeless (.unreadableData reason)

/-- Attaches the text that the span points into, unless there is no span or already a text. -/
def withSource (source : Text) (e : Error) : Error :=
  if e.span.isSome && e.source.isNone then { e with source := some source } else e

/-- The text of the failure below this one, if a stream failed. -/
def reason? (e : Error) : Option Text :=
  match e.cause with
  | .brokenStream fault => some fault.reason
  | _ => none

@[simp] theorem withSource_located (cause : Cause) (span : Span) (source : Text) :
    (located cause span).withSource source = ⟨cause, some span, some source⟩ := rfl

theorem withSource_of_span_eq_none {e : Error} (h : e.span = none) (source : Text) :
    e.withSource source = e := by
  simp [withSource, h]

theorem span_withSource (source : Text) (e : Error) : (e.withSource source).span = e.span := by
  rw [withSource]
  split <;> rfl

@[simp] theorem withSource_withSource (e : Error) (s t : Text) :
    (e.withSource s).withSource t = e.withSource s := by
  by_cases h : (e.span.isSome && e.source.isNone) = true
  · simp [withSource, h]
  · simp only [withSource, h]
    simp [h]

end Error

end Mustache
