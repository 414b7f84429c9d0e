import CombinatorGrammar.Diagnostic.Code
import CombinatorGrammar.Text.Span

/-!
# Diagnostics

A diagnostic has a code, a severity, a message, labels that point into the source, and notes. A
warning code is never raised as an error. The diagnostics of a parse are built here, so that each
kind has one wording; what was expected is listed without repetitions, in the order of discovery.
-/

namespace CombinatorGrammar

/-- How grave a diagnostic is. -/
inductive Severity where
  | error
  | warning
  | note
  deriving DecidableEq, Inhabited

/-- The severity as it is written. -/
def Severity.text : Severity → String
  | error => "error"
  | warning => "warning"
  | note => "note"

/-- A place in the source with a remark. -/
structure Label where
  /-- The place. -/
  span : Span
  /-- The remark. -/
  message : String
  /-- Whether this is the place that the diagnostic is about. -/
  isPrimary : Bool
  deriving DecidableEq, Inhabited

/-- A message about the source. -/
structure Diagnostic where
  code : Code
  severity : Severity
  message : String
  labels : List Label
  notes : List String
  deriving DecidableEq, Inhabited

namespace Diagnostic

/-- A diagnostic of the given severity, except that a warning code makes a warning. -/
def raise (severity : Severity) (code : Code) (message : String) (labels : List Label)
    (notes : List String) : Diagnostic :=
  ⟨code, if code.isWarning then .warning else severity, message, labels, notes⟩

/-- A diagnostic about one place. -/
def atSpan (code : Code) (message : String) (span : Span) (label : String)
    (notes : List String) : Diagnostic :=
  raise .error code message [⟨span, label, true⟩] notes

/-- The place that the diagnostic is about: that of its first primary label. -/
def primarySpan? (d : Diagnostic) : Option Span :=
  (d.labels.find? Label.isPrimary).map Label.span

/-- Where the place that the diagnostic is about starts. -/
def primaryStart? (d : Diagnostic) : Option Nat := d.primarySpan?.map Span.start

/-- Whether the diagnostic is an error. -/
def isError (d : Diagnostic) : Bool := d.severity == .error

/-- The diagnostic as plain text: its message, then a line for each label and each note. -/
def text (d : Diagnostic) : String :=
  let label (l : Label) : String :=
    let marker := if l.isPrimary then "-->" else "   "
    s!"\n  {marker} {l.span.text}: {l.message}"
  s!"{d.severity.text} [{d.code.text}]: {d.message}" ++ String.join (d.labels.map label) ++
    String.join (d.notes.map fun note => s!"\n  = note: {note}")

/-- What was expected, as it reads in messages: each item once, in order, the last two joined by
a word. -/
def expectation (expected : List String) : String :=
  match expected.eraseDups with
  | [] => "something else"
  | [one] => one
  | [one, other] => s!"{one} or {other}"
  | several => ", ".intercalate several.dropLast ++ ", or " ++ several.getLastD ""

/-- The input does not continue with anything that was expected. -/
def syntaxError (span : Span) (expected : List String) (found : String) : Diagnostic :=
  let wanted := expectation expected
  atSpan .syntaxError s!"expected {wanted}, found {found}" span s!"expected {wanted}" []

/-- The grammar was matched but input is left. -/
def trailingInput (span : Span) (found : String) : Diagnostic :=
  atSpan .trailingInput s!"expected end of input, found {found}" span
    "unexpected input after the end of the grammar" []

/-- A failure behind a cut, in the place of which tokens were skipped. -/
def recoveredFailure (span : Span) (expected : List String) (found : String) : Diagnostic :=
  let wanted := expectation expected
  atSpan .recoveredFailure s!"expected {wanted}, found {found}" span s!"expected {wanted}"
    ["the surrounding construct was recovered as an error node"]

/-- A token was skipped. -/
def skippedToken (span : Span) (found : String) : Diagnostic :=
  atSpan .skippedToken s!"skipped unexpected {found}" span "skipped" []

end Diagnostic

end CombinatorGrammar
