import CombinatorGrammar.Diagnostic.Basic
import CombinatorGrammar.Text.Lines

/-!
# Diagnostics with excerpts of the source

A diagnostic is shown as a heading and, for each label, the place as `path:line:column`, the line
of the source, and a row of markers below the labelled characters; notes follow. Colours are ANSI
escape sequences around parts of the text. After all diagnostics of a run a summary counts them.
-/

namespace CombinatorGrammar

/-- When colours are used. -/
inductive ColorMode where
  /-- When the output goes to a terminal. -/
  | auto
  | always
  | never
  deriving DecidableEq, Inhabited

/-- Whether colours are used for an output that is, or is not, a terminal. -/
def ColorMode.enabled (isTerminal : Bool) : ColorMode → Bool
  | auto => isTerminal
  | always => true
  | never => false

/-- A source with the path under which it is shown. -/
structure SourceFile where
  path : String
  text : List Char
  lines : LineTable

/-- The source of a path and a text. -/
def SourceFile.ofText (path text : String) : SourceFile :=
  ⟨path, text.toList, .ofSource text.toList⟩

namespace Excerpt

/-- The parts of an excerpt that have a colour of their own. -/
inductive Part where
  | severity (severity : Severity)
  | code
  | secondaryLabel

/-- The escape sequence that begins a part. -/
def Part.sequence : Part → String
  | severity .error => "\x1b[1;31m"
  | severity .warning => "\x1b[1;33m"
  | severity .note => "\x1b[1;36m"
  | code => "\x1b[1m"
  | secondaryLabel => "\x1b[1;34m"

/-- A part of the text, in its colour if colours are used. -/
def paint (colors : Bool) (part : Part) (text : String) : String :=
  if colors then part.sequence ++ text ++ "\x1b[0m" else text

/-- A text repeated. -/
def repeated (n : Nat) (c : Char) : String := "".pushn c n

/-- The place of a label, the line it is on and the markers below it. -/
def label (colors : Bool) (source : SourceFile) (severity : Severity) (l : Label) : String :=
  let (line, column) := source.lines.position source.text l.span.start
  let gutter := toString line
  let pad := repeated gutter.length ' '
  let excerpt := String.ofList ((source.lines.text? source.text line).getD [])
  let arrow := if l.isPrimary then "-->" else ":::"
  let marker := if l.isPrimary then '^' else '-'
  let part : Part := if l.isPrimary then .severity severity else .secondaryLabel
  -- an empty span still gets one marker
  let markers := repeated (max l.span.length 1) marker
  s!"  {arrow} {source.path}:{line}:{column}\n" ++
  s!"{pad} |\n" ++
  s!"{gutter} | {excerpt}\n" ++
  s!"{pad} | " ++ repeated (column - 1) ' ' ++ paint colors part s!"{markers} {l.message}" ++ "\n"

/-- A diagnostic with its excerpts, followed by an empty line. -/
def diagnostic (colors : Bool) (source : SourceFile) (d : Diagnostic) : String :=
  paint colors (.severity d.severity) d.severity.text ++
  paint colors .code s!"[{d.code.text}]" ++ s!": {d.message}\n" ++
  String.join (d.labels.map (label colors source d.severity)) ++
  String.join (d.notes.map fun note => s!"  = note: {note}\n") ++ "\n"

/-- A count of warnings. -/
private def warningCount (warnings : Nat) : String :=
  let plural := if warnings = 1 then "" else "s"
  s!"{warnings} warning{plural} emitted"

/-- The line that counts the errors and warnings of a run; none if there are neither. -/
def summary (colors : Bool) (errors warnings : Nat) : String :=
  if 0 < errors then
    let counted := if errors = 1 then "previous error" else s!"{errors} previous errors"
    let rest := if 0 < warnings then s!"; {warningCount warnings}" else ""
    paint colors (.severity .error) "error" ++ s!": aborting due to {counted}{rest}\n"
  else if 0 < warnings then
    paint colors (.severity .warning) "warning" ++ s!": {warningCount warnings}\n"
  else ""

end Excerpt

end CombinatorGrammar
