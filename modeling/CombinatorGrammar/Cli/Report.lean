import CombinatorGrammar.Cli.Options
import CombinatorGrammar.Lkt.FrontEnd

/-!
# Reports on files

The report on a file holds the outline of its tree, if it could be parsed, and its diagnostics as
a queue without repetitions hands them out. A fault of the parse is a diagnostic like others.
-/

namespace CombinatorGrammar.Cli

/-- What reading one file produced. -/
structure FileReport where
  path : String
  source : String
  /-- The outline of the tree, if the file could be parsed to its end. -/
  outline : Option String
  /-- The diagnostics that were kept, in the order of the source. -/
  diagnostics : List Diagnostic
  /-- How many errors were kept. -/
  errors : Nat
  /-- How many other diagnostics were kept. -/
  warnings : Nat

/-- The report on a source. -/
def check (f : Lkt.FrontEnd) (options : Options) (path source : String) : FileReport :=
  let lexed := f.lex source
  let queue := (DiagnosticQueue.empty ⟨options.errorLimit, true⟩).addAll lexed.lexed.diagnostics
  let (outline, queue) := match f.parseLexed lexed options.config with
    | .ok output =>
      (output.root.map (f.program.outlineContext lexed.names).outline,
        queue.addAll output.diagnostics)
    | .error fault => (none, (queue.add (fault.diagnostic lexed.lexed.tokens)).2)
  { path := path
    source := source
    outline := outline
    diagnostics := queue.flush.1
    errors := queue.errorCount
    warnings := queue.warningCount }

/-- The diagnostics of a report with excerpts of its source. -/
def FileReport.excerpts (colors : Bool) (r : FileReport) : String :=
  let source := SourceFile.ofText r.path r.source
  String.join (r.diagnostics.map (Excerpt.diagnostic colors source))

end CombinatorGrammar.Cli
