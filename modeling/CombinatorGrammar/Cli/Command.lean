import CombinatorGrammar.Cli.Report
import CombinatorGrammar.Program.Summary

/-!
# The command line

A command answers what it writes to the two output streams and whether it succeeded. Reading
files is left to the caller, who passes the reader in and tells whether the diagnostics go to a
terminal.
-/

namespace CombinatorGrammar.Cli

/-- What a command writes, and whether it succeeded. -/
structure Output where
  out : String
  err : String
  success : Bool
  deriving DecidableEq

namespace Output

/-- A success that writes to the standard output. -/
def ok (text : String) : Output := ⟨text, "", true⟩

/-- A failure that writes to the standard error. -/
def failed (text : String) : Output := ⟨"", text, false⟩

/-- The exit status of the program. -/
def status (o : Output) : Nat := if o.success then 0 else 1

end Output

/-- Why a file cannot be read. -/
inductive ReadError where
  | notFound
  | denied
  | invalidText
  | other (reason : String)
  deriving DecidableEq

/-- The text of a read error for the file of a path. -/
def ReadError.message (path : String) : ReadError → String
  | notFound => s!"cannot find file '{path}'"
  | denied => s!"permission denied reading '{path}'"
  | invalidText => s!"'{path}' contains invalid UTF-8 data"
  | other reason => s!"cannot read '{path}': {reason}"

/-- Some lines as one text. -/
def lines (ls : List String) : String := String.join (ls.map (· ++ "\n"))

/-- How the program is used. -/
def usage : String := lines
  ["Gram combinator-grammar parser",
    "",
    "Usage: gram <command> [options]",
    "",
    "Commands:",
    "  parse <files...>     Parse LKT files and print their trees",
    "  grammar              Summarize the bundled LKT grammar",
    "  explain <code>       Explain a diagnostic code (e.g., E1001)",
    "  help                 Show this help message",
    "  version              Show the version",
    "",
    "Environment:",
    "  RUST_LOG=<filter>    Enable logging (e.g., gram_parse=trace)",
    "  GRAM_LOG_TREE=1      Render logs as an indented call tree"]

/-- How the `parse` command is used. -/
def parseUsage : String := lines
  ["Usage: gram parse <files...> [options]",
    "",
    "Options:",
    "  --strict            Disable error recovery",
    "  --max-depth=<n>     Maximum rule nesting (default: 4096)",
    "  --error-limit=<n>   Errors shown per file, 0 for all (default: 10)",
    "  --color=<when>      auto, always, never",
    "  -q, --quiet         Print diagnostics only"]

/-- How the `explain` command is used. -/
def explainUsage : String := lines
  ["Usage: gram explain <ERROR_CODE>", "Example: gram explain E1001"]

/-- The version of the program. -/
def version : String := lines ["Gram 0.1.0-alpha.1"]

/-- The failure of a command that finds the grammar of LKT defective. -/
def defective (defects : List Defect) : Output :=
  .failed s!"error: the bundled LKT grammar is invalid: {Defect.report defects}\n"

/-- Summarize the grammar of LKT. -/
def summarize : Output :=
  match Lkt.frontEnd with
  | .ok f => .ok f.program.summary
  | .error defects => defective defects

/-- Explain a diagnostic code. -/
def explain (text : String) : Output :=
  match Code.ofText? text with
  | some code =>
    let kind := if code.isWarning then "warning" else "error"
    .ok s!"{code.text} ({kind}): {code.description}\n"
  | none => .failed (lines
      [s!"Unknown error code: {text}", "",
        "Codes have the format EXXXX (errors) or WXXXX (warnings) where X is a digit.",
        "Examples: E0001, E1001, E9001, W1001"])

/-- What has been written for the files so far, and their counts. -/
structure Progress where
  out : String
  err : String
  errors : Nat
  warnings : Nat

/-- Add what one file gives, read under the path that the command was given. -/
def Progress.addFile (f : Lkt.FrontEnd) (options : Options) (colors : Bool) (p : Progress)
    (path : String) (content : Except ReadError String) : Progress :=
  match content with
  | .error e =>
    { p with err := p.err ++ s!"error: {e.message path}\n", errors := p.errors + 1 }
  | .ok source =>
    let report := check f options path source
    let heading := if 1 < options.files.length then s!"== {path} ==\n" else ""
    let tree := match report.outline with
      | some outline => if options.quiet then "" else heading ++ outline
      | none => ""
    { out := p.out ++ tree
      err := p.err ++ report.excerpts colors
      errors := p.errors + report.errors
      warnings := p.warnings + report.warnings }

/-- What the `parse` command answers for its files, given with their contents. -/
def parseContents (f : Lkt.FrontEnd) (options : Options) (terminal : Bool)
    (files : List (String × Except ReadError String)) : Output :=
  let colors := options.color.enabled terminal
  let p := files.foldl (fun p (path, content) => Progress.addFile f options colors p path content)
    ⟨"", "", 0, 0⟩
  ⟨p.out, p.err ++ Excerpt.summary colors p.errors p.warnings, p.errors == 0⟩

/-- The `parse` command. -/
def parseFiles {m : Type → Type} [Monad m] (terminal : Bool)
    (read : String → m (Except ReadError String)) (options : Options) : m Output :=
  match Lkt.frontEnd with
  | .ok f => do
    let files ← options.files.mapM fun path => return (path, ← read path)
    return parseContents f options terminal files
  | .error defects => return defective defects

/-- What the program does with its arguments. -/
def run {m : Type → Type} [Monad m] (terminal : Bool)
    (read : String → m (Except ReadError String)) (arguments : List String) : m Output :=
  match arguments with
  | [] => return .ok usage
  | command :: rest =>
    if command = "parse" then
      match Options.ofArguments rest with
      | .ok options => parseFiles terminal read options
      | .error e => return .failed (lines [s!"error: {e.message}", ""] ++ parseUsage)
    else if command = "grammar" then return summarize
    else if command = "--explain" ∨ command = "explain" then
      match rest with
      | [] => return .failed explainUsage
      | code :: _ => return explain code
    else if command = "help" ∨ command = "--help" ∨ command = "-h" then return .ok usage
    else if command = "version" ∨ command = "--version" ∨ command = "-V" then
      return .ok version
    else return ⟨usage, lines [s!"Unknown command: {command}", ""], false⟩

end CombinatorGrammar.Cli
