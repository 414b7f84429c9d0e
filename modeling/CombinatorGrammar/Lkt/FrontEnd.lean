import CombinatorGrammar.Lkt.Lexer
import CombinatorGrammar.Lkt.Rules
import CombinatorGrammar.Parse.Basic

/-!
# Reading LKT sources

The front end is the program of the LKT grammar with the interner in which its texts have names.
It takes a source from its text to its tree. What is wrong with the text itself does not stop the
parse: the piece is left out and reported before what the parse reports.
-/

namespace CombinatorGrammar.Lkt

/-- The program of the LKT grammar and the texts of its names. -/
structure FrontEnd where
  program : Program
  names : Interner

/-- The front end whose grammar is resolved over an interner that may hold texts already. -/
def FrontEnd.over (names : Interner) : Except (List Defect) FrontEnd := do
  let grammar ← match grammar with
    | .ok grammar => .ok grammar
    | .error defect => .error [defect]
  let (program, names) ← grammar.resolve names
  return ⟨program, names⟩

/-- The front end over a new interner. -/
def frontEnd : Except (List Defect) FrontEnd := FrontEnd.over .initial

/-- A source with its tokens and the texts of their names. -/
structure LexedSource where
  lexed : Lexed
  names : Interner

/-- The result of reading a source. -/
structure ParsedSource where
  /-- The tree, if the source could be parsed to its end. -/
  root : Option Value
  /-- Diagnostics of the text, then those of the parse. -/
  diagnostics : List Diagnostic

namespace FrontEnd

/-- The tokens of a source. -/
def lex (f : FrontEnd) (source : String) : LexedSource :=
  let (lexed, names) := Lkt.lex f.names source
  ⟨lexed, names⟩

/-- Parse a source whose tokens are known. -/
def parseLexed (f : FrontEnd) (source : LexedSource) (config : ParseConfig) :
    Except Fault ParseOutput :=
  f.program.parse source.names source.lexed.tokens config

/-- Read a source. -/
def parse (f : FrontEnd) (source : String) (config : ParseConfig) :
    Except Fault (ParsedSource × LexedSource) :=
  let lexed := f.lex source
  (f.parseLexed lexed config).map fun output =>
    (⟨output.root, lexed.lexed.diagnostics ++ output.diagnostics⟩, lexed)

end FrontEnd

end CombinatorGrammar.Lkt
