/-!
# Diagnostic codes

Every diagnostic has a code of one letter and four digits. The first digit tells what produced
it: the lexer, the parser, or a parse that had to be stopped. Codes with the letter W are
warnings. A code is read back from its text in either case.
-/

namespace CombinatorGrammar

/-- What a diagnostic reports. -/
inductive Code where
  /-- E0001: a character that no token starts with. -/
  | invalidCharacter
  /-- E0002: a string without its closing quotation mark. -/
  | unterminatedString
  /-- E0003: a source too long for its offsets. -/
  | sourceTooLarge
  /-- E1001: the grammar expected something else. -/
  | syntaxError
  /-- E1002: tokens are left after the entry rule. -/
  | trailingInput
  /-- E1003: a failure behind a cut that was recovered from. -/
  | recoveredFailure
  /-- E9001: a rule entered itself again at the same token. -/
  | leftRecursion
  /-- E9002: rules were nested too deeply. -/
  | nestingLimit
  /-- W1001: a token that recovery skipped. -/
  | skippedToken
  deriving DecidableEq, Inhabited

namespace Code

/-- All codes, ordered by what produces them. -/
def all : List Code :=
  [invalidCharacter, unterminatedString, sourceTooLarge, syntaxError, trailingInput,
    recoveredFailure, leftRecursion, nestingLimit, skippedToken]

/-- The code as it is written. -/
def text : Code → String
  | invalidCharacter => "E0001"
  | unterminatedString => "E0002"
  | sourceTooLarge => "E0003"
  | syntaxError => "E1001"
  | trailingInput => "E1002"
  | recoveredFailure => "E1003"
  | leftRecursion => "E9001"
  | nestingLimit => "E9002"
  | skippedToken => "W1001"

/-- What the code means, in one line. -/
def description : Code → String
  | invalidCharacter => "invalid character in source"
  | unterminatedString => "unterminated string literal"
  | sourceTooLarge => "the source file is larger than 4 GiB and was not lexed"
  | syntaxError => "the input does not match the grammar at the reported position"
  | trailingInput => "the entry rule matched but input remains after it"
  | recoveredFailure =>
    "a construct failed after committing to it and was replaced by an error node"
  | leftRecursion => "a rule re-entered itself without consuming input"
  | nestingLimit => "rule nesting exceeded the configured maximum depth"
  | skippedToken => "a token was skipped by error recovery"

/-- Whether the lexer produces the code. -/
def isLexical : Code → Bool
  | invalidCharacter | unterminatedString | sourceTooLarge => true
  | _ => false

/-- Whether the parser produces the code for input that does not fit the grammar. -/
def isSyntactic : Code → Bool
  | syntaxError | trailingInput | recoveredFailure => true
  | _ => false

/-- Whether the code tells that a parse was stopped. -/
def isFault : Code → Bool
  | leftRecursion | nestingLimit => true
  | _ => false

/-- Whether the code is a warning. -/
def isWarning : Code → Bool
  | skippedToken => true
  | _ => false

/-- The code that a text names, in upper or lower case. Only the ASCII letters have E or W as
their upper case, so folding those is enough. -/
def ofText? (s : String) : Option Code :=
  all.find? fun code => code.text == s.map Char.toUpper

/-- No code is missing from the list of all codes. -/
theorem mem_all (code : Code) : code ∈ all := by
  cases code <;> decide

end Code

end CombinatorGrammar
