import CombinatorGrammar.Diagnostic.Excerpt
import CombinatorGrammar.Parse.Basic

/-!
# Options of the `parse` command

Arguments are read from left to right; the first that cannot be used is the answer. An argument
that begins with a hyphen is an option, any other is a file. Numbers are decimal, may have a plus
sign in front, and fit into 64 bits.
-/

namespace CombinatorGrammar.Cli

/-- What the arguments of the `parse` command ask for. -/
structure Options where
  files : List String
  config : ParseConfig
  /-- How many errors are shown for each file at most; zero stands for all. -/
  errorLimit : Nat
  /-- Whether trees are left out. -/
  quiet : Bool
  color : ColorMode
  deriving DecidableEq

/-- Why arguments cannot be used. -/
inductive OptionError where
  /-- The value of a numeric option is not a number. -/
  | invalidNumber (flag value : String)
  /-- The nesting of rules is limited to nothing. -/
  | zeroDepth
  /-- The value of the colour option is none of its choices. -/
  | invalidColor (value : String)
  /-- There is no such option. -/
  | unknownOption (argument : String)
  /-- No file is given. -/
  | noFiles
  deriving DecidableEq

/-- The text of an option error. -/
def OptionError.message : OptionError → String
  | invalidNumber flag value => s!"invalid value '{value}' for {flag}: expected a number"
  | zeroDepth => "--max-depth must be at least 1"
  | invalidColor value => s!"invalid value '{value}' for --color"
  | unknownOption argument => s!"unknown option '{argument}'"
  | noFiles => "no input files"

/-- The number that some decimal digits stand for. -/
def decimal (digits : List Char) : Nat :=
  digits.foldl (fun n c => 10 * n + (c.toNat - '0'.toNat)) 0

/-- The largest number that an option takes. -/
def maxNumber : Nat := 18446744073709551615

/-- The number of a text: at least one decimal digit, behind a plus sign or not. -/
def number? (text : String) : Option Nat :=
  let digits := match text.toList with
    | '+' :: rest => rest
    | all => all
  if digits.isEmpty || !digits.all Char.isDigit then none
  else
    let n := decimal digits
    if n ≤ maxNumber then some n else none

/-- The rest of a text behind a beginning that it may have. -/
def behind? (start text : String) : Option String :=
  if start.toList.isPrefixOf text.toList then
    some (String.ofList (text.toList.drop start.length))
  else none

/-- The number that an option is given. -/
def numeric (flag value : String) : Except OptionError Nat :=
  match number? value with
  | some n => .ok n
  | none => .error (.invalidNumber flag value)

namespace Options

/-- What is asked for when no option is given. -/
def standard : Options := ⟨[], .standard, QueueConfig.standard.errorLimit, false, .auto⟩

/-- The colour mode of a name. -/
def colorMode (value : String) : Except OptionError ColorMode :=
  if value = "auto" then .ok .auto
  else if value = "always" then .ok .always
  else if value = "never" then .ok .never
  else .error (.invalidColor value)

/-- Take one argument into account. -/
def take (o : Options) (argument : String) : Except OptionError Options :=
  if argument = "--strict" then .ok { o with config := { o.config with recovery := false } }
  else if argument = "--quiet" ∨ argument = "-q" then .ok { o with quiet := true }
  else if let some value := behind? "--max-depth=" argument then do
    let depth ← numeric "--max-depth" value
    if depth = 0 then throw .zeroDepth
    return { o with config := { o.config with maxDepth := depth } }
  else if let some value := behind? "--error-limit=" argument then do
    return { o with errorLimit := ← numeric "--error-limit" value }
  else if let some value := behind? "--color=" argument then do
    return { o with color := ← colorMode value }
  else if (behind? "-" argument).isSome then .error (.unknownOption argument)
  else .ok { o with files := o.files ++ [argument] }

/-- What some arguments ask for. -/
def ofArguments (arguments : List String) : Except OptionError Options := do
  let o ← arguments.foldlM take standard
  if o.files.isEmpty then throw .noFiles
  return o

end Options

end CombinatorGrammar.Cli
