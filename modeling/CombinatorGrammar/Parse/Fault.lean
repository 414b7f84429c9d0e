import CombinatorGrammar.Diagnostic.Basic
import CombinatorGrammar.Token.Stream

/-!
# Faults

A fault stops a parse: the grammar cannot be run on the input at all. It is not a failure to
match, and nothing recovers from it.
-/

namespace CombinatorGrammar

/-- Why a parse was stopped. -/
inductive Fault where
  /-- A rule was entered again at the position at which it is being run. -/
  | leftRecursion (rule : String) (position : Nat)
  /-- A rule was entered at the deepest level of nesting. -/
  | nestingLimit (limit position : Nat)
  deriving DecidableEq

namespace Fault

/-- The code of the diagnostic for a fault. -/
def code : Fault → Code
  | leftRecursion _ _ => .leftRecursion
  | nestingLimit _ _ => .nestingLimit

/-- The position at which the parse was stopped. -/
def position : Fault → Nat
  | leftRecursion _ position => position
  | nestingLimit _ position => position

/-- The text of a fault. -/
def message : Fault → String
  | leftRecursion rule position =>
    s!"rule `{rule}` is left-recursive: re-entered at token {position} without consuming input"
  | nestingLimit limit position =>
    s!"rule nesting exceeded the limit of {limit} at token {position}"

/-- What can be done about a fault. -/
def advice : Fault → String
  | leftRecursion _ _ =>
    "rewrite the rule so it consumes a token before referring to itself"
  | nestingLimit _ _ => "raise the depth limit or reduce the input's nesting"

/-- The diagnostic for a fault, which points at the token where the parse was stopped. -/
def diagnostic (tokens : TokenStream) (f : Fault) : Diagnostic :=
  .atSpan f.code f.message (tokens.token f.position).span "parsing stopped here" [f.advice]

end Fault

end CombinatorGrammar
