import CombinatorGrammar.Program.Basic

/-!
# Failures

A failure is a position with what would have been accepted there. Two failures are merged by
keeping the further one; at one position their expectations are collected in the order of
discovery, each once.
-/

namespace CombinatorGrammar

/-- Something that would have been accepted. -/
inductive Expectation where
  /-- A token of the kind, with the given text if there is one. -/
  | token (kind : TokenKind) (text : Option Name)
  /-- A value that satisfies the predicate. -/
  | predicate (ref : PredicateRef)
  deriving DecidableEq

/-- An expectation as it reads in messages. -/
def Expectation.describe (p : Program) (names : Interner) : Expectation → String
  | token kind text => p.describeToken names kind text
  | predicate ref => s!"a value accepted by `{p.predicateName ref}`"

/-- Where a combinator failed, and what would have been accepted there. -/
structure Failure where
  /-- The position in the token stream. -/
  position : Nat
  expected : List Expectation
  deriving DecidableEq

namespace Failure

/-- A failure without expectations. -/
def plain (position : Nat) : Failure := ⟨position, []⟩

/-- The further of two failures; of two at one position, the first. -/
def further (f g : Failure) : Failure := if f.position < g.position then g else f

/-- Expectations followed by those of a second list that are not among them, each once. -/
def collect (known more : List Expectation) : List Expectation :=
  more.foldl (fun known e => if known.contains e then known else known ++ [e]) known

/-- The further of two failures; two at one position become one with the expectations of both. -/
def merge (f g : Failure) : Failure :=
  if f.position < g.position then g
  else if g.position = f.position then ⟨f.position, collect f.expected g.expected⟩
  else f

/-- What would have been accepted, as it reads in messages: each text once, in order. -/
def describe (p : Program) (names : Interner) (f : Failure) : List String :=
  (f.expected.map (Expectation.describe p names)).eraseDups

end Failure

end CombinatorGrammar
