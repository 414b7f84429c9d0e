import CombinatorGrammar.Parse.Failure
import CombinatorGrammar.Parse.Fault

/-!
# The state of a parse

A run of a matcher reads a session, which never changes, and threads a state: the position, the
diagnostics that are pending, and the furthest failure so far. A mark remembers the position and
how many diagnostics are pending. Going back to a mark restores the position and drops the
diagnostics reported since, but it keeps the furthest failure, so that what was expected on an
abandoned path still counts.
-/

namespace CombinatorGrammar

/-- What a run reads and never changes. -/
structure Session where
  program : Program
  /-- The texts of the names in the program and the tokens. -/
  names : Interner
  tokens : TokenStream
  /-- Whether skips may take tokens. -/
  recovery : Bool

/-- What a run changes. -/
structure State where
  /-- How many tokens are behind. -/
  position : Nat
  /-- The diagnostics so far, the latest first. -/
  pending : List Diagnostic
  /-- The furthest failure so far, with all that was expected there. -/
  furthest : Option Failure
  deriving DecidableEq

/-- A place to go back to. -/
structure Mark where
  /-- The position there. -/
  position : Nat
  /-- How many diagnostics are pending there. -/
  pending : Nat
  deriving DecidableEq

/-- How a run ends when it is not stopped. -/
inductive Outcome where
  /-- The input was matched, with these values. -/
  | success (values : List Value)
  /-- The input was not matched; something else may be tried. -/
  | soft (failure : Failure)
  /-- The input was not matched behind a cut; nothing else is tried. -/
  | hard (failure : Failure)
  deriving Inhabited

/-- Whether the input was matched. -/
def Outcome.isSuccess : Outcome → Bool
  | success _ => true
  | _ => false

/-- The result of a run: an outcome with the state that it leaves, or the fault that stopped it. -/
abbrev Step := Except Fault (Outcome × State)

namespace State

/-- The state at the beginning of a run. -/
def initial (position : Nat) : State := ⟨position, [], none⟩

/-- The mark of a state. -/
def mark (s : State) : Mark := ⟨s.position, s.pending.length⟩

/-- Go back to a mark: the diagnostics reported since are dropped, the furthest failure is kept. -/
def rewind (s : State) (m : Mark) : State :=
  ⟨m.position, s.pending.drop (s.pending.length - m.pending), s.furthest⟩

/-- Add a diagnostic. -/
def report (s : State) (d : Diagnostic) : State := { s with pending := d :: s.pending }

/-- The diagnostics so far, in order. -/
def diagnostics (s : State) : List Diagnostic := s.pending.reverse

/-- The state in which a failure is taken into account. -/
def record (s : State) (f : Failure) : State :=
  { s with furthest := some (match s.furthest with
      | some furthest => furthest.merge f
      | none => f) }

/-- Fail, and take the failure into account. -/
def fail (s : State) (f : Failure) : Step := .ok (.soft f, s.record f)

/-- Succeed with the given values. -/
def yield (s : State) (values : List Value) : Step := .ok (.success values, s)

end State

namespace Session

/-- The token at the position of a state. -/
def current (x : Session) (s : State) : Token := x.tokens.token s.position

/-- Whether the state is at the termination token. -/
def atEnd (x : Session) (s : State) : Bool := (x.current s).kind.isTermination

/-- Go past the current token; the termination token is never passed. -/
def advance (x : Session) (s : State) : State :=
  if x.atEnd s then s else { s with position := s.position + 1 }

/-- The span of the tokens between an earlier state and this one. -/
def spanSince (x : Session) (earlier s : State) : Span :=
  x.tokens.spanOf earlier.position s.position

/-- A token of the input, as it reads in messages. -/
def describeFound (x : Session) (t : Token) : String := x.program.describeFound x.names t

/-- What a failure expected, as it reads in messages. -/
def describeExpected (x : Session) (f : Failure) : List String := f.describe x.program x.names

end Session

end CombinatorGrammar
