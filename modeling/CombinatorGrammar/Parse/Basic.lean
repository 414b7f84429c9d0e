import CombinatorGrammar.Diagnostic.Queue
import CombinatorGrammar.Parse.Run

/-!
# Parsing

A parse runs the entry rule from the first token and asks that it reach the end of the input. It
answers a tree or else reports one syntax error: at the furthest position at which anything
failed, with all that was expected there. A single rule can also be attempted at any position,
where it need not reach the end.
-/

namespace CombinatorGrammar

/-- How a program is run. -/
structure ParseConfig where
  /-- How deeply rules may be nested. -/
  maxDepth : Nat
  /-- Whether skips may take tokens. -/
  recovery : Bool
  deriving DecidableEq

namespace ParseConfig

/-- Recovery, and 4096 levels of rules. -/
def standard : ParseConfig := ⟨4096, true⟩

end ParseConfig

/-- The result of a parse of the whole input. -/
structure ParseOutput where
  /-- The tree, if the entry rule matched the whole input. -/
  root : Option Value
  /-- Errors and warnings in the order in which they were found. -/
  diagnostics : List Diagnostic

namespace ParseOutput

/-- The errors among the diagnostics. -/
def errors (o : ParseOutput) : List Diagnostic := o.diagnostics.filter Diagnostic.isError

/-- The warnings among the diagnostics. -/
def warnings (o : ParseOutput) : List Diagnostic :=
  o.diagnostics.filter fun d => d.severity == .warning

/-- Whether there is an error among the diagnostics. -/
def hasErrors (o : ParseOutput) : Bool := o.diagnostics.any Diagnostic.isError

end ParseOutput

/-- Why an attempt of a rule failed. -/
structure AttemptFailure where
  position : Nat
  /-- Whether the failure lies behind a cut. -/
  committed : Bool
  /-- What would have been accepted, as it reads in messages. -/
  expected : List String
  deriving DecidableEq

/-- The result of running one rule from one position. -/
structure RuleAttempt where
  result : Except AttemptFailure (List Value)
  /-- The position after the attempt. -/
  position : Nat
  diagnostics : List Diagnostic

namespace Session

/-- The syntax error of a parse that failed: at the furthest of all failures. -/
def syntaxError (x : Session) (furthest : Option Failure) (f : Failure) : Diagnostic :=
  let furthest := (furthest.getD (.plain f.position)).merge f
  let t := x.tokens.token furthest.position
  .syntaxError t.span (x.describeExpected furthest) (x.describeFound t)

/-- The diagnostic for input that is left behind the entry rule. If something failed at or beyond
it, what was expected there is what was missing. -/
def leftover (x : Session) (s : State) : Diagnostic :=
  let t := x.current s
  let found := x.describeFound t
  match s.furthest with
  | some f =>
    if f.expected.isEmpty then .trailingInput t.span found
    else if s.position < f.position then x.syntaxError none f
    else if f.position = s.position then
      .syntaxError t.span (x.describeExpected f ++ ["end of input"]) found
    else .trailingInput t.span found
  | none => .trailingInput t.span found

/-- The values of the entry rule as one tree. -/
def rootOf : List Value → Value
  | [value] => value
  | values => .list values

/-- The output of a parse whose entry rule ended with an outcome in a state. -/
def finish (x : Session) (outcome : Outcome) (s : State) : ParseOutput :=
  match outcome with
  | .success values =>
    if x.atEnd s then ⟨some (rootOf values), s.diagnostics⟩
    else ⟨none, (s.report (x.leftover s)).diagnostics⟩
  | .soft f => ⟨none, (s.report (x.syntaxError s.furthest f)).diagnostics⟩
  | .hard f => ⟨none, (s.report (x.syntaxError s.furthest f)).diagnostics⟩

end Session

namespace Program

/-- The session of a program on some tokens. -/
def session (p : Program) (names : Interner) (tokens : TokenStream) (config : ParseConfig) :
    Session :=
  ⟨p, names, tokens, config.recovery⟩

/-- Parse the whole input from the entry rule. -/
def parse (p : Program) (names : Interner) (tokens : TokenStream) (config : ParseConfig) :
    Except Fault ParseOutput :=
  let x := p.session names tokens config
  match x.run config.maxDepth p.entry (.initial 0) with
  | .error fault => .error fault
  | .ok (outcome, s) => .ok (x.finish outcome s)

/-- Parse the whole input and collect the diagnostics in a queue. -/
def parseInto (p : Program) (names : Interner) (tokens : TokenStream) (config : ParseConfig)
    (queue : DiagnosticQueue) : Except Fault (Option Value × DiagnosticQueue) :=
  (p.parse names tokens config).map fun output =>
    (output.root, queue.addAll output.diagnostics)

/-- Run one rule from a position, or from the end if the input is shorter. -/
def attempt (p : Program) (names : Interner) (tokens : TokenStream) (config : ParseConfig)
    (rule : RuleRef) (start : Nat) : Except Fault RuleAttempt :=
  let x := p.session names tokens config
  match x.run config.maxDepth rule (.initial (min start tokens.lastPosition)) with
  | .error fault => .error fault
  | .ok (outcome, s) =>
    let result := match outcome with
      | .success values => .ok values
      | .soft f => .error ⟨f.position, false, x.describeExpected f⟩
      | .hard f => .error ⟨f.position, true, x.describeExpected f⟩
    .ok ⟨result, s.position, s.diagnostics⟩

end Program

end CombinatorGrammar
