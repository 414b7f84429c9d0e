import CombinatorGrammar.Parse.Nesting
import CombinatorGrammar.Parse.Parser

/-!
# Running a program

The parser of a matcher is defined by recursion on the matcher, given what it means to call a
rule. What it means to call a rule is defined by recursion on the levels of nesting that remain:
a call takes one level, and the body calls rules one level further down. A rule that is called at
a position where it is being run already is a fault, and so is a call without a level left.
-/

namespace CombinatorGrammar

/-- What it means to call a rule, given the rules that are being run and the matchers that the
enclosing regions protect. -/
abbrev Call := RuleRef → List (RuleRef × Nat) → List Matcher → State → Step

namespace Session

mutual

/-- The parser of a matcher, given what it means to call a rule. -/
def parser (x : Session) (call : Call) : Matcher → Parser
  | .token kind text keep, _, s => x.matchToken kind text keep s
  | .rule ref, scope, s => call ref scope.active (scope.guards.map Guard.pattern) s
  | .seq items, scope, s => sequence s.mark false [] (operands x call items) scope s
  | .choice alternatives, scope, s =>
    x.ordered (Matcher.recovers alternatives && x.recovery) s.mark none none
      (operands x call alternatives) scope s
  | .opt operand, scope, s => optional (x.program.arity operand) (parser x call operand) scope s
  | .group operand, scope, s => grouped (parser x call operand) scope s
  | .list repetition element, scope, s =>
    x.repeated (parser x call element) none repetition s.mark scope [] s
  | .sepList repetition element separator, scope, s =>
    x.repeated (parser x call element) (some (parser x call separator)) repetition s.mark scope [] s
  -- outside a sequence a cut commits nothing
  | .cut, _, s => s.yield []
  | .predicate ref operand, scope, s => x.checked ref (parser x call operand) scope s
  | .skip errorType, scope, s => x.skipToken errorType scope s
  | .protect operand guard, scope, s =>
    protecting ⟨guard, parser x call guard .empty⟩ (parser x call operand) scope s
  | .null type, _, s => s.yield [.absent type]
  | .node type layout operand, scope, s => x.build type layout (parser x call operand) scope s
  | .enum type alternative operand, scope, s =>
    x.select type alternative (parser x call operand) scope s

/-- The parsers of several matchers. -/
def operands (x : Session) (call : Call) : List Matcher → List Operand
  | [] => []
  | m :: ms => ⟨m, parser x call m⟩ :: operands x call ms

end

/-- The guard that a matcher makes. -/
def guard (x : Session) (call : Call) (pattern : Matcher) : Guard :=
  ⟨pattern, x.parser call pattern .empty⟩

/-- Run the body of a rule at the present position. -/
def enter (x : Session) (call : Call) (ref : RuleRef) (active : List (RuleRef × Nat))
    (guards : List Matcher) (s : State) : Step :=
  match x.program.rule? ref with
  | some rule =>
    x.parser call rule.body ⟨(ref, s.position) :: active, guards.map (x.guard call)⟩ s
  | none => s.fail (.plain s.position)

/-- Call a rule when `depth` levels are entered and `remaining` are left. -/
def call (x : Session) : (remaining depth : Nat) → Call
  | 0, depth, ref, active, _, s =>
    if active.contains (ref, s.position) then
      .error (.leftRecursion (x.program.ruleName ref) s.position)
    else .error (.nestingLimit depth s.position)
  | remaining + 1, depth, ref, active, guards, s =>
    if active.contains (ref, s.position) then
      .error (.leftRecursion (x.program.ruleName ref) s.position)
    else x.enter (x.call remaining (depth + 1)) ref active guards s

/-- Run a rule from a state, outside all other rules. -/
def run (x : Session) (maxDepth : Nat) (ref : RuleRef) (s : State) : Step :=
  let nesting := Nesting.ofLimit maxDepth
  x.call nesting.remaining nesting.depth ref [] [] s

end Session

end CombinatorGrammar
