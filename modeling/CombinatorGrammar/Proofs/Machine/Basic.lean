import CombinatorGrammar.Proofs.Run.Rules
import Mathlib.Logic.Relation

/-!
# The engine

The interpreter hands the rules in progress and the guards down to the parts of a matcher, and the
levels of nesting with them. Here all of these belong to one engine that is changed in place: a rule
is entered in it and left again, a guard is pushed and popped, and the attempts of guards set aside
what they must not see and put it back. What is still to be done stands in frames on a stack, so a
configuration tells all about a run at one moment, and a step leads from one configuration to the
next. Nothing here says that a run ends.
-/

namespace CombinatorGrammar

/-- All that a run changes. -/
structure Engine where
  state : State
  nesting : Nesting
  /-- The rules in progress with the positions where they were entered, the latest first. -/
  active : List (RuleRef × Nat)
  /-- The matchers that the enclosing regions protect, innermost first. -/
  guards : List Matcher

/-- What is set aside while guards are attempted. -/
structure Aside where
  active : List (RuleRef × Nat)
  guards : List Matcher
  furthest : Option Failure

namespace Engine

/-- The engine before a run from a position, at most so many levels deep. -/
def initial (maxDepth position : Nat) : Engine := ⟨.initial position, .ofLimit maxDepth, [], []⟩

/-- Where parsers run in the engine. -/
def context (e : Engine) : Context := ⟨e.active, e.guards⟩

/-- What it means to call a rule on the levels of the engine. -/
def call (x : Session) (e : Engine) : Call := x.call e.nesting.remaining e.nesting.depth

/-- What the interpreter computes for a matcher in the engine. -/
def result (x : Session) (e : Engine) (m : Matcher) : Step :=
  x.parser (e.call x) m (e.context.scope x (e.call x)) e.state

/-- Where a run begins, running a rule is the run of the rule. -/
theorem result_initial (x : Session) (maxDepth position : Nat) (ref : RuleRef) :
    Engine.result x (.initial maxDepth position) (.rule ref) =
      x.run maxDepth ref (.initial position) := by
  simp only [result, Session.parser, context, initial, Context.scope, List.map_nil]
  rfl

/-- Go back to a mark. -/
def rewind (e : Engine) (m : Mark) : Engine := { e with state := e.state.rewind m }

/-- What is to be set aside now. -/
def aside (e : Engine) : Aside := ⟨e.active, e.guards, e.state.furthest⟩

/-- Outside all rules and regions, without a furthest failure. -/
def clear (e : Engine) : Engine :=
  { e with
    active := []
    guards := []
    state := { e.state with furthest := none } }

/-- Put back what was set aside. -/
def restore (e : Engine) (a : Aside) : Engine :=
  { e with
    active := a.active
    guards := a.guards
    state := { e.state with furthest := a.furthest } }

/-- Leave a rule that was entered at a position. -/
def leave (e : Engine) (ref : RuleRef) (position : Nat) : Engine :=
  { e with nesting := e.nesting.leave, active := e.active.erase (ref, position) }

end Engine

/-- A list that is being matched since the mark. -/
structure ListRun where
  repetition : Repetition
  element : Matcher
  separator : Option Matcher
  start : Mark

/-- What is to be done when a part of a run has ended. -/
inductive Frame where
  /-- The body of a rule that was entered at the position. -/
  | rule (ref : RuleRef) (position : Nat)
  /-- An item of a sequence that began at the mark, behind which others remain. -/
  | items (start : Mark) (committed : Bool) (values : List Value) (rest : List Matcher)
  /-- An alternative of a choice that began at the mark, behind which others remain. -/
  | alternatives (recovers : Bool) (start : Mark) (best committed : Option Failure)
    (rest : List Matcher)
  | opt (start : Mark) (arity : Nat)
  | group (start : Mark)
  /-- The separator of the turn that began at the mark `turn`, behind the given items. -/
  | separator (l : ListRun) (items : List Value) (turn : Mark)
  /-- The element of the turn that began at the mark `turn`, behind the given items. -/
  | element (l : ListRun) (items : List Value) (turn : Mark)
  | predicate (ref : PredicateRef) (start : Mark)
  /-- The attempt of a guard from the mark `start`, for a skip. -/
  | guard (errorType : NodeRef) (start : Mark) (rest : List Matcher) (outer : Aside)
  /-- The region that protects a guard. -/
  | protect (guard : Matcher)
  | node (type : NodeRef) (layout : List FieldKind) (position : Nat)
  | enum (type : EnumRef) (alternative : Nat) (position : Nat)

/-- What is to be done now. -/
inductive Control where
  | eval (m : Matcher)
  /-- A run has ended with an outcome. -/
  | answer (o : Outcome)
  /-- A run has been stopped by a fault. -/
  | raise (fault : Fault)

/-- A run at one moment. -/
structure Configuration where
  control : Control
  engine : Engine
  /-- What is still to be done, the first first. -/
  frames : List Frame

namespace Configuration

/-- A rule that is to be run from a position, outside all other rules and at most so many levels
deep. -/
def ofRule (maxDepth : Nat) (ref : RuleRef) (position : Nat) : Configuration :=
  ⟨.eval (.rule ref), .initial maxDepth position, []⟩

/-- The end of a part of a run. -/
def ofStep (e : Engine) (frames : List Frame) : Step → Configuration
  | .ok (o, s) => ⟨.answer o, { e with state := s }, frames⟩
  | .error fault => ⟨.raise fault, e, frames⟩

/-- The result of a run, if nothing is left to be done. -/
def result? : Configuration → Option Step
  | ⟨.answer o, e, []⟩ => some (.ok (o, e.state))
  | ⟨.raise fault, _, []⟩ => some (.error fault)
  | _ => none

end Configuration

/-- What is undone in the engine when the part of a run below the frame is over, also where a fault
has stopped it. -/
def Frame.close : Frame → Engine → Engine
  | .rule ref position, e => e.leave ref position
  | .guard _ _ _ outer, e => e.restore outer
  | .protect _, e => { e with guards := e.guards.tail }
  | _, e => e

namespace Session

variable (x : Session)

/-- Enter a rule. It is taken among those in progress before a level of nesting is asked for, and
taken out again if none is left. -/
def enterRule (ref : RuleRef) (e : Engine) (frames : List Frame) : Configuration :=
  let position := e.state.position
  if e.active.contains (ref, position) then
    ⟨.raise (.leftRecursion (x.program.ruleName ref) position), e, frames⟩
  else
    let taken := { e with active := (ref, position) :: e.active }
    match e.nesting.enter? with
    | none =>
      ⟨.raise (.nestingLimit e.nesting.limit position),
        { taken with active := taken.active.erase (ref, position) }, frames⟩
    | some nesting =>
      let entered := { taken with nesting := nesting }
      match x.program.rule? ref with
      | some rule => ⟨.eval rule.body, entered, .rule ref position :: frames⟩
      | none => .ofStep entered (.rule ref position :: frames) (e.state.fail (.plain position))

/-- Go on with the items that remain of a sequence. -/
def nextItem (start : Mark) (committed : Bool) (values : List Value) :
    List Matcher → Engine → List Frame → Configuration
  | [], e, frames => ⟨.answer (.success values), e, frames⟩
  | m :: ms, e, frames =>
    if m.isCut then nextItem start true values ms e frames
    else ⟨.eval m, e, .items start committed values ms :: frames⟩

/-- Go on with the alternatives that remain of a choice. -/
def nextAlternative (recovers : Bool) (start : Mark) (best committed : Option Failure) :
    List Matcher → Engine → List Frame → Configuration
  | [], e, frames =>
    match committed with
    | some f => ⟨.answer (.hard f), e.rewind start, frames⟩
    | none => ⟨.answer (.soft (best.getD (.plain start.position))), e, frames⟩
  | m :: ms, e, frames =>
    if committed.isSome && !m.isSkip then
      nextAlternative recovers start best committed ms e frames
    else ⟨.eval m, e, .alternatives recovers start best committed ms :: frames⟩

/-- Go on with a list, behind the given items. -/
def nextTurn (l : ListRun) (items : List Value) (e : Engine) (frames : List Frame) :
    Configuration :=
  let turn := e.state.mark
  match l.separator with
  | some separator =>
    if items.isEmpty then ⟨.eval l.element, e, .element l items turn :: frames⟩
    else ⟨.eval separator, e, .separator l items turn :: frames⟩
  | none => ⟨.eval l.element, e, .element l items turn :: frames⟩

/-- End a list behind a turn that is given back. -/
def lastTurn (l : ListRun) (items : List Value) (last : Option Failure) (e : Engine)
    (frames : List Frame) : Configuration :=
  .ofStep e frames (finishList l.repetition l.start items last e.state)

/-- Take one token and put an error node in its place. -/
def takeToken (errorType : NodeRef) (e : Engine) (frames : List Frame) : Configuration :=
  let t := x.current e.state
  .ofStep e frames (((x.advance e.state).report
    (.skippedToken t.span (x.describeFound t))).yield [.node errorType t.span []])

/-- Go on with the guards that remain, for a skip that is to be done where none of them matches. -/
def nextGuard (errorType : NodeRef) (outer : Aside) :
    List Matcher → Engine → List Frame → Configuration
  | [], e, frames => x.takeToken errorType (e.restore outer) frames
  | m :: ms, e, frames => ⟨.eval m, e, .guard errorType e.state.mark ms outer :: frames⟩

/-- Begin to run a matcher. -/
def start (m : Matcher) (e : Engine) (frames : List Frame) : Configuration :=
  match m with
  | .token kind text keep => .ofStep e frames (x.matchToken kind text keep e.state)
  | .rule ref => x.enterRule ref e frames
  | .seq items => nextItem e.state.mark false [] items e frames
  | .choice alternatives =>
    nextAlternative (Matcher.recovers alternatives && x.recovery) e.state.mark none none
      alternatives e frames
  | .opt m => ⟨.eval m, e, .opt e.state.mark (x.program.arity m) :: frames⟩
  | .group m => ⟨.eval m, e, .group e.state.mark :: frames⟩
  | .list repetition element => nextTurn ⟨repetition, element, none, e.state.mark⟩ [] e frames
  | .sepList repetition element separator =>
    nextTurn ⟨repetition, element, some separator, e.state.mark⟩ [] e frames
  | .cut => ⟨.answer (.success []), e, frames⟩
  | .predicate ref m => ⟨.eval m, e, .predicate ref e.state.mark :: frames⟩
  | .skip errorType =>
    if !x.recovery || x.atEnd e.state then
      .ofStep e frames (e.state.fail (.plain e.state.position))
    else x.nextGuard errorType e.aside e.guards e.clear frames
  | .protect m guard => ⟨.eval m, { e with guards := guard :: e.guards }, .protect guard :: frames⟩
  | .null type => ⟨.answer (.success [.absent type]), e, frames⟩
  | .node type layout m => ⟨.eval m, e, .node type layout e.state.position :: frames⟩
  | .enum type alternative m => ⟨.eval m, e, .enum type alternative e.state.position :: frames⟩

/-- Go on behind a part of a run that has ended with an outcome. -/
def resume (f : Frame) (o : Outcome) (e : Engine) (frames : List Frame) : Configuration :=
  match f, o with
  | .rule ref position, o => ⟨.answer o, e.leave ref position, frames⟩
  | .items start committed values rest, .success more =>
    nextItem start committed (values ++ more) rest e frames
  | .items start committed _ _, .soft f =>
    if committed then ⟨.answer (.hard f), e, frames⟩
    else ⟨.answer (.soft f), e.rewind start, frames⟩
  | .alternatives recovers start best committed rest, .soft f =>
    nextAlternative recovers start (some (best.elim f (·.further f))) committed rest
      (e.rewind start) frames
  | .alternatives recovers start best _ rest, .hard f =>
    if recovers then
      nextAlternative recovers start best (some f) rest
        { e with state := x.reportRecovered f (e.state.rewind start) } frames
    else ⟨.answer (.hard f), e, frames⟩
  | .opt start arity, .soft _ =>
    ⟨.answer (.success (List.replicate arity .null)), e.rewind start, frames⟩
  | .group _, .success values => ⟨.answer (.success [.list values]), e, frames⟩
  | .group start, .soft _ => ⟨.answer (.success [.list []]), e.rewind start, frames⟩
  | .separator l items turn, .success _ => ⟨.eval l.element, e, .element l items turn :: frames⟩
  | .separator l items turn, .soft f => lastTurn l items (some f) (e.rewind turn) frames
  | .element l items turn, .success values =>
    -- a turn that does not get on would match forever
    if e.state.position = turn.position then lastTurn l items none (e.rewind turn) frames
    else nextTurn l (items ++ values) e frames
  | .element l items turn, .soft f => lastTurn l items (some f) (e.rewind turn) frames
  | .predicate ref start, .success values =>
    let holds := (x.program.predicate? ref).any fun p =>
      values.head?.any fun value => p.check x.program.schema x.names value
    if holds then ⟨.answer (.success values), e, frames⟩
    else
      .ofStep e frames ((e.state.rewind start).fail ⟨start.position, [.predicate ref]⟩)
  | .guard errorType start rest outer, o =>
    if o.isSuccess then
      let e := (e.rewind start).restore outer
      .ofStep e frames (e.state.fail (.plain e.state.position))
    else x.nextGuard errorType outer rest (e.rewind start) frames
  | .protect _, o => ⟨.answer o, { e with guards := e.guards.tail }, frames⟩
  | .node type layout position, .success values =>
    ⟨.answer (.success [.node type (x.tokens.spanOf position e.state.position)
      (List.zipWith Value.fitNull layout values)]), e, frames⟩
  | .enum type alternative position, .success _ =>
    ⟨.answer (.success [.enum type alternative (x.tokens.spanOf position e.state.position)]), e,
      frames⟩
  -- what is left is passed on
  | _, o => ⟨.answer o, e, frames⟩

/-- The configuration that comes next; there is none when nothing is left to be done. -/
def step : Configuration → Option Configuration
  | ⟨.eval m, e, frames⟩ => some (x.start m e frames)
  | ⟨.answer o, e, f :: frames⟩ => some (x.resume f o e frames)
  | ⟨.raise fault, e, f :: frames⟩ => some ⟨.raise fault, f.close e, frames⟩
  | ⟨.answer _, _, []⟩ => none
  | ⟨.raise _, _, []⟩ => none

/-- The first configuration leads to the second one. -/
def LeadsTo : Configuration → Configuration → Prop :=
  Relation.ReflTransGen fun c d => x.step c = some d

end Session

end CombinatorGrammar
