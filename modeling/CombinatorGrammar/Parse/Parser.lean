import CombinatorGrammar.Parse.State

/-!
# Parsers and how they are combined

A parser runs in a scope: the rules that are being run, each with the position where it was
entered, and the guards of the enclosing protected regions. This module holds one way of
combining parsers for each kind of matcher. A soft failure always leaves the position and the
pending diagnostics as they were; a hard failure leaves them where it happened and is passed on by
everything but a choice that recovers.
-/

namespace CombinatorGrammar

/-- What a protected region keeps skips from taking. -/
structure Guard where
  /-- The matcher whose matches are protected. -/
  pattern : Matcher
  /-- A run of the matcher in an empty scope, at the present level of nesting. -/
  attempt : State → Step

/-- Where a parser runs. -/
structure Scope where
  /-- The rules that are being run, with the positions where they were entered. -/
  active : List (RuleRef × Nat)
  /-- The guards of the enclosing protected regions, innermost first. -/
  guards : List Guard

/-- The scope without rules and guards. -/
def Scope.empty : Scope := ⟨[], []⟩

/-- How a piece of the input is matched. -/
abbrev Parser := Scope → State → Step

/-- A parser with the matcher that it runs. -/
structure Operand where
  pattern : Matcher
  parse : Parser

namespace Session

/-- Match one token of the kind, with the given text if there is one. -/
def matchToken (x : Session) (kind : TokenKind) (text : Option Name) (keep : Bool)
    (s : State) : Step :=
  let t := x.current s
  if t.kind = kind ∧ text.all (· = t.text) then
    (x.advance s).yield (if keep then [.token t] else [])
  else s.fail ⟨s.position, [.token kind text]⟩

/-- Run items one after the other, beginning at the mark `start`, and collect their values.
Behind a cut among the items, a soft failure of an item becomes hard. -/
def sequence (start : Mark) (committed : Bool) (values : List Value) :
    List Operand → Parser
  | [], _, s => s.yield values
  | item :: items, scope, s =>
    if item.pattern.isCut then sequence start true values items scope s
    else match item.parse scope s with
      | .error fault => .error fault
      | .ok (.success more, s) => sequence start committed (values ++ more) items scope s
      | .ok (.soft f, s) =>
        if committed then .ok (.hard f, s) else .ok (.soft f, s.rewind start)
      | .ok (.hard f, s) => .ok (.hard f, s)

/-- Report a hard failure that skipping will recover from. -/
def reportRecovered (x : Session) (f : Failure) (s : State) : State :=
  let t := x.tokens.token f.position
  s.report (.recoveredFailure t.span (x.describeExpected f) (x.describeFound t))

/-- Try alternatives from the mark `start`, one after the other. The failure of a choice without
a match is the furthest one, `best` so far. If the choice recovers, a hard failure is reported
and remembered as `committed`, and from then on only skips are tried; if none of them matches, the
report is dropped and the hard failure is passed on. -/
def ordered (x : Session) (recovers : Bool) (start : Mark)
    (best committed : Option Failure) : List Operand → Parser
  | [], _, s =>
    match committed with
    | some f => .ok (.hard f, s.rewind start)
    | none => .ok (.soft (best.getD (.plain start.position)), s)
  | alternative :: rest, scope, s =>
    if committed.isSome && !alternative.pattern.isSkip then
      ordered x recovers start best committed rest scope s
    else match alternative.parse scope s with
      | .error fault => .error fault
      | .ok (.success values, s) => .ok (.success values, s)
      | .ok (.soft f, s) =>
        let best := match best with
          | some b => b.further f
          | none => f
        ordered x recovers start (some best) committed rest scope (s.rewind start)
      | .ok (.hard f, s) =>
        if recovers then
          ordered x recovers start best (some f) rest scope
            (x.reportRecovered f (s.rewind start))
        else .ok (.hard f, s)

/-- The operand, or as many nulls as it has values. -/
def optional (arity : Nat) (operand : Parser) (scope : Scope) (s : State) : Step :=
  match operand scope s with
  | .ok (.soft _, s') => (s'.rewind s.mark).yield (List.replicate arity .null)
  | other => other

/-- The values of the operand as one list, or the empty list. -/
def grouped (operand : Parser) (scope : Scope) (s : State) : Step :=
  match operand scope s with
  | .ok (.success values, s') => s'.yield [.list values]
  | .ok (.soft _, s') => (s'.rewind s.mark).yield [.list []]
  | other => other

/-- One turn of a list: the element, behind a separator if there are items already. -/
def turn (element : Parser) (separator : Option Parser) (hasItems : Bool) : Parser :=
  fun scope s =>
    match separator with
    | some separator =>
      if hasItems then
        match separator scope s with
        | .ok (.success _, s') => element scope s'
        | other => other
      else element scope s
    | none => element scope s

/-- The result of a list that began at the mark `start` and took its last turn in the state
`s`: its items, or a failure if it needs one and has none. -/
def finishList (repetition : Repetition) (start : Mark) (items : List Value)
    (last : Option Failure) (s : State) : Step :=
  if repetition = .oneOrMore ∧ items.isEmpty then
    .ok (.soft (last.getD (.plain start.position)), s.rewind start)
  else s.yield [.list items]

/-- Take turns of a list that began at the mark `start`, as long as they match and move the
position on. A turn that does neither is given back, its separator included. -/
def repeated (x : Session) (element : Parser) (separator : Option Parser)
    (repetition : Repetition) (start : Mark) (scope : Scope) (items : List Value)
    (s : State) : Step :=
  match turn element separator (!items.isEmpty) scope s with
  | .error fault => .error fault
  | .ok (.hard f, s') => .ok (.hard f, s')
  | .ok (.soft f, s') => finishList repetition start items (some f) (s'.rewind s.mark)
  | .ok (.success values, s') =>
    if s.position < s'.position ∧ s'.position ≤ x.tokens.lastPosition then
      repeated x element separator repetition start scope (items ++ values) s'
    else finishList repetition start items none (s'.rewind s.mark)
termination_by x.tokens.lastPosition - s.position

/-- The operand, if its first value satisfies the predicate. -/
def checked (x : Session) (ref : PredicateRef) (operand : Parser) (scope : Scope)
    (s : State) : Step :=
  match operand scope s with
  | .ok (.success values, s') =>
    let holds := (x.program.predicate? ref).any fun p =>
      values.head?.any fun value => p.check x.program.schema x.names value
    if holds then .ok (.success values, s')
    else (s'.rewind s.mark).fail ⟨s.position, [.predicate ref]⟩
  | other => other

/-- Attempt guards at the position of the state, the innermost first, until one matches. After
each attempt the state goes back to its mark. -/
def probe (s : State) : List Guard → Except Fault (Bool × State)
  | [] => .ok (false, s)
  | guard :: guards =>
    match guard.attempt s with
    | .error fault => .error fault
    | .ok (outcome, s') =>
      if outcome.isSuccess then .ok (true, s'.rewind s.mark) else probe (s'.rewind s.mark) guards

/-- Whether a guard matches at the position of the state. The attempts begin without a furthest
failure, and the one before them is put back afterwards. -/
def guarded (s : State) (guards : List Guard) : Except Fault (Bool × State) :=
  match probe { s with furthest := none } guards with
  | .error fault => .error fault
  | .ok (answer, s') => .ok (answer, { s' with furthest := s.furthest })

/-- Take one token and put an error node in its place. A skip is refused at the end, where a guard
matches, and altogether without recovery. -/
def skipToken (x : Session) (errorType : NodeRef) (scope : Scope) (s : State) : Step :=
  if !x.recovery || x.atEnd s then s.fail (.plain s.position)
  else match guarded s scope.guards with
    | .error fault => .error fault
    | .ok (true, s) => s.fail (.plain s.position)
    | .ok (false, s) =>
      let t := x.current s
      ((x.advance s).report (.skippedToken t.span (x.describeFound t))).yield
        [.node errorType t.span []]

/-- The operand within a region protected by one more guard. -/
def protecting (guard : Guard) (operand : Parser) (scope : Scope) (s : State) : Step :=
  operand { scope with guards := guard :: scope.guards } s

/-- A node built from the values of the operand. -/
def build (x : Session) (type : NodeRef) (layout : List FieldKind) (operand : Parser)
    (scope : Scope) (s : State) : Step :=
  match operand scope s with
  | .ok (.success values, s') =>
    s'.yield [.node type (x.spanSince s s') (List.zipWith Value.fitNull layout values)]
  | other => other

/-- An alternative of an enum type, if the operand matches. -/
def select (x : Session) (type : EnumRef) (alternative : Nat) (operand : Parser)
    (scope : Scope) (s : State) : Step :=
  match operand scope s with
  | .ok (.success _, s') => s'.yield [.enum type alternative (x.spanSince s s')]
  | other => other

end Session

end CombinatorGrammar
