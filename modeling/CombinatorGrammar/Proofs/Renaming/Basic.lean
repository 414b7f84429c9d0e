import CombinatorGrammar.Parse.Basic
import CombinatorGrammar.Proofs.Program.Arity
import Mathlib.Data.List.Forall2

/-!
# Renaming

A name is the number of a text in an interner, and no more than that should depend on it. Here the
names in programs, tokens and values are exchanged for others. A session is renamed if its program
and its tokens are, and if the new names have the texts of the old ones; what is done to the state
of such a session is what is done to that of the first one, renamed. No two names may become one,
because a program compares names.
-/

namespace CombinatorGrammar

section Rename

variable (ρ : Name → Name)

/-- The token under the new name of its text. -/
def Token.rename (t : Token) : Token := { t with text := ρ t.text }

/-- The tokens under the new names of their texts. -/
def TokenStream.rename (s : TokenStream) : TokenStream where
  body := s.body.map (Token.rename ρ)
  last := s.last.rename ρ
  body_kind := by
    intro t among
    obtain ⟨u, inside, rfl⟩ := Array.mem_map.mp among
    exact s.body_kind u inside
  last_kind := s.last_kind

mutual

/-- The value with new names for the texts of its tokens. -/
def Value.rename : Value → Value
  | .token t => .token (t.rename ρ)
  | .node type span fields => .node type span (Value.renameAll fields)
  | .list items => .list (Value.renameAll items)
  | .enum type alternative span => .enum type alternative span
  | .null => .null
  | .absent type => .absent type

/-- The values with new names for the texts of their tokens. -/
def Value.renameAll : List Value → List Value
  | [] => []
  | v :: vs => v.rename :: Value.renameAll vs

end

mutual

/-- The matcher that asks for texts under their new names. -/
def Matcher.rename : Matcher → Matcher
  | .token kind text keep => .token kind (text.map ρ) keep
  | .rule ref => .rule ref
  | .seq items => .seq (Matcher.renameAll items)
  | .choice alternatives => .choice (Matcher.renameAll alternatives)
  | .opt operand => .opt operand.rename
  | .group operand => .group operand.rename
  | .list repetition element => .list repetition element.rename
  | .sepList repetition element separator => .sepList repetition element.rename separator.rename
  | .cut => .cut
  | .predicate ref operand => .predicate ref operand.rename
  | .skip errorType => .skip errorType
  | .protect operand guard => .protect operand.rename guard.rename
  | .null type => .null type
  | .node type layout operand => .node type layout operand.rename
  | .enum type alternative operand => .enum type alternative operand.rename

/-- The matchers that ask for texts under their new names. -/
def Matcher.renameAll : List Matcher → List Matcher
  | [] => []
  | m :: ms => m.rename :: Matcher.renameAll ms

end

/-- The expectation of a text under its new name. -/
def Expectation.rename : Expectation → Expectation
  | token kind text => token kind (text.map ρ)
  | predicate ref => predicate ref

/-- The failure that expects texts under their new names. -/
def Failure.rename (f : Failure) : Failure := ⟨f.position, f.expected.map (Expectation.rename ρ)⟩

/-- The state with new names in its furthest failure. -/
def State.rename (s : State) : State := { s with furthest := s.furthest.map (Failure.rename ρ) }

/-- The outcome with new names. -/
def Outcome.rename : Outcome → Outcome
  | success values => success (values.map (Value.rename ρ))
  | soft f => soft (f.rename ρ)
  | hard f => hard (f.rename ρ)

/-- The result of a run with new names. Faults have no names. -/
def Step.rename (r : Step) : Step := r.map fun r => (r.1.rename ρ, r.2.rename ρ)

/-- The rule that asks for texts under their new names. -/
def Rule.rename (r : Rule) : Rule := { r with body := r.body.rename ρ }

/-- The program that asks for texts under their new names. -/
def Program.rename (p : Program) : Program := { p with rules := p.rules.map (Rule.rename ρ) }

end Rename

variable {ρ : Name → Name}

namespace TokenStream

/-- Renaming the texts of a stream renames each token. -/
theorem token_rename (s : TokenStream) (position : Nat) :
    (s.rename ρ).token position = (s.token position).rename ρ := by
  rw [token, token, Array.getD_eq_getD_getElem?, Array.getD_eq_getD_getElem?, rename,
    Array.getElem?_map, Option.getD_map]

/-- The termination token at the end of a list keeps its name if the empty text does. -/
theorem rename_ofList (empty : ρ .empty = .empty) (tokens : List Token) (stop : Nat) :
    (ofList tokens stop).rename ρ = ofList (tokens.map (Token.rename ρ)) stop := by
  have last (own : Option Token) : (own.getD (.termination stop)).rename ρ =
      (own.map (Token.rename ρ)).getD (.termination stop) := by
    cases own with
    | none =>
      rw [Option.getD_none, Option.map_none, Option.getD_none, Token.termination, Token.rename,
        empty]
    | some t => rfl
  simp only [rename, ofList, TokenStream.mk.injEq]
  constructor
  · rw [List.map_toArray, List.filter_map]
    rfl
  · rw [List.getLast?_map, Option.filter_map]
    exact last _

end TokenStream

namespace Value

/-- Renaming the texts of several values renames each. -/
theorem renameAll_eq_map (vs : List Value) : renameAll ρ vs = vs.map (rename ρ) := by
  induction vs with
  | nil => rfl
  | cons v vs ih => rw [renameAll, ih, List.map_cons]

/-- A field is filled alike under other names. -/
theorem rename_fitNull (kind : FieldKind) (v : Value) :
    (fitNull kind v).rename ρ = fitNull kind (v.rename ρ) := by
  cases kind <;> cases v <;> rfl

/-- The fields of a node are filled alike under other names. -/
theorem map_rename_zipWith_fitNull (layout : List FieldKind) (vs : List Value) :
    (List.zipWith fitNull layout vs).map (rename ρ) =
      List.zipWith fitNull layout (vs.map (rename ρ)) := by
  induction vs generalizing layout with
  | nil => rw [List.zipWith_nil_right, List.map_nil, List.zipWith_nil_right]
  | cons v vs ih =>
    cases layout with
    | nil => rfl
    | cons kind layout =>
      rw [List.zipWith_cons_cons, List.map_cons, List.map_cons, List.zipWith_cons_cons, ih,
        rename_fitNull]

end Value

namespace Matcher

/-- Renaming the texts of several matchers renames each. -/
theorem renameAll_eq_map (ms : List Matcher) : renameAll ρ ms = ms.map (rename ρ) := by
  induction ms with
  | nil => rfl
  | cons m ms ih => rw [renameAll, ih, List.map_cons]

/-- Nothing changes where each name is kept. -/
theorem rename_id (m : Matcher) : m.rename id = m := by
  induction m with
  | token _ text _ => cases text <;> rfl
  | seq ms ih | choice ms ih =>
    have kept : ms.map (rename id) = ms.map id := List.map_congr_left ih
    rw [rename, renameAll_eq_map, kept, List.map_id]
  | sepList _ _ _ ihm ihs => rw [rename, ihm, ihs]
  | protect _ _ ihm ihg => rw [rename, ihm, ihg]
  | opt _ ih | group _ ih | list _ _ ih | predicate _ _ ih | node _ _ _ ih | enum _ _ _ ih =>
    rw [rename, ih]
  | _ => rfl

/-- A cut is a cut under other names, and nothing else is. -/
theorem isCut_rename (m : Matcher) : (m.rename ρ).isCut = m.isCut := by cases m <;> rfl

/-- A skip is a skip under other names, and nothing else is. -/
theorem isSkip_rename (m : Matcher) : (m.rename ρ).isSkip = m.isSkip := by cases m <;> rfl

/-- A choice recovers under other names if it does. -/
theorem recovers_renameAll (ms : List Matcher) : recovers (renameAll ρ ms) = recovers ms := by
  rw [recovers, recovers, renameAll_eq_map, List.any_map]
  exact congrArg ms.any (funext isSkip_rename)

/-- Renaming texts does not change how many values a matcher yields. -/
theorem arity?_rename (rules : RuleRef → Option Nat) (m : Matcher) :
    (m.rename ρ).arity? rules = m.arity? rules := by
  induction m with
  | seq ms ih | choice ms ih =>
    have same : ms.map (arity? rules ∘ rename ρ) = ms.map (arity? rules) := List.map_congr_left ih
    rw [rename, arity?, arity?, arities_eq_map, arities_eq_map, renameAll_eq_map, List.map_map,
      same]
  | opt m ih | predicate _ m ih => exact ih
  | protect m _ ih _ => exact ih
  | _ => rfl

end Matcher

namespace Program

/-- A program is the same under the same names. -/
theorem rename_id (p : Program) : p.rename id = p := by
  have kept : Rule.rename id = id := funext fun rule => by rw [Rule.rename, Matcher.rename_id]; rfl
  rw [rename, kept, Array.map_id]

/-- The rules of a renamed program are the renamed rules. -/
theorem rule?_rename (p : Program) (ref : RuleRef) :
    (p.rename ρ).rule? ref = (p.rule? ref).map (Rule.rename ρ) :=
  Array.getElem?_map ..

/-- Renaming texts does not rename rules. -/
theorem ruleName_rename (p : Program) (ref : RuleRef) :
    (p.rename ρ).ruleName ref = p.ruleName ref := by
  rw [ruleName, ruleName, rule?_rename, Option.map_map]
  rfl

/-- A renamed program takes a renamed matcher to yield as many values. -/
theorem arity_rename (p : Program) (m : Matcher) :
    (p.rename ρ).arity (m.rename ρ) = p.arity m := by
  rw [arity, arity, Matcher.arity?_rename]
  rfl

end Program

/-- What is expected under different names differs if names stay apart. -/
theorem Expectation.rename_injective (injective : Function.Injective ρ) :
    Function.Injective (Expectation.rename ρ) := by
  intro e e' same
  cases e with
  | token kind text =>
    cases e' with
    | token kind' text' =>
      injection same with kinds texts
      rw [kinds, Option.map_injective injective texts]
    | predicate ref => cases same
  | predicate ref =>
    cases e' with
    | token kind' text' => cases same
    | predicate ref' =>
      injection same with refs
      rw [refs]

namespace Failure

theorem position_rename (f : Failure) : (f.rename ρ).position = f.position := rfl

/-- What is expected is collected under other names, if these stay apart. -/
theorem rename_collect (injective : Function.Injective ρ) (known more : List Expectation) :
    (collect known more).map (Expectation.rename ρ) =
      collect (known.map (Expectation.rename ρ)) (more.map (Expectation.rename ρ)) := by
  induction more generalizing known with
  | nil => rfl
  | cons e more ih =>
    have listed : (known.map (Expectation.rename ρ)).contains (e.rename ρ) = known.contains e := by
      rw [Bool.eq_iff_iff, List.contains_iff_mem, List.contains_iff_mem,
        List.mem_map_of_injective (Expectation.rename_injective injective)]
    rw [collect, List.foldl_cons, List.map_cons, collect, List.foldl_cons, listed]
    split
    · exact ih known
    · rw [← List.map_singleton, ← List.map_append]
      exact ih (known ++ [e])

/-- The further of two failures is the further under other names. -/
theorem rename_further (f g : Failure) :
    (f.further g).rename ρ = (f.rename ρ).further (g.rename ρ) :=
  apply_ite (rename ρ) ..

/-- Failures are merged under other names, if these stay apart. -/
theorem rename_merge (injective : Function.Injective ρ) (f g : Failure) :
    (f.merge g).rename ρ = (f.rename ρ).merge (g.rename ρ) := by
  simp only [merge, rename, ← rename_collect injective]
  split
  · rfl
  · split <;> rfl

end Failure

namespace Step

/-- A success is a success with renamed values. -/
theorem rename_success (values : List Value) (s : State) :
    Step.rename ρ (.ok (.success values, s)) =
      .ok (.success (values.map (Value.rename ρ)), s.rename ρ) := rfl

/-- A soft failure is one under other names. -/
theorem rename_soft (f : Failure) (s : State) :
    Step.rename ρ (.ok (.soft f, s)) = .ok (.soft (f.rename ρ), s.rename ρ) := rfl

end Step

namespace State

theorem position_rename (s : State) : (s.rename ρ).position = s.position := rfl

/-- A failure is recorded under other names, if these stay apart. -/
theorem rename_record (injective : Function.Injective ρ) (s : State) (f : Failure) :
    (s.record f).rename ρ = (s.rename ρ).record (f.rename ρ) := by
  rw [record, record, rename, rename]
  cases s.furthest with
  | none => rfl
  | some furthest => simp only [Option.map_some, Failure.rename_merge injective]

/-- Failing is failing under other names, if these stay apart. -/
theorem rename_fail (injective : Function.Injective ρ) (s : State) (f : Failure) :
    Step.rename ρ (s.fail f) = (s.rename ρ).fail (f.rename ρ) := by
  rw [fail, fail, ← rename_record injective, Step.rename_soft]

/-- Yielding values is yielding them under other names. -/
theorem rename_yield (s : State) (values : List Value) :
    Step.rename ρ (s.yield values) = (s.rename ρ).yield (values.map (Value.rename ρ)) := rfl

end State

namespace Session

variable (ρ) in
/-- The second session runs the program of the first one on its tokens, both renamed. The new names
have the texts of the old ones, and no predicate tells a value from the renamed one. -/
structure Renamed (x y : Session) : Prop where
  injective : Function.Injective ρ
  program_eq : y.program = x.program.rename ρ
  recovery_eq : y.recovery = x.recovery
  lastPosition_eq : y.tokens.lastPosition = x.tokens.lastPosition
  token_eq : ∀ position, y.tokens.token position = (x.tokens.token position).rename ρ
  text_eq : ∀ n, y.names.text (ρ n) = x.names.text n
  check_eq : ∀ q ∈ x.program.predicates, ∀ v : Value,
    q.check x.program.schema y.names (v.rename ρ) = q.check x.program.schema x.names v

/-- A session is renamed by renaming its program and its tokens. -/
theorem renamed_session {p : Program} {names into : Interner} {tokens : TokenStream}
    {config : ParseConfig} (injective : Function.Injective ρ)
    (texts : ∀ n, into.text (ρ n) = names.text n)
    (checks : ∀ q ∈ p.predicates, ∀ v : Value,
      q.check p.schema into (v.rename ρ) = q.check p.schema names v) :
    (p.session names tokens config).Renamed ρ
      ((p.rename ρ).session into (tokens.rename ρ) config) where
  injective := injective
  program_eq := rfl
  recovery_eq := rfl
  lastPosition_eq := Array.size_map
  token_eq := tokens.token_rename
  text_eq := texts
  check_eq := checks

namespace Renamed

variable {x y : Session} (h : x.Renamed ρ y)
include h

/-- The current token is the renamed one. -/
theorem current_eq (s : State) : y.current (s.rename ρ) = (x.current s).rename ρ :=
  h.token_eq s.position

/-- The end is reached under other names where it is reached. -/
theorem atEnd_eq (s : State) : y.atEnd (s.rename ρ) = x.atEnd s := by
  rw [atEnd, atEnd, h.current_eq]
  rfl

/-- Advancing is the same under other names. -/
theorem advance_eq (s : State) : y.advance (s.rename ρ) = (x.advance s).rename ρ := by
  rw [advance, advance, h.atEnd_eq]
  split <;> rfl

/-- Spans do not depend on names. -/
theorem spanSince_eq (s t : State) :
    y.spanSince (s.rename ρ) (t.rename ρ) = x.spanSince s t := by
  simp only [spanSince, TokenStream.spanOf, h.token_eq]
  rfl

/-- A token is described as under its other name. -/
theorem describeFound_eq (t : Token) : y.describeFound (t.rename ρ) = x.describeFound t := by
  rw [describeFound, describeFound, Program.describeFound, Program.describeFound, h.program_eq]
  simp only [Token.rename, h.text_eq]
  rfl

/-- What is expected is described as under other names. -/
theorem describeExpected_eq (f : Failure) :
    y.describeExpected (f.rename ρ) = x.describeExpected f := by
  rw [describeExpected, describeExpected, Failure.describe, Failure.describe, Failure.rename,
    List.map_map, h.program_eq]
  refine congrArg List.eraseDups (List.map_congr_left fun e _ => ?_)
  cases e with
  | token kind text =>
    change (x.program.rename ρ).describeToken y.names kind (text.map ρ) =
      x.program.describeToken x.names kind text
    cases text with
    | none => rfl
    | some n => simp only [Option.map_some, Program.describeToken, h.text_eq]
  | predicate ref => rfl

/-- A recovered failure is reported as under other names. -/
theorem reportRecovered_eq (f : Failure) (s : State) :
    y.reportRecovered (f.rename ρ) (s.rename ρ) = (x.reportRecovered f s).rename ρ := by
  have token : y.tokens.token (f.rename ρ).position = (x.tokens.token f.position).rename ρ :=
    h.token_eq f.position
  simp only [reportRecovered, token, h.describeExpected_eq, h.describeFound_eq]
  rfl

end Renamed

end Session

end CombinatorGrammar
