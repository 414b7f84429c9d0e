import CombinatorGrammar.Program.Linking
import CombinatorGrammar.Program.Validation
import CombinatorGrammar.Tree.Outline

/-!
# Programs

A program is a grammar whose names have all been looked up and whose rules have been found to
yield values that fit the nodes built from them. Resolving a grammar answers the program, with
the interner in which the grammar's texts have names, or else every defect: those of names that
are unknown, or, if there are none, those of rules in their order.
-/

namespace CombinatorGrammar

/-- A named rule body. -/
structure Rule where
  name : String
  body : Matcher
  deriving Inhabited

/-- A grammar that is ready to be run. -/
structure Program where
  vocabulary : Vocabulary
  schema : Schema
  rules : Array Rule
  /-- Signatures of the rules, each at its rule's number. -/
  signatures : RuleSignatures
  predicates : Array Predicate
  /-- The rule at which parsing starts. -/
  entry : RuleRef

namespace Program

/-- A rule of the program. -/
def rule? (p : Program) (ref : RuleRef) : Option Rule := p.rules[ref.index]?

/-- The name of a rule. -/
def ruleName (p : Program) (ref : RuleRef) : String := ((p.rule? ref).map Rule.name).getD "?"

/-- The rule of a name. -/
def lookupRule? (p : Program) (name : String) : Option RuleRef :=
  (p.rules.findIdx? fun rule => rule.name == name).map RuleRef.mk

/-- A predicate of the program. -/
def predicate? (p : Program) (ref : PredicateRef) : Option Predicate := p.predicates[ref.index]?

/-- The name of a predicate. -/
def predicateName (p : Program) (ref : PredicateRef) : String :=
  ((p.predicate? ref).map Predicate.name).getD "?"

/-- The number of values that a matcher of the program is taken to yield: the inferred number, or
zero if that is unknown. It is unknown for a choice without alternatives, which never succeeds, but
also for an optional part of it, which succeeds without values. -/
def arity (p : Program) (m : Matcher) : Nat :=
  (m.arity? fun ref => (p.signatures.get? ref).map List.length).getD 0

/-- What a token match asks for, as it reads in messages. -/
def describeToken (p : Program) (names : Interner) (kind : TokenKind) : Option Name → String
  | some text => s!"'{names.text text}'"
  | none => p.vocabulary.describe kind

/-- A token of the input, as it reads in messages. -/
def describeFound (p : Program) (names : Interner) (t : Token) : String :=
  if t.kind.isTermination then "end of input"
  else match p.vocabulary.literal? t.kind with
    | some text => s!"'{text}'"
    | none => s!"{p.vocabulary.name t.kind} '{names.text t.text}'"

/-- What the names in outlines of the program's values are read from. -/
def outlineContext (p : Program) (names : Interner) : OutlineContext :=
  ⟨p.vocabulary, p.schema, names⟩

end Program

/-- The program of a grammar with the interner in which its texts have names, or every defect of
the grammar. -/
def Grammar.resolve (g : Grammar) (names : Interner) :
    Except (List Defect) (Program × Interner) := do
  let names := names.internAll g.texts
  let (entry, rules) ← g.link names
  let (read, found) := RuleSignatures.infer g.schema (rules.map Prod.snd)
  let defects := (rules.zip found.toList).flatMap fun ((name, body), signature) =>
    ruleDefects g.schema read signature name body
  if defects.isEmpty then
    return ({
      vocabulary := g.vocabulary
      schema := g.schema
      rules := (rules.map fun (name, body) => ⟨name, body⟩).toArray
      signatures := read
      predicates := g.predicates.toArray
      entry := entry }, names)
  else
    throw defects

end CombinatorGrammar
