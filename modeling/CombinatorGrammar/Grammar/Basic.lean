import CombinatorGrammar.Grammar.Combinator
import CombinatorGrammar.Schema.Declaration
import CombinatorGrammar.Tree.Value

/-!
# Grammars

A grammar has a vocabulary, a schema, rules with distinct names in the order in which they were
added, predicates, and the name of the rule at which parsing starts. Nothing is looked up yet: a
rule may refer to names that do not exist, which shows when the grammar is resolved.
-/

namespace CombinatorGrammar

/-- A named check of a value. The texts of tokens are read from the interner. -/
structure Predicate where
  name : String
  check : Schema → Interner → Value → Bool

/-- A grammar whose references are names. -/
structure Grammar where
  vocabulary : Vocabulary
  schema : Schema
  /-- The rules with their bodies, in the order in which they were added. -/
  rules : List (String × Combinator)
  predicates : List Predicate
  /-- The name of the rule at which parsing starts. -/
  entry : String

namespace Grammar

/-- The grammar without rules that starts at the given rule. -/
def empty (entry : String) (vocabulary : Vocabulary) (schema : Schema) : Grammar :=
  ⟨vocabulary, schema, [], [], entry⟩

/-- Add a rule, whose name is new. -/
def addRule (g : Grammar) (name : String) (body : Combinator) : Except Defect Grammar :=
  if g.rules.any fun rule => rule.1 == name then .error (.duplicateRule name)
  else .ok { g with rules := g.rules ++ [(name, body)] }

/-- Register a predicate; one of the same name is replaced in its place. -/
def addPredicate (g : Grammar) (p : Predicate) : Grammar :=
  if g.predicates.any fun q => q.name == p.name then
    { g with predicates := g.predicates.map fun q => if q.name == p.name then p else q }
  else { g with predicates := g.predicates ++ [p] }

/-- The grammar of its parts: first the schema is declared, then the rules are added, then the
predicates are registered. The first refusal is the answer. -/
def assemble (entry : String) (vocabulary : Vocabulary) (declarations : List Declaration)
    (rules : List (String × Combinator)) (predicates : List Predicate) :
    Except Defect Grammar := do
  let schema ← Schema.ofDeclarations declarations
  let g ← rules.foldlM (fun g rule => g.addRule rule.1 rule.2) (empty entry vocabulary schema)
  return predicates.foldl addPredicate g

end Grammar

end CombinatorGrammar
