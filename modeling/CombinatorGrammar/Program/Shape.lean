import CombinatorGrammar.Schema.Basic

/-!
# Shapes of values

A shape approximates, before any input is seen, what a combinator yields in one place. Shapes are
joined where alternatives meet: node types join at their nearest common ancestor, a null gives
way to anything, and shapes without a common form join to one that says nothing.
-/

namespace CombinatorGrammar

/-- What is known of a value before parsing. -/
inductive Shape where
  | token
  | node (type : NodeRef)
  | enum (type : EnumRef)
  | list (element : Shape)
  /-- The value is always absent, or nothing is known of it yet. -/
  | null
  /-- The value may have any form. -/
  | any
  deriving DecidableEq, Inhabited

/-- The shapes of the values that a combinator yields, in order. -/
abbrev Signature := List Shape

namespace Shape

/-- The shape of a value that has one shape or the other. -/
def join (schema : Schema) : Shape → Shape → Shape
  | token, token => token
  | null, other => other
  | other, null => other
  | node a, node b =>
    if a = b then node a else ((schema.commonAncestor? a b).map node).getD any
  | enum a, enum b => if a = b then enum a else any
  | list a, list b => list (join schema a b)
  | _, _ => any

/-- Whether values of the shape are accepted where a field has the given kind. -/
def fits (schema : Schema) : Shape → FieldKind → Bool
  | any, _ => true
  | null, _ => true
  | token, .token => true
  | node sub, .node sup => schema.isSubtype sub sup
  | enum a, .enum b => a == b
  | list element, .list kind => element.fits schema kind
  | _, _ => false

/-- A shape as it reads in messages. -/
def describe (schema : Schema) : Shape → String
  | token => "a token"
  | node type => s!"a `{schema.name type}` node"
  | enum type => s!"a `{schema.enumName type}` value"
  | list element => s!"a list of {element.describe schema}"
  | null => "nothing"
  | any => "a value"

end Shape

end CombinatorGrammar
