import CombinatorGrammar.Text.Quoted

/-!
# Defects of a grammar

A defect is one reason why a grammar, or the node types that it builds, cannot be used.
Declarations are refused with a single defect; resolving a grammar reports all that it finds.
The wording of every defect is in `Defect.message`.
-/

namespace CombinatorGrammar

/-- Which combinator yields another number of values than its place requires. -/
inductive ArityPlace where
  /-- Alternatives of a choice that yield different numbers of values. -/
  | alternatives
  /-- The element of a list, which yields one value. -/
  | listElement
  /-- The operand of a predicate, which yields one value. -/
  | predicateOperand
  /-- The operand of an enum alternative, which yields none. -/
  | enumAlternative
  deriving DecidableEq

/-- The place as it reads in messages. -/
def ArityPlace.text : ArityPlace → String
  | .alternatives => "choice alternatives disagree"
  | .listElement => "list element"
  | .predicateOperand => "predicate operand"
  | .enumAlternative => "enum alternative"

/-- A reason why a grammar or a declaration is refused. -/
inductive Defect where
  /-- Two node types have one name. -/
  | duplicateNodeType (name : String)
  /-- The parent of a node type is not declared. -/
  | unknownParent (name parent : String)
  /-- A field name is used twice along one line of inheritance. -/
  | duplicateField (type field : String)
  /-- An error node type would have a field. -/
  | errorNodeField (type : String)
  /-- A field would shift those of a subtype. -/
  | fieldAfterSubtype (type field subtype : String)
  /-- A node type is not declared. -/
  | unknownNodeType (name : String)
  /-- Two enum types have one name. -/
  | duplicateEnumType (name : String)
  /-- An enum type is not declared. -/
  | unknownEnumType (name : String)
  /-- An enum type lacks an alternative. -/
  | unknownEnumAlternative (type alternative : String)
  /-- Two rules have one name. -/
  | duplicateRule (name : String)
  /-- A rule refers to a rule that does not exist. -/
  | undefinedRule (rule name : String)
  /-- The rule at which parsing starts does not exist. -/
  | noEntryRule (name : String)
  /-- A token kind is not in the vocabulary. -/
  | unknownTokenKind (rule name : String)
  /-- No token kind has the fixed text. -/
  | unknownLiteral (rule text : String)
  /-- A predicate is not registered. -/
  | undefinedPredicate (rule name : String)
  /-- A node is built from a wrong number of values. -/
  | fieldCountMismatch (rule type : String) (expected found : Nat)
  /-- A field would receive a value of another kind. -/
  | fieldKindMismatch (rule type field expected found : String)
  /-- A node of an abstract type would be built. -/
  | abstractConstruction (rule type : String)
  /-- A combinator yields a wrong number of values. -/
  | arityMismatch (rule : String) (place : ArityPlace) (expected found : Nat)
  /-- A rule has no case that ends. -/
  | unproductiveRule (rule : String)
  /-- A skip names a type that is not an error node type. -/
  | notAnErrorNode (rule type : String)
  deriving DecidableEq

namespace Defect

/-- The text of a defect. -/
def message : Defect → String
  | duplicateNodeType name => s!"node type `{name}` is already declared"
  | unknownParent name parent => s!"parent `{parent}` of node type `{name}` is not declared"
  | duplicateField type field =>
    s!"field `{field}` already exists on `{type}`, one of its ancestors or one of its subtypes"
  | errorNodeField type => s!"error node type `{type}` cannot have fields"
  | fieldAfterSubtype type field subtype =>
    s!"cannot add field `{field}` to `{type}`: its subtype `{subtype}` already has fields"
  | unknownNodeType name => s!"unknown node type `{name}`"
  | duplicateEnumType name => s!"enum type `{name}` is already declared"
  | unknownEnumType name => s!"unknown enum type `{name}`"
  | unknownEnumAlternative type alternative =>
    s!"enum `{type}` has no alternative `{alternative}`"
  | duplicateRule name => s!"rule `{name}` is already defined"
  | undefinedRule rule name => s!"rule `{rule}` references undefined rule `{name}`"
  | noEntryRule name => s!"entry rule `{name}` is not defined"
  | unknownTokenKind rule name => s!"unknown token kind `{name}` in rule `{rule}`"
  | unknownLiteral rule text =>
    s!"no token kind has the literal text {Text.quoted text} (in rule `{rule}`)"
  | undefinedPredicate rule name => s!"undefined predicate `{name}` in rule `{rule}`"
  | fieldCountMismatch rule type expected found =>
    s!"node `{type}` has {expected} field(s) but rule `{rule}` produces {found} value(s) for it"
  | fieldKindMismatch rule type field expected found =>
    s!"field `{type}.{field}` expects {expected} but rule `{rule}` produces {found}"
  | abstractConstruction rule type =>
    s!"abstract node type `{type}` cannot be constructed (rule `{rule}`)"
  | arityMismatch rule place expected found =>
    s!"{place.text} in rule `{rule}`: expected {expected} value(s), found {found}"
  | unproductiveRule rule =>
    s!"rule `{rule}` can never finish: every alternative recurses into a rule without a base case"
  | notAnErrorNode rule type =>
    s!"`{type}` is not an error node type and cannot be skipped to (rule `{rule}`)"

/-- The text of all defects of a grammar: their number, then each on a line of its own. -/
def report (defects : List Defect) : String :=
  let plural := if defects.length = 1 then "" else "s"
  defects.foldl (fun text defect => text ++ "\n  " ++ defect.message)
    s!"grammar has {defects.length} error{plural}"

end Defect

end CombinatorGrammar
