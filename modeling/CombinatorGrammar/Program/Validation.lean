import CombinatorGrammar.Grammar.Defect
import CombinatorGrammar.Program.Signature

/-!
# Validating rule bodies

With the signatures at hand, every rule body is checked from the inside out: the alternatives of
a choice yield equally many values, list elements and predicate operands yield one and the
operands of enum alternatives none, skips name error node types, and a node is built only of a
type that is not abstract and from values that fit its fields. What is unknown is not judged,
except that a rule as a whole must not be unknown.
-/

namespace CombinatorGrammar

/-- What validation reads. -/
structure Validation where
  schema : Schema
  /-- Signatures of the rules that a body refers to. -/
  rules : RuleSignatures
  /-- The rule whose body is validated, for messages. -/
  rule : String

namespace Validation

/-- The signature of a part of the body. -/
def signature? (v : Validation) (m : Matcher) : Option Signature :=
  m.signature? v.schema v.rules.get?

/-- The number of values that a part of the body yields. -/
def arity? (v : Validation) (m : Matcher) : Option Nat := (v.signature? m).map List.length

/-- The defect of a part that yields another number of values than its place requires. -/
def arityDefects (v : Validation) (place : ArityPlace) (required : Nat) (m : Matcher) :
    List Defect :=
  match v.arity? m with
  | some found => if found = required then [] else [.arityMismatch v.rule place required found]
  | none => []

/-- The defect of a choice: the first alternative that disagrees with the first known one. -/
def choiceDefects (v : Validation) (alternatives : List Matcher) : List Defect :=
  match alternatives.filterMap v.arity? with
  | [] => []
  | expected :: others =>
    match others.find? (· != expected) with
    | some found => [.arityMismatch v.rule .alternatives expected found]
    | none => []

/-- The defects of a node construction. -/
def nodeDefects (v : Validation) (type : NodeRef) (layout : List FieldKind) (operand : Matcher) :
    List Defect :=
  let typeName := v.schema.name type
  if v.schema.isAbstract type then [.abstractConstruction v.rule typeName]
  else match v.signature? operand with
    | none => []
    | some shapes =>
      if shapes.length ≠ layout.length then
        [.fieldCountMismatch v.rule typeName layout.length shapes.length]
      else
        let slots := (shapes.zip layout).zip (v.schema.layout type)
        (slots.filter fun ((shape, kind), _) => !shape.fits v.schema kind).map
          fun ((shape, kind), field) =>
            .fieldKindMismatch v.rule typeName field.name (v.schema.describeKind kind)
              (shape.describe v.schema)

mutual

/-- The defects of a part of the body, those of its operands first. -/
def defects (v : Validation) : Matcher → List Defect
  | .token _ _ _ => []
  | .rule _ => []
  | .seq items => defectsOfAll v items
  | .choice alternatives => defectsOfAll v alternatives ++ v.choiceDefects alternatives
  | .opt operand => defects v operand
  | .group operand => defects v operand
  | .list _ element => defects v element ++ v.arityDefects .listElement 1 element
  | .sepList _ element separator =>
    defects v element ++ defects v separator ++ v.arityDefects .listElement 1 element
  | .cut => []
  | .predicate _ operand => defects v operand ++ v.arityDefects .predicateOperand 1 operand
  | .skip errorType =>
    if v.schema.isError errorType then []
    else [.notAnErrorNode v.rule (v.schema.name errorType)]
  | .protect operand guard => defects v operand ++ defects v guard
  | .null _ => []
  | .node type layout operand => defects v operand ++ v.nodeDefects type layout operand
  | .enum _ _ operand => defects v operand ++ v.arityDefects .enumAlternative 0 operand

/-- The defects of several parts of the body, from left to right. -/
def defectsOfAll (v : Validation) : List Matcher → List Defect
  | [] => []
  | m :: ms => defects v m ++ defectsOfAll v ms

end

end Validation

/-- The defects of a rule, given what the last round of inference read and what it found for
the rule itself. -/
def ruleDefects (schema : Schema) (read : RuleSignatures) (found : Option Signature)
    (name : String) (body : Matcher) : List Defect :=
  (if found.isNone then [.unproductiveRule name] else []) ++
    Validation.defects ⟨schema, read, name⟩ body

end CombinatorGrammar
