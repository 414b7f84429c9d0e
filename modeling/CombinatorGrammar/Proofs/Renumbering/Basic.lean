import CombinatorGrammar.Proofs.Renaming.Resolution

/-!
# Renumbering rules

The number of a rule is its place among the rules, and no more than that should depend on it. Here
the numbers in matchers are exchanged for others. Signatures and defects of a matcher are those of
the renumbered one, if the rules have the same signatures under their new numbers; and linking
among rules of another order gives the renumbered matchers.
-/

namespace CombinatorGrammar

mutual

/-- The matcher that refers to rules by their new numbers. -/
def Matcher.renumber (σ : RuleRef → RuleRef) : Matcher → Matcher
  | .token kind text keep => .token kind text keep
  | .rule ref => .rule (σ ref)
  | .seq items => .seq (Matcher.renumberAll σ items)
  | .choice alternatives => .choice (Matcher.renumberAll σ alternatives)
  | .opt operand => .opt (operand.renumber σ)
  | .group operand => .group (operand.renumber σ)
  | .list repetition element => .list repetition (element.renumber σ)
  | .sepList repetition element separator =>
    .sepList repetition (element.renumber σ) (separator.renumber σ)
  | .cut => .cut
  | .predicate ref operand => .predicate ref (operand.renumber σ)
  | .skip errorType => .skip errorType
  | .protect operand guard => .protect (operand.renumber σ) (guard.renumber σ)
  | .null type => .null type
  | .node type layout operand => .node type layout (operand.renumber σ)
  | .enum type alternative operand => .enum type alternative (operand.renumber σ)

/-- The matchers that refer to rules by their new numbers. -/
def Matcher.renumberAll (σ : RuleRef → RuleRef) : List Matcher → List Matcher
  | [] => []
  | m :: ms => m.renumber σ :: Matcher.renumberAll σ ms

end

variable {σ : RuleRef → RuleRef}

namespace Matcher

/-- Renumbering several matchers renumbers each. -/
theorem renumberAll_eq_map (ms : List Matcher) : renumberAll σ ms = ms.map (renumber σ) := by
  induction ms with
  | nil => rfl
  | cons m ms ih => rw [renumberAll, ih, List.map_cons]

/-- A renumbered matcher has the signature that the old one has if the rules keep theirs. -/
theorem signature?_renumber (schema : Schema) (rules : RuleRef → Option Signature) (m : Matcher) :
    (m.renumber σ).signature? schema rules = m.signature? schema (rules ∘ σ) := by
  induction m with
  | seq ms ih | choice ms ih =>
    have same : ms.map (signature? schema rules ∘ renumber σ) =
        ms.map (signature? schema (rules ∘ σ)) :=
      List.map_congr_left ih
    rw [renumber, signature?, signature?, signatures_eq_map, signatures_eq_map,
      renumberAll_eq_map, List.map_map, same]
  | opt m ih | predicate _ m ih => exact ih
  | protect m _ ih _ => exact ih
  | group m ih | list _ m ih => rw [renumber, signature?, signature?, ih]
  | sepList _ m _ ih _ => rw [renumber, signature?, signature?, ih]
  | _ => rfl

/-- A renumbered matcher yields as many values as the old one if the rules do. -/
theorem arity?_renumber (rules : RuleRef → Option Nat) (m : Matcher) :
    (m.renumber σ).arity? rules = m.arity? (rules ∘ σ) := by
  induction m with
  | seq ms ih | choice ms ih =>
    have same : ms.map (arity? rules ∘ renumber σ) = ms.map (arity? (rules ∘ σ)) :=
      List.map_congr_left ih
    rw [renumber, arity?, arity?, arities_eq_map, arities_eq_map, renumberAll_eq_map,
      List.map_map, same]
  | opt m ih | predicate _ m ih => exact ih
  | protect m _ ih _ => exact ih
  | _ => rfl

end Matcher

namespace Validation

variable {v w : Validation}

/-- The rules have the signatures of the first validation under their new numbers in the second. -/
structure Renumbered (σ : RuleRef → RuleRef) (v w : Validation) : Prop where
  schema_eq : w.schema = v.schema
  rule_eq : w.rule = v.rule
  rules : ∀ ref, w.rules.get? (σ ref) = v.rules.get? ref

/-- Several matchers have the same defects under new numbers if each has. -/
theorem defectsOfAll_renumber {ms : List Matcher}
    (each : ∀ m ∈ ms, w.defects (m.renumber σ) = v.defects m) :
    w.defectsOfAll (Matcher.renumberAll σ ms) = v.defectsOfAll ms := by
  rw [Matcher.renumberAll_eq_map, defectsOfAll_eq_flatMap, defectsOfAll_eq_flatMap,
    List.flatMap_map]
  exact List.flatMap_congr each

variable (h : Renumbered σ v w)
include h

theorem signature?_renumber (m : Matcher) : w.signature? (m.renumber σ) = v.signature? m := by
  rw [signature?, signature?, Matcher.signature?_renumber, h.schema_eq]
  exact congrArg (m.signature? v.schema) (funext h.rules)

/-- Validation finds the same number of values under new numbers. -/
theorem arity?_renumber (m : Matcher) : w.arity? (m.renumber σ) = v.arity? m := by
  rw [arity?, arity?, signature?_renumber h]

/-- The defects in the number of values are the same under new numbers. -/
theorem arityDefects_renumber (place : ArityPlace) (required : Nat) (m : Matcher) :
    w.arityDefects place required (m.renumber σ) = v.arityDefects place required m := by
  rw [arityDefects, arityDefects, arity?_renumber h, h.rule_eq]

/-- Validation finds the same defects in the renumbered matcher. -/
theorem defects_renumber (m : Matcher) : w.defects (m.renumber σ) = v.defects m := by
  induction m with
  | seq ms ih => exact defectsOfAll_renumber ih
  | choice ms ih =>
    have arities : (ms.map (Matcher.renumber σ)).filterMap w.arity? = ms.filterMap v.arity? := by
      rw [List.filterMap_map]
      exact List.filterMap_congr fun m _ => arity?_renumber h m
    rw [Matcher.renumber, defects, defects, defectsOfAll_renumber ih, choiceDefects,
      choiceDefects, Matcher.renumberAll_eq_map, arities, h.rule_eq]
  | opt m ih | group m ih => exact ih
  | list _ m ih | predicate _ m ih | enum _ _ m ih =>
    rw [Matcher.renumber, defects, defects, ih, arityDefects_renumber h]
  | sepList _ m separator ihm ihs =>
    rw [Matcher.renumber, defects, defects, ihm, ihs, arityDefects_renumber h]
  | protect m guard ihm ihg => rw [Matcher.renumber, defects, defects, ihm, ihg]
  | node type layout m ih =>
    rw [Matcher.renumber, defects, defects, ih, nodeDefects, nodeDefects, signature?_renumber h,
      h.schema_eq, h.rule_eq]
  | skip type => rw [Matcher.renumber, defects, defects, h.schema_eq, h.rule_eq]
  | _ => rfl

end Validation

namespace Combinator

variable {d : Directory} {order : List String} (rule : String)

mutual

/-- A combinator is linked among rules of another order to the renumbered matcher, and with the same
defects. -/
theorem link_renumber
    (numbers : ∀ name, { d with rules := order }.ruleRef? name = (d.ruleRef? name).map σ) :
    ∀ c : Combinator,
      c.link { d with rules := order } rule = (c.link d rule).map (Matcher.renumber σ)
  | .token t text keep => by
    rw [link, link, Linked.map_map]
    rfl
  | .rule name => by
    rw [link, link, numbers, Linked.map_map]
    cases d.ruleRef? name <;> rfl
  | .seq items => by
    rw [link, link, linkAll_renumber numbers items, Linked.map_map, Linked.map_map]
    rfl
  | .choice alternatives => by
    rw [link, link, linkAll_renumber numbers alternatives, Linked.map_map, Linked.map_map]
    rfl
  | .opt c => by
    rw [link, link, link_renumber numbers c, Linked.map_map, Linked.map_map]
    rfl
  | .group c => by
    rw [link, link, link_renumber numbers c, Linked.map_map, Linked.map_map]
    rfl
  | .list repetition c => by
    rw [link, link, link_renumber numbers c, Linked.map_map, Linked.map_map]
    rfl
  | .sepList repetition c separator => by
    rw [link, link, link_renumber numbers c, link_renumber numbers separator, Linked.both_map,
      Linked.map_map, Linked.map_map]
    rfl
  | .cut => rfl
  | .predicate name c => by
    rw [link, link, link_renumber numbers c, Linked.both_map_left, Linked.map_map, Linked.map_map]
    rfl
  | .skip errorType => by
    rw [link, link, Linked.map_map]
    rfl
  | .protect c guard => by
    rw [link, link, link_renumber numbers c, link_renumber numbers guard, Linked.both_map,
      Linked.map_map, Linked.map_map]
    rfl
  | .null name => by
    rw [link, link, Linked.map_map]
    rfl
  | .node name c => by
    rw [link, link, link_renumber numbers c, Linked.both_map_left, Linked.map_map, Linked.map_map]
    rfl
  | .enum name alternative c => by
    rw [link, link, link_renumber numbers c, Linked.both_map_left, Linked.map_map, Linked.map_map]
    rfl

/-- Several combinators are linked to the renumbered matchers. -/
theorem linkAll_renumber
    (numbers : ∀ name, { d with rules := order }.ruleRef? name = (d.ruleRef? name).map σ) :
    ∀ cs : List Combinator,
      linkAll { d with rules := order } rule cs = (linkAll d rule cs).map (Matcher.renumberAll σ)
  | [] => rfl
  | c :: cs => by
    rw [linkAll, linkAll, link_renumber numbers c, linkAll_renumber numbers cs, Linked.both_map,
      Linked.map_map, Linked.map_map]
    rfl

end

end Combinator

end CombinatorGrammar
