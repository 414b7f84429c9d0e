import CombinatorGrammar.Grammar.Basic
import CombinatorGrammar.Program.Matcher

/-!
# Looking up names

Linking turns a combinator into a matcher by looking up every name in it. It does not stop at the
first name that is unknown: the answer is the matcher, or else one defect for every unknown name,
operands before the combinator that they belong to and from left to right.
-/

namespace CombinatorGrammar

/-- A result, or all the reasons why there is none. -/
abbrev Linked (α : Type) := Except (List Defect) α

namespace Linked

/-- Both results, or the reasons of the first followed by those of the second. -/
def both {α β : Type} : Linked α → Linked β → Linked (α × β)
  | .ok a, .ok b => .ok (a, b)
  | .ok _, .error second => .error second
  | .error first, .ok _ => .error first
  | .error first, .error second => .error (first ++ second)

/-- The result that a name has, or the one reason why it has none. -/
def ofOption {α : Type} (defect : Defect) : Option α → Linked α
  | some a => .ok a
  | none => .error [defect]

end Linked

/-- Where the names in a grammar's rules are looked up. -/
structure Directory where
  vocabulary : Vocabulary
  schema : Schema
  /-- Names of the rules, in order. -/
  rules : List String
  /-- Names of the predicates, in order. -/
  predicates : List String
  /-- The interner in which the texts of token matches have names. -/
  names : Interner

namespace Directory

/-- The token kind that a token match means. -/
def tokenKind (d : Directory) (rule : String) : TokenName → Linked TokenKind
  | .kind name => .ofOption (.unknownTokenKind rule name) (d.vocabulary.kind? name)
  | .literal text => .ofOption (.unknownLiteral rule text) (d.vocabulary.literalKind? text)

/-- The rule of a name. -/
def ruleRef? (d : Directory) (name : String) : Option RuleRef :=
  (d.rules.findIdx? (· == name)).map RuleRef.mk

/-- The predicate of a name. -/
def predicateRef? (d : Directory) (name : String) : Option PredicateRef :=
  (d.predicates.findIdx? (· == name)).map PredicateRef.mk

/-- The node type of a name. -/
def nodeRef (d : Directory) (name : String) : Linked NodeRef :=
  .ofOption (.unknownNodeType name) (d.schema.lookup? name)

/-- The enum type of a name with the place of an alternative. -/
def alternative (d : Directory) (type name : String) : Linked (EnumRef × Nat) :=
  match d.schema.lookupEnum? type with
  | none => .error [.unknownEnumType type]
  | some ref =>
    .ofOption (.unknownEnumAlternative type name)
      ((d.schema.alternativeIndex? ref name).map fun i => (ref, i))

end Directory

namespace Combinator

mutual

/-- The matcher of a combinator in the body of the given rule. -/
def link (d : Directory) (rule : String) : Combinator → Linked Matcher
  | .token t text keep => (d.tokenKind rule t).map fun kind =>
      .token kind (text.map fun text => (d.names.intern text).1) keep
  | .rule name => (Linked.ofOption (.undefinedRule rule name) (d.ruleRef? name)).map .rule
  | .seq items => (linkAll d rule items).map .seq
  | .choice alternatives => (linkAll d rule alternatives).map .choice
  | .opt operand => (operand.link d rule).map .opt
  | .group operand => (operand.link d rule).map .group
  | .list repetition element => (element.link d rule).map (.list repetition)
  | .sepList repetition element separator =>
    ((element.link d rule).both (separator.link d rule)).map fun (element, separator) =>
      .sepList repetition element separator
  | .cut => .ok .cut
  | .predicate name operand =>
    ((operand.link d rule).both
      (.ofOption (.undefinedPredicate rule name) (d.predicateRef? name))).map
      fun (operand, ref) => .predicate ref operand
  | .skip errorType => (d.nodeRef errorType).map .skip
  | .protect operand guard =>
    ((operand.link d rule).both (guard.link d rule)).map fun (operand, guard) =>
      .protect operand guard
  | .null type => (d.nodeRef type).map .null
  | .node type operand =>
    ((operand.link d rule).both (d.nodeRef type)).map fun (operand, ref) =>
      .node ref ((d.schema.layout ref).map Field.kind) operand
  | .enum type alternative operand =>
    ((operand.link d rule).both (d.alternative type alternative)).map
      fun (operand, ref, i) => .enum ref i operand

/-- The matchers of several combinators in the body of the given rule. -/
def linkAll (d : Directory) (rule : String) : List Combinator → Linked (List Matcher)
  | [] => .ok []
  | c :: cs => ((c.link d rule).both (linkAll d rule cs)).map fun (m, ms) => m :: ms

end

mutual

/-- The texts that token matches of the combinator require, from left to right. -/
def texts : Combinator → List String
  | .token _ text _ => text.toList
  | .rule _ => []
  | .seq items => textsOfAll items
  | .choice alternatives => textsOfAll alternatives
  | .opt operand => operand.texts
  | .group operand => operand.texts
  | .list _ element => element.texts
  | .sepList _ element separator => element.texts ++ separator.texts
  | .cut => []
  | .predicate _ operand => operand.texts
  | .skip _ => []
  | .protect operand guard => operand.texts ++ guard.texts
  | .null _ => []
  | .node _ operand => operand.texts
  | .enum _ _ operand => operand.texts

/-- The texts that token matches of several combinators require, from left to right. -/
def textsOfAll : List Combinator → List String
  | [] => []
  | c :: cs => c.texts ++ textsOfAll cs

end

end Combinator

namespace Grammar

/-- The texts that the token matches of a grammar require, in the order of its rules. -/
def texts (g : Grammar) : List String := g.rules.flatMap fun rule => rule.2.texts

/-- Where the names in the grammar's rules are looked up. -/
def directory (g : Grammar) (names : Interner) : Directory where
  vocabulary := g.vocabulary
  schema := g.schema
  rules := g.rules.map Prod.fst
  predicates := g.predicates.map Predicate.name
  names := names

/-- The matchers of named rule bodies. -/
def linkRules (d : Directory) : List (String × Combinator) → Linked (List (String × Matcher))
  | [] => .ok []
  | (name, body) :: rules =>
    ((body.link d name).both (linkRules d rules)).map fun (m, ms) => (name, m) :: ms

/-- The entry rule and the rules with their matchers. A missing entry rule is the first defect. -/
def link (g : Grammar) (names : Interner) : Linked (RuleRef × List (String × Matcher)) :=
  let d := g.directory names
  (Linked.ofOption (.noEntryRule g.entry) (d.ruleRef? g.entry)).both (linkRules d g.rules)

end Grammar

end CombinatorGrammar
