import CombinatorGrammar.Program.Matcher
import CombinatorGrammar.Program.Shape

/-!
# Signatures

A signature lists the shapes of the values that a matcher yields. It is computed from the
signatures of the rules that the matcher refers to, and is unknown as long as those that it needs
are. Rule signatures are found in rounds, each from those of the round before, beginning with
none known: a recursive rule becomes known through an alternative that does without it. The
rounds end when one changes nothing, or at a fixed number.
-/

namespace CombinatorGrammar

/-- The signatures of a sequence's items one after the other, if all are known. -/
def Signature.concat (items : List (Option Signature)) : Option Signature :=
  (items.mapM id).map List.flatten

/-- The signature of a choice: that of the first known alternative, joined with those of the
other known alternatives of the same length. -/
def Signature.alternatives (schema : Schema) (known : List (Option Signature)) :
    Option Signature :=
  match known.filterMap id with
  | [] => none
  | first :: others => some ((others.filter fun s => s.length == first.length).foldl
      (fun joined s => List.zipWith (Shape.join schema) joined s) first)

/-- The shape of the elements of a group with the given operand. -/
def Signature.groupElement (schema : Schema) : Option Signature → Shape
  | none => .null
  | some shapes => shapes.foldl (Shape.join schema) .null

/-- The shape of the elements of a list with the given element. -/
def Signature.listElement : Option Signature → Shape
  | none => .null
  | some [shape] => shape
  | some _ => .any

namespace Matcher

mutual

/-- The signature of a matcher, if it is known. -/
def signature? (schema : Schema) (rules : RuleRef → Option Signature) :
    Matcher → Option Signature
  | .token _ _ keep => some (if keep then [.token] else [])
  | .rule ref => rules ref
  | .seq items => Signature.concat (signatures schema rules items)
  | .choice alternatives => Signature.alternatives schema (signatures schema rules alternatives)
  | .opt operand => operand.signature? schema rules
  | .group operand =>
    some [.list (Signature.groupElement schema (operand.signature? schema rules))]
  | .list _ element => some [.list (Signature.listElement (element.signature? schema rules))]
  | .sepList _ element _ =>
    some [.list (Signature.listElement (element.signature? schema rules))]
  | .cut => some []
  | .predicate _ operand => operand.signature? schema rules
  | .skip errorType => some [.node errorType]
  | .protect operand _ => operand.signature? schema rules
  | .null type => some [.node type]
  | .node type _ _ => some [.node type]
  | .enum type _ _ => some [.enum type]

/-- The signatures of several matchers. -/
def signatures (schema : Schema) (rules : RuleRef → Option Signature) :
    List Matcher → List (Option Signature)
  | [] => []
  | m :: ms => m.signature? schema rules :: signatures schema rules ms

end

mutual

/-- The number of values that a matcher yields, if it is known. -/
def arity? (rules : RuleRef → Option Nat) : Matcher → Option Nat
  | .token _ _ keep => some (if keep then 1 else 0)
  | .rule ref => rules ref
  | .seq items => ((arities rules items).mapM id).map (List.foldr (· + ·) 0)
  | .choice alternatives => ((arities rules alternatives).filterMap id).head?
  | .opt operand => operand.arity? rules
  | .group _ => some 1
  | .list _ _ => some 1
  | .sepList _ _ _ => some 1
  | .cut => some 0
  | .predicate _ operand => operand.arity? rules
  | .skip _ => some 1
  | .protect operand _ => operand.arity? rules
  | .null _ => some 1
  | .node _ _ _ => some 1
  | .enum _ _ _ => some 1

/-- The numbers of values that several matchers yield. -/
def arities (rules : RuleRef → Option Nat) : List Matcher → List (Option Nat)
  | [] => []
  | m :: ms => m.arity? rules :: arities rules ms

end

end Matcher

/-- Signatures of the rules of a grammar, each at its rule's number. -/
abbrev RuleSignatures := Array (Option Signature)

namespace RuleSignatures

/-- The signature of a rule, if it is known. -/
def get? (known : RuleSignatures) (ref : RuleRef) : Option Signature := known[ref.index]?.join

/-- One round: the signatures of the bodies, read with those known so far. -/
def next (schema : Schema) (bodies : List Matcher) (known : RuleSignatures) : RuleSignatures :=
  (bodies.map fun body => body.signature? schema known.get?).toArray

/-- Rounds up to the given number, until one changes nothing. The answer is what the last round
read and what it gave. -/
def rounds (schema : Schema) (bodies : List Matcher) :
    Nat → RuleSignatures → RuleSignatures → RuleSignatures × RuleSignatures
  | 0, read, given => (read, given)
  | n + 1, _, given =>
    let found := next schema bodies given
    if found = given then (given, given) else rounds schema bodies n given found

/-- The number of rounds after which inference ends in any case. -/
def maxRounds (schema : Schema) (bodies : List Matcher) : Nat :=
  2 * (bodies.length + schema.nodes.size) + 8

/-- The rule signatures that the last round read, and those that it gave. -/
def infer (schema : Schema) (bodies : List Matcher) : RuleSignatures × RuleSignatures :=
  let unknown : RuleSignatures := Array.replicate bodies.length none
  rounds schema bodies (maxRounds schema bodies) unknown unknown

end RuleSignatures

end CombinatorGrammar
