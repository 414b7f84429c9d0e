import CombinatorGrammar.Program.Basic

/-!
# Listings of programs

A program can be listed as one sequence of instructions. Each matcher becomes one instruction
that refers to its operands by their handles, which are places in the listing. Operands come
before the matcher that they belong to, and the rules follow one another, so a rule takes a
range of the listing whose last instruction is the root of its body.
-/

namespace CombinatorGrammar

/-- A matcher whose operands are given by their handles. -/
inductive Instruction where
  | token (kind : TokenKind) (text : Option Name) (keep : Bool)
  | rule (ref : RuleRef)
  | seq (items : List Nat)
  | choice (alternatives : List Nat) (recovers : Bool)
  | opt (operand : Nat)
  | group (operand : Nat)
  | list (repetition : Repetition) (element : Nat) (separator : Option Nat)
  | cut
  | predicate (ref : PredicateRef) (operand : Nat)
  | skip (errorType : NodeRef)
  | protect (operand guard : Nat)
  | null (type : NodeRef)
  | node (type : NodeRef) (layout : List FieldKind) (operand : Nat)
  | enum (type : EnumRef) (alternative : Nat) (operand : Nat)
  deriving DecidableEq

namespace Matcher

mutual

/-- The number of instructions of a matcher. -/
def size : Matcher → Nat
  | .token _ _ _ => 1
  | .rule _ => 1
  | .seq items => sizeOfAll items + 1
  | .choice alternatives => sizeOfAll alternatives + 1
  | .opt operand => operand.size + 1
  | .group operand => operand.size + 1
  | .list _ element => element.size + 1
  | .sepList _ element separator => element.size + separator.size + 1
  | .cut => 1
  | .predicate _ operand => operand.size + 1
  | .skip _ => 1
  | .protect operand guard => operand.size + guard.size + 1
  | .null _ => 1
  | .node _ _ operand => operand.size + 1
  | .enum _ _ operand => operand.size + 1

/-- The number of instructions of several matchers. -/
def sizeOfAll : List Matcher → Nat
  | [] => 0
  | m :: ms => m.size + sizeOfAll ms

end

/-- The handle of a matcher whose instructions start at `base`: that of the last of them. -/
def handle (base : Nat) (m : Matcher) : Nat := base + m.size - 1

/-- The handles of several matchers whose instructions start at `base`. -/
def handles (base : Nat) : List Matcher → List Nat
  | [] => []
  | m :: ms => m.handle base :: handles (base + m.size) ms

mutual

/-- The instructions of a matcher that start at `base`, each with the matcher it stands for. -/
def listing (base : Nat) : Matcher → List (Instruction × Matcher)
  | m@(.token kind text keep) => [(.token kind text keep, m)]
  | m@(.rule ref) => [(.rule ref, m)]
  | m@(.seq items) => listingOfAll base items ++ [(.seq (handles base items), m)]
  | m@(.choice alternatives) =>
    listingOfAll base alternatives ++
      [(.choice (handles base alternatives) (recovers alternatives), m)]
  | m@(.opt operand) => operand.listing base ++ [(.opt (operand.handle base), m)]
  | m@(.group operand) => operand.listing base ++ [(.group (operand.handle base), m)]
  | m@(.list repetition element) =>
    element.listing base ++ [(.list repetition (element.handle base) none, m)]
  | m@(.sepList repetition element separator) =>
    element.listing base ++ separator.listing (base + element.size) ++
      [(.list repetition (element.handle base) (some (separator.handle (base + element.size))), m)]
  | m@(.cut) => [(.cut, m)]
  | m@(.predicate ref operand) =>
    operand.listing base ++ [(.predicate ref (operand.handle base), m)]
  | m@(.skip errorType) => [(.skip errorType, m)]
  | m@(.protect operand guard) =>
    operand.listing base ++ guard.listing (base + operand.size) ++
      [(.protect (operand.handle base) (guard.handle (base + operand.size)), m)]
  | m@(.null type) => [(.null type, m)]
  | m@(.node type layout operand) =>
    operand.listing base ++ [(.node type layout (operand.handle base), m)]
  | m@(.enum type alternative operand) =>
    operand.listing base ++ [(.enum type alternative (operand.handle base), m)]

/-- The instructions of several matchers that start at `base`. -/
def listingOfAll (base : Nat) : List Matcher → List (Instruction × Matcher)
  | [] => []
  | m :: ms => m.listing base ++ listingOfAll (base + m.size) ms

end

end Matcher

/-- A rule as it is listed. -/
structure ListedRule where
  name : String
  /-- The handle of the rule's body. -/
  body : Nat
  /-- The number of values that the rule yields. -/
  arity : Nat
  deriving DecidableEq

namespace Program

/-- The bodies of the rules, in order. -/
def bodies (p : Program) : List Matcher := p.rules.toList.map Rule.body

/-- The instructions of the program, each with the matcher it stands for. -/
def listing (p : Program) : List (Instruction × Matcher) := Matcher.listingOfAll 0 p.bodies

/-- The instructions of the program with the number of values that each yields. -/
def instructions (p : Program) : List (Instruction × Nat) :=
  p.listing.map fun (instruction, m) => (instruction, p.arity m)

/-- The rules with the handles of their bodies. -/
def listedRules (p : Program) : List ListedRule :=
  (p.rules.toList.zip (Matcher.handles 0 p.bodies)).map fun (rule, body) =>
    ⟨rule.name, body, p.arity rule.body⟩

/-- Whether two programs have the same listing, entry, types and names of predicates. Their
vocabularies and the predicates themselves are not compared. -/
def same (p q : Program) : Bool :=
  p.instructions == q.instructions && p.listedRules == q.listedRules && p.entry == q.entry &&
    p.schema.same q.schema &&
    p.predicates.map Predicate.name == q.predicates.map Predicate.name

/-- A program in one line: the entry rule and the numbers of rules and instructions. -/
def brief (p : Program) : String :=
  "ResolvedGrammar \x7b entry: " ++ Text.quoted (p.ruleName p.entry) ++
    s!", rules: {p.rules.size}, ops: {Matcher.sizeOfAll p.bodies}, .. \x7d"

end Program

end CombinatorGrammar
