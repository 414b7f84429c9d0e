import CombinatorGrammar.Grammar.Combinator
import CombinatorGrammar.Schema.Basic
import CombinatorGrammar.Symbol.Interner
import CombinatorGrammar.Token.Vocabulary

/-!
# Combinators by number

A matcher is a combinator whose names have been looked up: it refers to rules, token kinds, types
and predicates by their numbers. A node construction carries the kinds of its type's layout, so
that building a node needs no lookup.
-/

namespace CombinatorGrammar

/-- A rule, by its number in a program. -/
structure RuleRef where
  /-- The number itself. -/
  index : Nat
  deriving DecidableEq, Inhabited

/-- A predicate, by its number in a program. -/
structure PredicateRef where
  /-- The number itself. -/
  index : Nat
  deriving DecidableEq, Inhabited

/-- A combinator that refers to everything by number. -/
inductive Matcher where
  | token (kind : TokenKind) (text : Option Name) (keep : Bool)
  | rule (ref : RuleRef)
  | seq (items : List Matcher)
  | choice (alternatives : List Matcher)
  | opt (operand : Matcher)
  | group (operand : Matcher)
  | list (repetition : Repetition) (element : Matcher)
  | sepList (repetition : Repetition) (element separator : Matcher)
  | cut
  | predicate (ref : PredicateRef) (operand : Matcher)
  | skip (errorType : NodeRef)
  | protect (operand guard : Matcher)
  | null (type : NodeRef)
  | node (type : NodeRef) (layout : List FieldKind) (operand : Matcher)
  | enum (type : EnumRef) (alternative : Nat) (operand : Matcher)
  deriving Inhabited

namespace Matcher

/-- Induction on a matcher, with the operands of a sequence or a choice as the members of a list. -/
@[elab_as_elim, induction_eliminator]
theorem induct {motive : Matcher → Prop}
    (token : ∀ kind text keep, motive (.token kind text keep))
    (rule : ∀ ref, motive (.rule ref))
    (seq : ∀ items, (∀ m ∈ items, motive m) → motive (.seq items))
    (choice : ∀ alternatives, (∀ m ∈ alternatives, motive m) → motive (.choice alternatives))
    (opt : ∀ m, motive m → motive (.opt m))
    (group : ∀ m, motive m → motive (.group m))
    (list : ∀ repetition element, motive element → motive (.list repetition element))
    (sepList : ∀ repetition element separator, motive element → motive separator →
      motive (.sepList repetition element separator))
    (cut : motive .cut)
    (predicate : ∀ ref m, motive m → motive (.predicate ref m))
    (skip : ∀ errorType, motive (.skip errorType))
    (protect : ∀ m guard, motive m → motive guard → motive (.protect m guard))
    (null : ∀ type, motive (.null type))
    (node : ∀ type layout m, motive m → motive (.node type layout m))
    (enum : ∀ type alternative m, motive m → motive (.enum type alternative m)) (m : Matcher) :
    motive m :=
  m.rec (motive_2 := fun ms => ∀ m ∈ ms, motive m) token rule seq choice opt group list sepList
    cut predicate skip protect null node enum (fun _ h => nomatch h)
    (fun _ _ head tail => List.forall_mem_cons.mpr ⟨head, tail⟩)

/-- Whether the matcher is itself a cut. -/
def isCut : Matcher → Bool
  | cut => true
  | _ => false

/-- Whether the matcher is itself a skip. -/
def isSkip : Matcher → Bool
  | skip _ => true
  | _ => false

/-- Whether a choice of these alternatives recovers from failures behind a cut: one of them is a
skip. -/
def recovers (alternatives : List Matcher) : Bool := alternatives.any isSkip

end Matcher

end CombinatorGrammar
