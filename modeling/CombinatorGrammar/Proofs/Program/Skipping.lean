import CombinatorGrammar.Proofs.Program.Idle
import CombinatorGrammar.Proofs.Program.Inference

/-!
# Where a program can skip

A matcher reaches a skip through its operands and through the rules that it refers to. Guards do
not count: they are only ever probed, and a probe takes nothing and leaves nothing behind.

Rules are of three classes where skipping is kept in order. A plain rule never comes to a skip. An
open rule is a list whose elements may be skipped, up to whatever stands behind the list. A closed
rule comes to skips only in open lists, each of which is followed behind a cut by the very token
that the list protects.
-/

namespace CombinatorGrammar

namespace Matcher

/-- The operands of a matcher that take part in a match: all but guards. -/
def branches : Matcher → List Matcher
  | protect m _ => [m]
  | m => m.operands

/-- A branch of a matcher is an operand of it. -/
theorem mem_operands_of_mem_branches {m n : Matcher} (branch : n ∈ m.branches) :
    n ∈ m.operands := by
  cases m with
  | protect m guard =>
    obtain rfl := List.mem_singleton.mp branch
    exact List.mem_cons_self ..
  | _ => exact branch

end Matcher

namespace Program

variable {p : Program} {m n : Matcher}

/-- A match of the matcher may come to a skip. -/
inductive ReachesSkip (p : Program) : Matcher → Prop
  | skip {errorType : NodeRef} : ReachesSkip p (.skip errorType)
  | branch {m n : Matcher} : n ∈ m.branches → ReachesSkip p n → ReachesSkip p m
  | rule {ref : RuleRef} {rule : Rule} :
      p.rule? ref = some rule → ReachesSkip p rule.body → ReachesSkip p (.rule ref)

/-- A match of the matcher never comes to a skip. -/
def Skipless (p : Program) (m : Matcher) : Prop := ¬ p.ReachesSkip m

/-- The branches of what never comes to a skip never do either. -/
theorem Skipless.branch (h : p.Skipless m) (branch : n ∈ m.branches) : p.Skipless n :=
  fun reaches => h (.branch branch reaches)

/-- The body of a rule that never comes to a skip never does either. -/
theorem Skipless.body {ref : RuleRef} {rule : Rule} (h : p.Skipless (.rule ref))
    (found : p.rule? ref = some rule) : p.Skipless rule.body :=
  fun reaches => h (.rule found reaches)

/-- A skip comes to a skip. -/
theorem not_skipless_skip {errorType : NodeRef} : ¬ p.Skipless (.skip errorType) :=
  fun h => h .skip

/-- A token match never comes to a skip. -/
theorem skipless_token {kind : TokenKind} {text : Option Name} {keep : Bool} :
    p.Skipless (.token kind text keep) := by
  intro reaches
  cases reaches with
  | branch none _ => cases none

/-- A choice without skips among its alternatives does not recover. -/
theorem Skipless.recovers_eq_false {alternatives : List Matcher}
    (h : p.Skipless (.choice alternatives)) : Matcher.recovers alternatives = false := by
  rw [Matcher.recovers, List.any_eq_false]
  intro m among isSkip
  cases m with
  | skip errorType => exact not_skipless_skip (h.branch among)
  | _ => cases isSkip

end Program

namespace Matcher

/-- Whether the matcher is neither a skip nor a reference to a rule outside the given ones. -/
def staysWithin (plain : RuleRef → Bool) : Matcher → Bool
  | skip _ => false
  | rule ref => plain ref
  | _ => true

/-- Whether all parts of the matcher stay within the given rules. -/
def isPlain (plain : RuleRef → Bool) (m : Matcher) : Bool := m.parts.all (staysWithin plain)

end Matcher

/-- The classes of the rules of a program. -/
structure SkipClasses where
  plain : RuleRef → Bool
  closed : RuleRef → Bool
  opens : RuleRef → Bool

namespace Matcher

variable (k : IdleFacts) (c : SkipClasses)

/-- Whether the matcher is an open rule or a list of elements that may be skipped, where no element
matches without taking a token. -/
def isOpen : Matcher → Bool
  | rule ref => c.opens ref
  | list .zeroOrMore (choice [rule ref, skip _]) =>
    (c.plain ref || c.closed ref) && !k.idles ref
  | _ => false

/-- Whether a region with the protected matcher is open and is followed by just the token that it
protects, with nothing but plain items behind that. -/
def closesRegion : Matcher → List Matcher → Bool
  | protect m (token kind text _), token kind' text' _ :: items =>
    isOpen k c m && kind == kind' && text == text' && items.all (isPlain c.plain)
  | _, _ => false

mutual

/-- Whether the matcher comes to skips only where their region is closed. -/
def isClosed (m : Matcher) : Bool :=
  isPlain c.plain m || match m with
    | rule ref => c.closed ref
    | seq items => itemsClosed false items
    | choice alternatives => allClosed alternatives
    | node _ _ m => isClosed m
    | _ => false

/-- Whether the items of a sequence, behind one of its cuts or not, come to skips only where their
region is closed: in the last item, or behind a cut. -/
def itemsClosed (committed : Bool) : List Matcher → Bool
  | [] => true
  | m :: ms =>
    if m.isCut then itemsClosed true ms
    else isPlain c.plain m && itemsClosed committed ms || ms.isEmpty && isClosed m ||
      committed && closesRegion k c m ms

/-- Whether all of the matchers come to skips only where their region is closed. -/
def allClosed : List Matcher → Bool
  | [] => true
  | m :: ms => isClosed m && allClosed ms

end

variable {k : IdleFacts} {c : SkipClasses}

/-- Matchers are closed if each of them is. -/
theorem allClosed_iff {ms : List Matcher} :
    allClosed k c ms = true ↔ ∀ m ∈ ms, isClosed k c m = true := by
  induction ms with
  | nil => simp [allClosed]
  | cons m ms ih => simp [allClosed, ih]

/-- A choice whose alternatives are all closed has no skip among them, so it does not recover. -/
theorem recovers_eq_false_of_closed {ms : List Matcher}
    (closed : ∀ m ∈ ms, isClosed k c m = true) : recovers ms = false := by
  rw [recovers, List.any_eq_false]
  intro m among isSkip
  have here := closed m among
  cases m with
  | skip errorType => simp [isClosed, isPlain, parts, staysWithin] at here
  | _ => cases isSkip

end Matcher

namespace SkipClasses

/-- Whether the body of a rule is of the classes that the rule is of. -/
def fitsRule (k : IdleFacts) (c : SkipClasses) (ref : RuleRef) (body : Matcher) : Bool :=
  (!c.plain ref || body.isPlain c.plain) && (!c.closed ref || body.isClosed k c) &&
    (!c.opens ref || body.isOpen k c)

/-- The rules of the program are of their classes. -/
def Fits (k : IdleFacts) (c : SkipClasses) (p : Program) : Prop :=
  ∀ i : Fin p.rules.size, ((p.rule? ⟨i⟩).all fun rule => c.fitsRule k ⟨i⟩ rule.body) = true

instance (k : IdleFacts) (c : SkipClasses) (p : Program) : Decidable (c.Fits k p) :=
  inferInstanceAs (Decidable (∀ _, _))

variable {k : IdleFacts} {c : SkipClasses} {p : Program} {m : Matcher} {ref : RuleRef}
  {rule : Rule}

/-- The body of a rule is of the class that is given of the rule. -/
theorem Fits.at_rule (fits : c.Fits k p) (found : p.rule? ref = some rule) :
    (c.plain ref = true → rule.body.isPlain c.plain = true) ∧
      (c.closed ref = true → rule.body.isClosed k c = true) ∧
      (c.opens ref = true → rule.body.isOpen k c = true) := by
  have inside := (Array.getElem?_eq_some_iff.mp found).1
  have fact := fits ⟨ref.index, inside⟩
  rw [found] at fact
  simp only [Option.all_some, fitsRule, Bool.and_eq_true, Bool.or_eq_true,
    Bool.not_eq_true'] at fact
  obtain ⟨⟨plain, closed⟩, opens⟩ := fact
  refine ⟨fun yes => plain.resolve_left ?_, fun yes => closed.resolve_left ?_,
    fun yes => opens.resolve_left ?_⟩
  all_goals
    rw [Bool.not_eq_false]
    exact yes

/-- What refers to plain rules only never comes to a skip. -/
theorem Fits.skipless (fits : c.Fits k p) (plain : m.isPlain c.plain = true) : p.Skipless m := by
  intro reaches
  induction reaches with
  | skip => cases List.all_eq_true.mp plain _ (Matcher.mem_parts_self _)
  | @branch m n branch _ ih =>
    refine ih (List.all_eq_true.mpr fun j part => List.all_eq_true.mp plain j ?_)
    exact Matcher.mem_parts_iff.mpr
      (Or.inr ⟨n, Matcher.mem_operands_of_mem_branches branch, part⟩)
  | rule found _ ih =>
    exact ih ((fits.at_rule found).1 (List.all_eq_true.mp plain _ (Matcher.mem_parts_self _)))

end SkipClasses

namespace Program

variable {p : Program} {k : IdleFacts} {c : SkipClasses}

/-- A program in which the error nodes of a tree are the tokens skipped: choices have alternatives,
nodes are only built of other types, and separators, which have no place in the tree, never come
to a skip. -/
structure SkipsOpenly (p : Program) : Prop where
  alternatives : .choice [] ∉ p.parts
  nodes : ∀ type layout m, .node type layout m ∈ p.parts → p.schema.isError type = false
  separators : ∀ repetition element separator,
    .sepList repetition element separator ∈ p.parts → p.Skipless separator

/-- Whether a part of the program is as it is where error nodes are the tokens skipped. -/
def skipsOpenlyAt (p : Program) (c : SkipClasses) : Matcher → Bool
  | .choice alternatives => !alternatives.isEmpty
  | .node type _ _ => !p.schema.isError type
  | .sepList _ _ separator => separator.isPlain c.plain
  | _ => true

/-- A program whose parts pass the check skips openly. -/
theorem skipsOpenly_of_parts (fits : c.Fits k p)
    (parts : p.parts.all (p.skipsOpenlyAt c) = true) : p.SkipsOpenly where
  alternatives part := by cases List.all_eq_true.mp parts _ part
  nodes type layout m part := by
    simpa [skipsOpenlyAt] using List.all_eq_true.mp parts _ part
  separators repetition element separator part :=
    fits.skipless (List.all_eq_true.mp parts _ part)

end Program

end CombinatorGrammar
