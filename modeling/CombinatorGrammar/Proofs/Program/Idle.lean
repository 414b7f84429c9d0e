import CombinatorGrammar.Proofs.Program.Parts

/-!
# Before the first token

What a matcher can do before it takes a token: match without taking any, fail behind a cut, and
call rules. Of rules this is given, together with a rank that falls along such calls; a program
fits what is given if each rule body bears it out. The answers err on one side: what a matcher can
do is told, and it may be told of more matchers than can.
-/

namespace CombinatorGrammar

/-- What is known of the rules of a program: which of them may match without taking a token, which
may fail behind a cut without having taken one, and how far each may descend into other rules
before it takes one. -/
structure IdleFacts where
  idles : RuleRef → Bool
  breaks : RuleRef → Bool
  rank : RuleRef → Nat

namespace Matcher

variable (k : IdleFacts)

mutual

/-- Whether the matcher may match without taking a token. A list takes one if it needs an
element, since it only counts turns that get on. -/
def idles : Matcher → Bool
  | token kind _ _ => kind.isTermination
  | rule ref => k.idles ref
  | seq items => allIdle items
  | choice alternatives => someIdles alternatives
  | opt _ => true
  | group _ => true
  | list repetition _ => repetition = .zeroOrMore
  | sepList repetition _ _ => repetition = .zeroOrMore
  | cut => true
  | predicate _ m => idles m
  | skip _ => false
  | protect m _ => idles m
  | null _ => true
  | node _ _ m => idles m
  | enum _ _ m => idles m

/-- Whether all of the matchers may match without taking a token. -/
def allIdle : List Matcher → Bool
  | [] => true
  | m :: ms => idles m && allIdle ms

/-- Whether one of the matchers may match without taking a token. -/
def someIdles : List Matcher → Bool
  | [] => false
  | m :: ms => idles m || someIdles ms

end

mutual

/-- Whether the matcher may fail behind a cut without having taken a token. A choice that recovers
may give up and pass on a failure of further behind. -/
def breaks : Matcher → Bool
  | token _ _ _ => false
  | rule ref => k.breaks ref
  | seq items => breaksBehind false items
  | choice alternatives => recovers alternatives || someBreaks alternatives
  | opt m => breaks m
  | group m => breaks m
  | list _ element => breaks element
  | sepList _ element _ => breaks element
  | cut => false
  | predicate _ m => breaks m
  | skip _ => false
  | protect m _ => breaks m
  | null _ => false
  | node _ _ m => breaks m
  | enum _ _ m => breaks m

/-- Whether the items of a sequence, behind one of its cuts or not, may fail behind a cut without
having taken a token. -/
def breaksBehind (committed : Bool) : List Matcher → Bool
  | [] => false
  | m :: ms =>
    if m.isCut then breaksBehind true ms
    else committed || breaks m || (idles k m && breaksBehind committed ms)

/-- Whether one of the matchers may fail behind a cut without having taken a token. -/
def someBreaks : List Matcher → Bool
  | [] => false
  | m :: ms => breaks m || someBreaks ms

end

mutual

/-- The rules that the matcher may call before it takes a token. Guards are probed outside all
rules, so they do not count. -/
def firstCalls : Matcher → List RuleRef
  | rule ref => [ref]
  | seq items => firstCallsOfItems items
  | choice alternatives => firstCallsOfAll alternatives
  | opt m => firstCalls m
  | group m => firstCalls m
  | list _ element => firstCalls element
  | sepList _ element _ => firstCalls element
  | predicate _ m => firstCalls m
  | protect m _ => firstCalls m
  | node _ _ m => firstCalls m
  | enum _ _ m => firstCalls m
  | _ => []

/-- The rules that the items of a sequence may call before they take a token. -/
def firstCallsOfItems : List Matcher → List RuleRef
  | [] => []
  | m :: ms => firstCalls m ++ if idles k m then firstCallsOfItems ms else []

/-- The rules that one of the matchers may call before it takes a token. -/
def firstCallsOfAll : List Matcher → List RuleRef
  | [] => []
  | m :: ms => firstCalls m ++ firstCallsOfAll ms

end

end Matcher

namespace IdleFacts

variable {k : IdleFacts} {p : Program}

/-- Whether the body of a rule bears out what is given of the rule. -/
def fitsRule (k : IdleFacts) (ref : RuleRef) (body : Matcher) : Bool :=
  (!body.idles k || k.idles ref) && (!body.breaks k || k.breaks ref) &&
    (body.firstCalls k).all fun callee => k.rank callee < k.rank ref

/-- What is given of the rules is true of the program. -/
def Fits (k : IdleFacts) (p : Program) : Prop :=
  ∀ i : Fin p.rules.size, ((p.rule? ⟨i⟩).all fun rule => k.fitsRule ⟨i⟩ rule.body) = true

instance (k : IdleFacts) (p : Program) : Decidable (k.Fits p) :=
  inferInstanceAs (Decidable (∀ _, _))

/-- What the body of a rule may do without a token is given of the rule. -/
structure Closed (k : IdleFacts) (p : Program) : Prop where
  idles : ∀ ref rule, p.rule? ref = some rule → rule.body.idles k = true → k.idles ref = true
  breaks : ∀ ref rule, p.rule? ref = some rule → rule.body.breaks k = true → k.breaks ref = true

variable {ref : RuleRef} {rule : Rule}

/-- What is given of a rule fits its body. -/
theorem Fits.at_rule (fits : k.Fits p) (found : p.rule? ref = some rule) :
    k.fitsRule ref rule.body = true := by
  have inside := (Array.getElem?_eq_some_iff.mp found).1
  have fact := fits ⟨ref.index, inside⟩
  rwa [found] at fact

/-- A rule is given as idle if its body idles. -/
theorem Fits.idles (fits : k.Fits p) (found : p.rule? ref = some rule)
    (idles : rule.body.idles k = true) : k.idles ref = true := by
  have fact := fits.at_rule found
  simp only [fitsRule, idles, Bool.and_eq_true] at fact
  simpa using fact.1.1

/-- A rule is given as breaking if its body breaks. -/
theorem Fits.breaks (fits : k.Fits p) (found : p.rule? ref = some rule)
    (breaks : rule.body.breaks k = true) : k.breaks ref = true := by
  have fact := fits.at_rule found
  simp only [fitsRule, breaks, Bool.and_eq_true] at fact
  simpa using fact.1.2

/-- Facts that fit a program are closed under its rules. -/
theorem Fits.closed (fits : k.Fits p) : k.Closed p :=
  ⟨fun _ _ => fits.idles, fun _ _ => fits.breaks⟩

/-- A rule that is called before a token is taken has a lower rank. -/
theorem Fits.rank_lt (fits : k.Fits p) (found : p.rule? ref = some rule) {callee : RuleRef}
    (called : callee ∈ rule.body.firstCalls k) : k.rank callee < k.rank ref := by
  have fact := fits.at_rule found
  rw [fitsRule, Bool.and_eq_true] at fact
  exact of_decide_eq_true (List.all_eq_true.mp fact.2 callee called)

end IdleFacts

end CombinatorGrammar
