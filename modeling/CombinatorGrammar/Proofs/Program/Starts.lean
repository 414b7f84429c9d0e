import CombinatorGrammar.Proofs.Program.Idle
import Mathlib.Logic.Relation

/-!
# Left recursion

A rule can start another one if its body comes to a reference to it before any token is taken, past
nothing but matchers that may match without taking one. A rule is left-recursive if such steps lead
from it back to it. That a matcher may match in this way is the least property that is borne out by
the rule bodies; whatever else fits a program says it of these matchers too.
-/

namespace CombinatorGrammar

namespace Matcher

/-- The matcher may match without taking a token. A token match may do so on the termination token,
which is not taken; a list that needs an element takes one. -/
inductive MayIdle (p : Program) : Matcher → Prop
  | termination {kind : TokenKind} {text : Option Name} {keep : Bool} :
      kind.isTermination = true → MayIdle p (.token kind text keep)
  | rule {ref : RuleRef} {rule : Rule} :
      p.rule? ref = some rule → MayIdle p rule.body → MayIdle p (.rule ref)
  | seq {items : List Matcher} : (∀ m ∈ items, MayIdle p m) → MayIdle p (.seq items)
  | choice {alternatives : List Matcher} {m : Matcher} :
      m ∈ alternatives → MayIdle p m → MayIdle p (.choice alternatives)
  | opt {m : Matcher} : MayIdle p (.opt m)
  | group {m : Matcher} : MayIdle p (.group m)
  | list {element : Matcher} : MayIdle p (.list .zeroOrMore element)
  | sepList {element separator : Matcher} : MayIdle p (.sepList .zeroOrMore element separator)
  | cut : MayIdle p .cut
  | predicate {ref : PredicateRef} {m : Matcher} : MayIdle p m → MayIdle p (.predicate ref m)
  | protect {m guard : Matcher} : MayIdle p m → MayIdle p (.protect m guard)
  | null {type : NodeRef} : MayIdle p (.null type)
  | node {type : NodeRef} {layout : List FieldKind} {m : Matcher} :
      MayIdle p m → MayIdle p (.node type layout m)
  | enum {type : EnumRef} {alternative : Nat} {m : Matcher} :
      MayIdle p m → MayIdle p (.enum type alternative m)

/-- In the matcher a reference to the rule can be reached before a token is taken, past nothing but
what may match without taking one. A separator is reached behind an element only, and a guard is
attempted outside the matcher. -/
inductive CanReach (p : Program) (ref : RuleRef) : Matcher → Prop
  | rule : CanReach p ref (.rule ref)
  | seq {before after : List Matcher} {m : Matcher} :
      (∀ n ∈ before, n.MayIdle p) → CanReach p ref m →
      CanReach p ref (.seq (before ++ m :: after))
  | choice {alternatives : List Matcher} {m : Matcher} :
      m ∈ alternatives → CanReach p ref m → CanReach p ref (.choice alternatives)
  | opt {m : Matcher} : CanReach p ref m → CanReach p ref (.opt m)
  | group {m : Matcher} : CanReach p ref m → CanReach p ref (.group m)
  | list {repetition : Repetition} {element : Matcher} :
      CanReach p ref element → CanReach p ref (.list repetition element)
  | sepList {repetition : Repetition} {element separator : Matcher} :
      CanReach p ref element → CanReach p ref (.sepList repetition element separator)
  | predicate {pred : PredicateRef} {m : Matcher} :
      CanReach p ref m → CanReach p ref (.predicate pred m)
  | protect {m guard : Matcher} : CanReach p ref m → CanReach p ref (.protect m guard)
  | node {type : NodeRef} {layout : List FieldKind} {m : Matcher} :
      CanReach p ref m → CanReach p ref (.node type layout m)
  | enum {type : EnumRef} {alternative : Nat} {m : Matcher} :
      CanReach p ref m → CanReach p ref (.enum type alternative m)

variable {p : Program} {k : IdleFacts} {m : Matcher} {ms : List Matcher} {ref : RuleRef}

/-- All matchers are idle if each is. -/
theorem allIdle_iff : allIdle k ms = true ↔ ∀ m ∈ ms, m.idles k = true := by
  induction ms with
  | nil => simp [allIdle]
  | cons m ms ih => simp [allIdle, ih]

/-- Some matcher is idle if one is. -/
theorem someIdles_iff : someIdles k ms = true ↔ ∃ m ∈ ms, m.idles k = true := by
  induction ms with
  | nil => simp [someIdles]
  | cons m ms ih => simp [someIdles, ih]

/-- A rule that several matchers may call first is one that one of them may call first. -/
theorem mem_firstCallsOfAll_iff :
    ref ∈ firstCallsOfAll k ms ↔ ∃ m ∈ ms, ref ∈ m.firstCalls k := by
  induction ms with
  | nil => simp [firstCallsOfAll]
  | cons m ms ih => simp [firstCallsOfAll, ih]

/-- Items call what one of them calls of which all before it may idle. -/
theorem mem_firstCallsOfItems_iff :
    ref ∈ firstCallsOfItems k ms ↔ ∃ before m after, ms = before ++ m :: after ∧
      (∀ n ∈ before, n.idles k = true) ∧ ref ∈ m.firstCalls k := by
  induction ms with
  | nil => simp [firstCallsOfItems]
  | cons m ms ih =>
    rw [firstCallsOfItems, List.mem_append]
    constructor
    · rintro (here | later)
      · exact ⟨[], m, ms, rfl, List.forall_mem_nil _, here⟩
      · split at later
        · next idle =>
          obtain ⟨before, n, after, rfl, idles, called⟩ := ih.mp later
          exact ⟨m :: before, n, after, rfl, List.forall_mem_cons.mpr ⟨idle, idles⟩, called⟩
        · cases later
    · rintro ⟨_ | ⟨first, before⟩, n, after, same, idles, called⟩
      · obtain ⟨rfl, rfl⟩ := List.cons.inj same
        exact Or.inl called
      · obtain ⟨rfl, rfl⟩ := List.cons.inj same
        obtain ⟨idle, idles⟩ := List.forall_mem_cons.mp idles
        rw [if_pos idle]
        exact Or.inr (ih.mpr ⟨before, n, after, rfl, idles, called⟩)

/-- What is given of the rules of a program it fits says of every matcher that may idle that it
does. -/
theorem MayIdle.idles (fits : k.Fits p) (h : m.MayIdle p) : m.idles k = true := by
  induction h with
  | termination ends => exact ends
  | rule found _ ih => exact fits.idles found ih
  | seq _ ih => exact allIdle_iff.mpr ih
  | choice among _ ih => exact someIdles_iff.mpr ⟨_, among, ih⟩
  | opt | group | list | sepList | cut | null => rfl
  | predicate _ ih | protect _ ih | node _ ih | enum _ ih => exact ih

/-- A rule that can be reached before a token is taken is among the first calls. -/
theorem CanReach.mem_firstCalls (fits : k.Fits p) (h : m.CanReach p ref) :
    ref ∈ m.firstCalls k := by
  induction h with
  | rule => exact List.mem_singleton_self _
  | seq idles _ ih =>
    exact mem_firstCallsOfItems_iff.mpr
      ⟨_, _, _, rfl, fun n among => (idles n among).idles fits, ih⟩
  | choice among _ ih => exact mem_firstCallsOfAll_iff.mpr ⟨_, among, ih⟩
  | opt _ ih | group _ ih | list _ ih | sepList _ ih | predicate _ ih | protect _ ih | node _ ih
  | enum _ ih => exact ih

/-- If no more is given of rules than that they may idle, then a matcher that is told to idle may do
so. -/
theorem mayIdle_of_idles (least : ∀ ref, k.idles ref = true → MayIdle p (.rule ref))
    (h : m.idles k = true) : m.MayIdle p := by
  induction m with
  | token kind text keep => exact .termination h
  | rule ref => exact least ref h
  | seq items ih => exact .seq fun m among => ih m among (allIdle_iff.mp h m among)
  | choice alternatives ih =>
    obtain ⟨m, among, idle⟩ := someIdles_iff.mp h
    exact .choice among (ih m among idle)
  | opt | group | cut | null => constructor
  | list repetition | sepList repetition =>
    obtain rfl : repetition = .zeroOrMore := of_decide_eq_true h
    constructor
  | predicate _ _ ih => exact .predicate (ih h)
  | skip => cases h
  | protect _ _ ih _ => exact .protect (ih h)
  | node _ _ _ ih => exact .node (ih h)
  | enum _ _ _ ih => exact .enum (ih h)

/-- With the least facts, a first call can be reached before a token is taken. -/
theorem canReach_of_mem_firstCalls (least : ∀ ref, k.idles ref = true → MayIdle p (.rule ref))
    (h : ref ∈ m.firstCalls k) : m.CanReach p ref := by
  induction m with
  | rule callee =>
    obtain rfl := List.mem_singleton.mp h
    exact .rule
  | seq items ih =>
    obtain ⟨before, m, after, rfl, idles, called⟩ := mem_firstCallsOfItems_iff.mp h
    refine .seq (fun n among => mayIdle_of_idles least (idles n among)) (ih m ?_ called)
    exact List.mem_append_right _ (List.mem_cons_self ..)
  | choice alternatives ih =>
    obtain ⟨m, among, called⟩ := mem_firstCallsOfAll_iff.mp h
    exact .choice among (ih m among called)
  | opt _ ih => exact .opt (ih h)
  | group _ ih => exact .group (ih h)
  | list _ _ ih => exact .list (ih h)
  | sepList _ _ _ ih _ => exact .sepList (ih h)
  | predicate _ _ ih => exact .predicate (ih h)
  | protect _ _ ih _ => exact .protect (ih h)
  | node _ _ _ ih => exact .node (ih h)
  | enum _ _ _ ih => exact .enum (ih h)
  | token | cut | skip | null => cases h

end Matcher

namespace Program

/-- In the body of the first rule a reference to the second one can be reached before a token is
taken. -/
def CanStart (p : Program) (ref callee : RuleRef) : Prop :=
  ∃ rule, p.rule? ref = some rule ∧ rule.body.CanReach p callee

/-- The rule lies on a cycle of rules that can start one another. -/
def LeftRecursive (p : Program) (ref : RuleRef) : Prop :=
  Relation.TransGen p.CanStart ref ref

open Classical in
/-- Which rules may idle, and nothing else. -/
noncomputable def leastFacts (p : Program) : IdleFacts where
  idles ref := decide (Matcher.MayIdle p (.rule ref))
  breaks _ := true
  rank _ := 0

variable {p : Program} {k : IdleFacts}

/-- A rule that is idle by the least facts may match without a token. -/
theorem mayIdle_of_leastFacts (ref : RuleRef) (h : p.leastFacts.idles ref = true) :
    Matcher.MayIdle p (.rule ref) := by
  simpa [leastFacts] using h

/-- The least facts are closed under the rules. -/
theorem leastFacts_closed (p : Program) : p.leastFacts.Closed p where
  idles ref rule found idle := by
    have mayIdle : Matcher.MayIdle p (.rule ref) :=
      .rule found (Matcher.mayIdle_of_idles mayIdle_of_leastFacts idle)
    simpa [leastFacts] using mayIdle
  breaks _ _ _ _ := rfl

/-- With the least facts, a first call of the body is a rule that can start there. -/
theorem canStart_of_mem_firstCalls {ref callee : RuleRef} {rule : Rule}
    (found : p.rule? ref = some rule) (called : callee ∈ rule.body.firstCalls p.leastFacts) :
    p.CanStart ref callee :=
  ⟨rule, found, Matcher.canReach_of_mem_firstCalls mayIdle_of_leastFacts called⟩

/-- Where ranks fall along first calls, no rule is left-recursive. -/
theorem not_leftRecursive_of_fits (fits : k.Fits p) (ref : RuleRef) : ¬ p.LeftRecursive ref := by
  have falls {ref callee : RuleRef} (path : Relation.TransGen p.CanStart ref callee) :
      k.rank callee < k.rank ref := by
    induction path with
    | single step =>
      obtain ⟨rule, found, reaches⟩ := step
      exact fits.rank_lt found (reaches.mem_firstCalls fits)
    | tail _ step ih =>
      obtain ⟨rule, found, reaches⟩ := step
      exact Nat.lt_trans (fits.rank_lt found (reaches.mem_firstCalls fits)) ih
  exact fun cycle => Nat.lt_irrefl _ (falls cycle)

end Program

end CombinatorGrammar
