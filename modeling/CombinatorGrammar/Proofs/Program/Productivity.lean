import CombinatorGrammar.Proofs.Program.Defects
import CombinatorGrammar.Proofs.Program.Rounds

/-!
# Rules without a base case

A combinator is productive if it has a base case: some way of matching that needs no recursion for
ever. Resolving does not look for base cases. It reports the rules that have no signature when
inference ends, and a signature is known of more and of fewer combinators than have a base case: an
optional has that of its operand, so it is unknown as long as the operand is, while a node
construction has one whatever its operand does. So what is reported are the rules that are not
definite; these are the rules without a base case if optionals have definite operands and if lists
of one or more elements, node constructions and enum alternatives have a base case.
-/

namespace CombinatorGrammar

namespace Combinator

/-- The combinators that a combinator is built from directly. -/
def operands : Combinator → List Combinator
  | seq items => items
  | choice alternatives => alternatives
  | opt c => [c]
  | group c => [c]
  | list _ element => [element]
  | sepList _ element separator => [element, separator]
  | predicate _ c => [c]
  | protect c guard => [c, guard]
  | node _ c => [c]
  | enum _ _ c => [c]
  | _ => []

/-- Induction on a combinator, with all operands alike. -/
theorem operand_induction {motive : Combinator → Prop}
    (step : ∀ c, (∀ d ∈ c.operands, motive d) → motive c) (c : Combinator) : motive c :=
  c.rec (motive_2 := fun cs => ∀ c ∈ cs, motive c)
    (fun _ _ _ => step _ (List.forall_mem_nil _))
    (fun _ => step _ (List.forall_mem_nil _))
    (fun _ ih => step _ ih)
    (fun _ ih => step _ ih)
    (fun _ ih => step _ (List.forall_mem_singleton.mpr ih))
    (fun _ ih => step _ (List.forall_mem_singleton.mpr ih))
    (fun _ _ ih => step _ (List.forall_mem_singleton.mpr ih))
    (fun _ _ _ first second =>
      step _ (List.forall_mem_cons.mpr ⟨first, List.forall_mem_singleton.mpr second⟩))
    (step _ (List.forall_mem_nil _))
    (fun _ _ ih => step _ (List.forall_mem_singleton.mpr ih))
    (fun _ => step _ (List.forall_mem_nil _))
    (fun _ _ first second =>
      step _ (List.forall_mem_cons.mpr ⟨first, List.forall_mem_singleton.mpr second⟩))
    (fun _ => step _ (List.forall_mem_nil _))
    (fun _ _ ih => step _ (List.forall_mem_singleton.mpr ih))
    (fun _ _ _ ih => step _ (List.forall_mem_singleton.mpr ih))
    (List.forall_mem_nil _)
    (fun _ _ head tail => List.forall_mem_cons.mpr ⟨head, tail⟩)

/-- Founded on combinators that need nothing else: a rule on its body, a sequence on all its items,
a choice on some alternative, any other combinator on its operand. -/
inductive Founded (base : Combinator → Bool) (rules : List (String × Combinator)) :
    Combinator → Prop
  | base {c : Combinator} : base c = true → Founded base rules c
  | rule {name : String} {body : Combinator} :
      (name, body) ∈ rules → Founded base rules body → Founded base rules (.rule name)
  | seq {items : List Combinator} :
      (∀ c ∈ items, Founded base rules c) → Founded base rules (.seq items)
  | choice {alternatives : List Combinator} {c : Combinator} :
      c ∈ alternatives → Founded base rules c → Founded base rules (.choice alternatives)
  | opt {c : Combinator} : Founded base rules c → Founded base rules (.opt c)
  | list {repetition : Repetition} {element : Combinator} :
      Founded base rules element → Founded base rules (.list repetition element)
  | sepList {repetition : Repetition} {element separator : Combinator} :
      Founded base rules element → Founded base rules (.sepList repetition element separator)
  | predicate {name : String} {c : Combinator} :
      Founded base rules c → Founded base rules (.predicate name c)
  | protect {c guard : Combinator} : Founded base rules c → Founded base rules (.protect c guard)
  | node {type : String} {c : Combinator} :
      Founded base rules c → Founded base rules (.node type c)
  | enum {type alternative : String} {c : Combinator} :
      Founded base rules c → Founded base rules (.enum type alternative c)

/-- The combinators that can match without their operands, if they have any. -/
def standsAlone : Combinator → Bool
  | token _ _ _ | cut | skip _ | null _ | opt _ | group _ => true
  | list .zeroOrMore _ | sepList .zeroOrMore _ _ => true
  | _ => false

/-- The combinators of which the number of values does not depend on their operands. -/
def hasFixedArity : Combinator → Bool
  | token _ _ _ | cut | skip _ | null _ | group _ => true
  | list _ _ | sepList _ _ _ | node _ _ | enum _ _ _ => true
  | _ => false

end Combinator

namespace Grammar

/-- The combinator has a base case. -/
def Productive (g : Grammar) : Combinator → Prop :=
  Combinator.Founded Combinator.standsAlone g.rules

/-- The number of values of the combinator can be found. -/
def Definite (g : Grammar) : Combinator → Prop :=
  Combinator.Founded Combinator.hasFixedArity g.rules

/-- The combinator occurs in the rules. -/
inductive Has (g : Grammar) : Combinator → Prop
  | body {rule : String × Combinator} : rule ∈ g.rules → g.Has rule.2
  | operand {c d : Combinator} : g.Has c → d ∈ c.operands → g.Has d

end Grammar

namespace Combinator

/-- What is founded on one kind of combinators is founded on another one, if these are. -/
theorem Founded.transfer {g : Grammar} {base base' : Combinator → Bool}
    (each : ∀ c, g.Has c → base c = true → Founded base' g.rules c) {c : Combinator}
    (founded : Founded base g.rules c) (occurs : g.Has c) : Founded base' g.rules c := by
  induction founded with
  | base here => exact each _ occurs here
  | rule among _ ih => exact .rule among (ih (.body among))
  | seq _ ih => exact .seq fun c among => ih c among (.operand occurs among)
  | choice among _ ih => exact .choice among (ih (.operand occurs among))
  | opt _ ih => exact .opt (ih (.operand occurs (List.mem_singleton_self _)))
  | list _ ih => exact .list (ih (.operand occurs (List.mem_singleton_self _)))
  | sepList _ ih => exact .sepList (ih (.operand occurs (List.mem_cons_self ..)))
  | predicate _ ih => exact .predicate (ih (.operand occurs (List.mem_singleton_self _)))
  | protect _ ih => exact .protect (ih (.operand occurs (List.mem_cons_self ..)))
  | node _ ih => exact .node (ih (.operand occurs (List.mem_singleton_self _)))
  | enum _ ih => exact .enum (ih (.operand occurs (List.mem_singleton_self _)))

section Linked

variable {d : Directory} {rule : String}

/-- The combinators of a list are linked one for one. -/
theorem linkAll_forall₂ {cs : List Combinator} {ms : List Matcher}
    (h : linkAll d rule cs = .ok ms) :
    List.Forall₂ (fun c m => c.link d rule = .ok m) cs ms := by
  induction cs generalizing ms with
  | nil =>
    obtain rfl := Except.ok.inj h
    exact .nil
  | cons c cs ih =>
    obtain ⟨⟨m, ms⟩, both, rfl⟩ := Linked.map_eq_ok h
    obtain ⟨first, others⟩ := Linked.both_eq_ok both
    exact .cons first (ih others)

/-- Each of several combinators is linked to one of the matchers. -/
theorem exists_linked_of_mem {cs : List Combinator} {ms : List Matcher}
    (h : linkAll d rule cs = .ok ms) {c : Combinator} (among : c ∈ cs) :
    ∃ m ∈ ms, c.link d rule = .ok m := by
  obtain ⟨i, inside, rfl⟩ := List.getElem_of_mem among
  obtain ⟨lengths, each⟩ := List.forall₂_iff_get.mp (linkAll_forall₂ h)
  exact ⟨_, List.getElem_mem (lengths ▸ inside), each i inside (lengths ▸ inside)⟩

/-- Each of the matchers is what one of the combinators is linked to. -/
theorem exists_link_of_mem {cs : List Combinator} {ms : List Matcher}
    (h : linkAll d rule cs = .ok ms) {m : Matcher} (among : m ∈ ms) :
    ∃ c ∈ cs, c.link d rule = .ok m := by
  obtain ⟨i, inside, rfl⟩ := List.getElem_of_mem among
  obtain ⟨lengths, each⟩ := List.forall₂_iff_get.mp (linkAll_forall₂ h)
  exact ⟨_, List.getElem_mem (lengths ▸ inside), each i (lengths ▸ inside) inside⟩

variable {g : Grammar} {schema : Schema} {known : RuleRef → Option Signature}

/-- A combinator whose matcher has a signature is definite, if the rules that have one are. -/
theorem definite_of_known
    (rules : ∀ name ref, d.ruleRef? name = some ref → (known ref).isSome = true →
      g.Definite (.rule name)) (c : Combinator) {m : Matcher} (linked : c.link d rule = .ok m)
    (isKnown : (m.signature? schema known).isSome = true) : g.Definite c := by
  induction c using operand_induction generalizing m with
  | step c ih =>
    cases c with
    | token | group | list | sepList | cut | skip | null | node | enum => exact .base rfl
    | rule name =>
      obtain ⟨ref, found, rfl⟩ := Linked.map_eq_ok linked
      exact rules name ref (Linked.ofOption_eq_ok found) isKnown
    | seq items =>
      obtain ⟨ms, all, rfl⟩ := Linked.map_eq_ok linked
      rw [Matcher.signature?, Matcher.signatures_eq_map, Signature.isSome_concat_iff,
        List.forall_mem_map] at isKnown
      refine .seq fun c among => ?_
      obtain ⟨m, member, linked⟩ := exists_linked_of_mem all among
      exact ih c among linked (isKnown m member)
    | choice alternatives =>
      obtain ⟨ms, all, rfl⟩ := Linked.map_eq_ok linked
      rw [Matcher.signature?, Matcher.signatures_eq_map, Signature.isSome_alternatives_iff]
        at isKnown
      obtain ⟨_, some, isKnown⟩ := isKnown
      obtain ⟨m, member, rfl⟩ := List.mem_map.mp some
      obtain ⟨c, among, linked⟩ := exists_link_of_mem all member
      exact .choice among (ih c among linked isKnown)
    | opt c =>
      obtain ⟨n, below, rfl⟩ := Linked.map_eq_ok linked
      exact .opt (ih c (List.mem_singleton_self c) below isKnown)
    | predicate name c =>
      obtain ⟨⟨n, ref⟩, both, rfl⟩ := Linked.map_eq_ok linked
      exact .predicate
        (ih c (List.mem_singleton_self c) (Linked.both_eq_ok both).1 isKnown)
    | protect c guard =>
      obtain ⟨⟨n, k⟩, both, rfl⟩ := Linked.map_eq_ok linked
      exact .protect (ih c (List.mem_cons_self ..) (Linked.both_eq_ok both).1 isKnown)

/-- The matcher of a definite combinator has a signature, if a rule has one as soon as its body
has. -/
theorem known_of_definite
    (rules : ∀ name body, (name, body) ∈ g.rules → ∃ m, body.link d name = .ok m ∧
      ∀ ref, d.ruleRef? name = some ref → (m.signature? schema known).isSome = true →
        (known ref).isSome = true)
    {c : Combinator} (definite : g.Definite c) {m : Matcher} (linked : c.link d rule = .ok m) :
    (m.signature? schema known).isSome = true := by
  induction definite generalizing rule m with
  | @base c here =>
    cases c with
    | rule | seq | choice | opt | predicate | protect => cases here
    | cut =>
      obtain rfl := Except.ok.inj linked
      rfl
    | token | group | list | sepList | skip | null | node | enum =>
      obtain ⟨_, _, rfl⟩ := Linked.map_eq_ok linked
      rfl
  | @rule name body among _ ih =>
    obtain ⟨ref, found, rfl⟩ := Linked.map_eq_ok linked
    obtain ⟨n, below, closed⟩ := rules name body among
    exact closed ref (Linked.ofOption_eq_ok found) (ih below)
  | seq _ ih =>
    obtain ⟨ms, all, rfl⟩ := Linked.map_eq_ok linked
    rw [Matcher.signature?, Matcher.signatures_eq_map, Signature.isSome_concat_iff,
      List.forall_mem_map]
    intro m member
    obtain ⟨c, among, linked⟩ := exists_link_of_mem all member
    exact ih c among linked
  | choice among _ ih =>
    obtain ⟨ms, all, rfl⟩ := Linked.map_eq_ok linked
    rw [Matcher.signature?, Matcher.signatures_eq_map, Signature.isSome_alternatives_iff]
    obtain ⟨m, member, linked⟩ := exists_linked_of_mem all among
    exact ⟨_, List.mem_map_of_mem member, ih linked⟩
  | opt _ ih =>
    obtain ⟨n, below, rfl⟩ := Linked.map_eq_ok linked
    rw [Matcher.signature?]
    exact ih below
  | predicate _ ih | protect _ ih =>
    obtain ⟨⟨n, _⟩, both, rfl⟩ := Linked.map_eq_ok linked
    simp only [Matcher.signature?]
    exact ih (Linked.both_eq_ok both).1
  | list | sepList | node | enum =>
    obtain ⟨_, _, rfl⟩ := Linked.map_eq_ok linked
    rfl

end Linked

end Combinator

/-- Validation of a body does not ask whether the rule has a base case. -/
theorem Validation.unproductiveRule_not_mem (v : Validation) (name : String) (m : Matcher) :
    .unproductiveRule name ∉ v.defects m := by
  have arities (place : ArityPlace) (required : Nat) (m : Matcher) :
      .unproductiveRule name ∉ v.arityDefects place required m := by
    rw [arityDefects]
    split
    · split <;> simp
    · simp
  have all {ms : List Matcher} (each : ∀ m ∈ ms, .unproductiveRule name ∉ v.defects m) :
      .unproductiveRule name ∉ v.defectsOfAll ms := by
    rw [defectsOfAll_eq_flatMap, List.mem_flatMap]
    rintro ⟨m, among, found⟩
    exact each m among found
  induction m with
  | token | rule | cut | null => exact List.not_mem_nil
  | seq ms ih => exact all ih
  | choice ms ih =>
    rw [defects, List.mem_append, choiceDefects]
    refine not_or.mpr ⟨all ih, ?_⟩
    split
    · exact List.not_mem_nil
    · split <;> simp
  | opt m ih | group m ih => exact ih
  | list _ m ih | predicate _ m ih | enum _ _ m ih =>
    rw [defects, List.mem_append]
    exact not_or.mpr ⟨ih, arities _ _ _⟩
  | sepList _ m separator ihm ihs =>
    rw [defects, List.mem_append, List.mem_append]
    exact not_or.mpr ⟨not_or.mpr ⟨ihm, ihs⟩, arities _ _ _⟩
  | skip type =>
    rw [defects]
    split <;> simp
  | protect m guard ihm ihg =>
    rw [defects, List.mem_append]
    exact not_or.mpr ⟨ihm, ihg⟩
  | node type layout m ih =>
    rw [defects, List.mem_append, nodeDefects]
    refine not_or.mpr ⟨ih, ?_⟩
    split
    · simp
    · split
      · exact List.not_mem_nil
      · split <;> simp

namespace Grammar

variable {g : Grammar} {names : Interner}

/-- A rule whose body has a signature when inference ends is definite. -/
theorem definite_of_known_rule (known : g.Known names) {n : Nat} {name : String} {ref : RuleRef}
    (found : (g.directoryOver names).ruleRef? name = some ref)
    (isKnown :
      RuleSignatures.KnownAfter g.schema (g.rules.map (g.directoryOver names).body) n ref) :
    g.Definite (.rule name) := by
  induction n generalizing name ref with
  | zero => exact absurd isKnown (RuleSignatures.not_knownAfter_zero ref)
  | succ n ih =>
    obtain ⟨body, listed⟩ := getElem?_of_ruleRef? found
    obtain ⟨m, member, isKnown⟩ := RuleSignatures.knownAfter_succ.mp isKnown
    rw [List.getElem?_map, listed] at member
    obtain rfl := Option.some.inj member
    have among : (name, body) ∈ g.rules := List.mem_of_getElem? listed
    exact .rule among (Combinator.definite_of_known (fun _ _ => ih) body (known.link among) isKnown)

/-- A body has a signature when inference ends if and only if it is definite. -/
theorem isSome_signature?_iff_definite (distinct : g.Distinct) (known : g.Known names)
    {rule : String × Combinator} (among : rule ∈ g.rules) :
    (((g.directoryOver names).body rule).signature? g.schema
      (g.signaturesOver names).get?).isSome = true ↔ g.Definite rule.2 := by
  constructor
  · rw [signaturesOver, RuleSignatures.infer_fst]
    exact Combinator.definite_of_known (fun _ _ => definite_of_known_rule known) rule.2
      (known.link among)
  · refine fun definite => Combinator.known_of_definite (fun name body member => ?_) definite
      (known.link among)
    refine ⟨_, known.link member, fun ref found isKnown => ?_⟩
    refine (RuleSignatures.isSome_get?_infer ?_).mpr isKnown
    rw [List.getElem?_map, getElem?_of_mem distinct member found]
    rfl

/-- Of the rules of a grammar whose names are all known, those are reported as unproductive that are
not definite. -/
theorem reports_unproductive_iff (distinct : g.Distinct) (known : g.Known names)
    {rule : String × Combinator} (among : rule ∈ g.rules) :
    g.Reports names (.unproductiveRule rule.1) ↔ ¬ g.Definite rule.2 := by
  rw [reports_iff_of_known known, ← isSome_signature?_iff_definite distinct known among,
    Bool.not_eq_true, Option.isSome_eq_false_iff]
  simp only [ownDefects, ruleDefects, List.mem_append, Validation.unproductiveRule_not_mem,
    or_false]
  constructor
  · rintro ⟨other, member, reported⟩
    split at reported
    · next unknown =>
      have same : other.1 = rule.1 :=
        (Defect.unproductiveRule.inj (List.mem_singleton.mp reported)).symm
      obtain rfl := List.inj_on_of_nodup_map distinct member among same
      exact unknown
    · cases reported
  · intro unknown
    exact ⟨rule, among, by rw [if_pos unknown]; exact List.mem_singleton_self _⟩

/-- Of the rules of a grammar whose names are all known, exactly those are reported as unproductive
that are not definite. Where the operands of optionals are definite, no rule with a base case is
reported; where the combinators of a fixed number of values have a base case, every rule without
one is. -/
theorem unproductive_rules_reported (distinct : g.Distinct)
    (linked : (g.link (names.internAll g.texts)).isOk = true)
    {rule : String × Combinator} (among : rule ∈ g.rules) :
    (g.Reports names (.unproductiveRule rule.1) ↔ ¬ g.Definite rule.2) ∧
    ((∀ c, g.Has (.opt c) → g.Definite c) →
      g.Reports names (.unproductiveRule rule.1) → ¬ g.Productive rule.2) ∧
    ((∀ c, g.Has c → c.hasFixedArity = true → g.Productive c) →
      ¬ g.Productive rule.2 → g.Reports names (.unproductiveRule rule.1)) := by
  have reported := reports_unproductive_iff distinct (known_iff.mpr linked) among
  refine ⟨reported, fun optionals isReported productive => ?_, fun fixed unproductive => ?_⟩
  · refine reported.mp isReported (productive.transfer (fun c occurs alone => ?_) (.body among))
    cases c with
    | opt c => exact .opt (optionals c occurs)
    | rule | seq | choice | predicate | protect => cases alone
    | token | group | list | sepList | cut | skip | null | node | enum => exact .base rfl
  · exact reported.mpr fun definite => unproductive (definite.transfer fixed (.body among))

/-- A rule that has a base case and one that only goes on. -/
def baseAndLoop : Grammar :=
  ⟨letters, .empty,
    [("main", .choice [.lit "a", .seq [.lit "b", .rule "main"]]),
      ("loop", .seq [.lit "a", .rule "loop"])], [], "main"⟩

theorem mem_of_has_baseAndLoop {c : Combinator} (h : baseAndLoop.Has c) :
    c ∈ [.choice [.lit "a", .seq [.lit "b", .rule "main"]], .seq [.lit "b", .rule "main"],
      .seq [.lit "a", .rule "loop"], .lit "a", .lit "b", .rule "main", .rule "loop"] := by
  induction h with
  | body among =>
    simp only [baseAndLoop, List.mem_cons, List.not_mem_nil, or_false] at among
    rcases among with rfl | rfl <;> simp
  | operand _ below ih =>
    simp only [List.mem_cons, List.not_mem_nil, or_false] at ih
    rcases ih with rfl | rfl | rfl | rfl | rfl | rfl | rfl <;>
      simp only [Combinator.operands, Combinator.lit, List.mem_cons, List.not_mem_nil, or_false]
        at below ⊢
    all_goals rcases below with rfl | rfl <;> simp

/-- The rule that only goes on is reported, and has no base case; the other one is not reported. -/
theorem unproductive_rules_reported_baseAndLoop :
    baseAndLoop.Reports .initial (.unproductiveRule "loop") ∧
      ¬ baseAndLoop.Productive (.seq [.lit "a", .rule "loop"]) ∧
      ¬ baseAndLoop.Reports .initial (.unproductiveRule "main") := by
  have distinct : baseAndLoop.Distinct := by decide
  have linked : (baseAndLoop.link (Interner.initial.internAll baseAndLoop.texts)).isOk = true := by
    decide +kernel
  have first : ("main", _) ∈ baseAndLoop.rules := List.mem_cons_self ..
  have second : ("loop", _) ∈ baseAndLoop.rules :=
    List.mem_cons_of_mem _ (List.mem_cons_self ..)
  obtain ⟨mainReported, _, _⟩ := unproductive_rules_reported distinct linked first
  obtain ⟨_, noBase, _⟩ := unproductive_rules_reported distinct linked second
  have reported : baseAndLoop.Reports .initial (.unproductiveRule "loop") := by decide +kernel
  refine ⟨reported, noBase (fun c occurs => ?_) reported, fun isReported => ?_⟩
  · have among := mem_of_has_baseAndLoop occurs
    simp [Combinator.lit] at among
  · exact mainReported.mp isReported (.choice (List.mem_cons_self ..) (.base rfl))

/-- The grammar of one rule. -/
def ruleOf (schema : Schema) (body : Combinator) : Grammar :=
  ⟨letters, schema, [("main", body)], [], "main"⟩

/-- A rule that may come back to itself behind a letter: it is reported, although the optional is a
base case. -/
theorem productive_reported :
    (ruleOf .empty (.seq [.lit "a", .opt (.rule "main")])).Productive
        (.seq [.lit "a", .opt (.rule "main")]) ∧
      (ruleOf .empty (.seq [.lit "a", .opt (.rule "main")])).Reports .initial
        (.unproductiveRule "main") := by
  refine ⟨.seq ?_, by decide +kernel⟩
  exact List.forall_mem_cons.mpr ⟨.base rfl, List.forall_mem_singleton.mpr (.base rfl)⟩

/-- A rule that only goes on inside a node: it resolves, although it has no base case. -/
theorem unproductive_resolved :
    ∃ schema, Schema.ofDeclarations
        [.node "T" none false false, .field "T" "next" (.node "T")] = .ok schema ∧
      ¬ (ruleOf schema (.node "T" (.rule "main"))).Productive (.node "T" (.rule "main")) ∧
      ∃ result, (ruleOf schema (.node "T" (.rule "main"))).resolve .initial = .ok result := by
  have passes : Grammar.passes letters
      [.node "T" none false false, .field "T" "next" (.node "T")]
      [("main", .node "T" (.rule "main"))] (fun _ => true) = true := by
    decide +kernel
  unfold Grammar.passes at passes
  split at passes
  · cases passes
  · next schema declared =>
    split at passes
    · cases passes
    · next p names resolved =>
      refine ⟨schema, declared, fun productive => ?_, _, resolved⟩
      -- neither the reference nor the node that it stands in can be the first to be founded
      have never (c : Combinator) (h : (ruleOf schema (.node "T" (.rule "main"))).Productive c) :
          c ≠ .rule "main" ∧ c ≠ .node "T" (.rule "main") := by
        induction h with
        | base alone => constructor <;> rintro rfl <;> cases alone
        | rule among _ ih =>
          obtain ⟨rfl, rfl⟩ := Prod.mk.inj (List.mem_singleton.mp among)
          exact absurd rfl ih.2
        | node _ ih =>
          refine ⟨Combinator.noConfusion, ?_⟩
          rintro ⟨⟩
          exact ih.1 rfl
        | _ => simp
      exact (never _ productive).2 rfl

end Grammar

end CombinatorGrammar
