import CombinatorGrammar.Proofs.Program.Arity

/-!
# When inference knows everything

Two things can leave a part of a checked program without a signature: a choice without
alternatives, and rounds that were stopped before they settled. Where there is neither, every part
has a signature, and that of a rule is the one of its body.
-/

namespace CombinatorGrammar

namespace Signature

/-- Signatures one after the other are known if each of them is. -/
theorem isSome_concat {items : List (Option Signature)} (known : ∀ s ∈ items, s.isSome = true) :
    (concat items).isSome = true := by
  induction items with
  | nil => rfl
  | cons item items ih =>
    obtain ⟨here, rest⟩ := List.forall_mem_cons.mp known
    obtain ⟨s, rfl⟩ := Option.isSome_iff_exists.mp here
    rw [concat_some, Option.isSome_map]
    exact ih rest

/-- A choice is known as soon as one alternative is. -/
theorem isSome_alternatives (schema : Schema) {known : List (Option Signature)} {s : Signature}
    (among : some s ∈ known) : (alternatives schema known).isSome = true := by
  have listed : s ∈ known.filterMap id := List.mem_filterMap.mpr ⟨some s, among, rfl⟩
  rw [alternatives]
  cases found : known.filterMap id with
  | nil =>
    rw [found] at listed
    cases listed
  | cons first others => rfl

end Signature

/-- Whether the matcher, if it is a choice, has an alternative. -/
def Matcher.hasAlternative : Matcher → Bool
  | choice [] => false
  | _ => true

namespace Program

/-- A program whose choices have alternatives, and whose signatures one more round would not
change. -/
structure Inferred (p : Program) : Prop where
  alternatives : .choice [] ∉ p.parts
  settled : RuleSignatures.next p.schema (p.rules.toList.map Rule.body) p.signatures = p.signatures

variable {p : Program} {m : Matcher}

/-- Where choices have alternatives and rules have signatures, every part has one. -/
theorem isSome_signature?_of_rules (choices : .choice [] ∉ p.parts)
    (rules : ∀ ref, .rule ref ∈ p.parts → (p.signature? (.rule ref)).isSome = true)
    (part : m ∈ p.parts) : (p.signature? m).isSome = true := by
  induction m with
  | rule ref => exact rules ref part
  | seq items ih =>
    refine Signature.isSome_concat fun s among => ?_
    rw [Matcher.signatures_eq_map] at among
    obtain ⟨m, member, rfl⟩ := List.mem_map.mp among
    exact ih m member (operand_mem_parts part member)
  | choice alternatives ih =>
    cases alternatives with
    | nil => exact absurd part choices
    | cons m ms =>
      have first := ih m (List.mem_cons_self ..) (operand_part part 0 rfl)
      obtain ⟨s, known⟩ := Option.isSome_iff_exists.mp first
      refine Signature.isSome_alternatives p.schema (s := s) ?_
      rw [Matcher.signatures_eq_map]
      exact List.mem_map.mpr ⟨m, List.mem_cons_self .., known⟩
  | opt m ih | predicate _ m ih => exact ih (operand_part part 0 rfl)
  | protect m guard ih => exact ih (operand_part part 0 rfl)
  | token | group | list | sepList | cut | skip | null | node | enum => rfl

namespace Inferred

/-- The signature of a rule is the one of its body. -/
theorem signature?_body (inferred : p.Inferred) {ref : RuleRef} {rule : Rule}
    (found : p.rule? ref = some rule) : p.signature? rule.body = p.signature? (.rule ref) := by
  have body : (p.rules.toList.map Rule.body)[ref.index]? = some rule.body := by
    rw [List.getElem?_map, Array.getElem?_toList, show p.rules[ref.index]? = some rule from found]
    rfl
  rw [signature?, signature?, Matcher.signature?, RuleSignatures.get?]
  conv => rhs; rw [← inferred.settled]
  rw [RuleSignatures.next, List.getElem?_toArray, List.getElem?_map, body]
  rfl

/-- Every part has a signature. -/
theorem isSome_signature? (inferred : p.Inferred) (checked : p.Checked) (part : m ∈ p.parts) :
    (p.signature? m).isSome = true := by
  refine isSome_signature?_of_rules inferred.alternatives (fun ref reference => ?_) part
  have inside : ref.index < p.rules.size := checked.rule_lt reference
  have found : p.rule? ref = some p.rules[ref.index] := Array.getElem?_eq_getElem inside
  rw [← inferred.signature?_body found]
  exact checked.productive _ (Array.mem_of_getElem? found)

end Inferred

end Program

/-- Whether the program has what makes it inferred. -/
def Program.isInferred (p : Program) : Bool :=
  p.parts.all Matcher.hasAlternative &&
    RuleSignatures.next p.schema (p.rules.toList.map Rule.body) p.signatures == p.signatures

/-- A program that passes the check is inferred. -/
theorem Program.inferred_of_isInferred {p : Program} (h : p.isInferred = true) : p.Inferred := by
  obtain ⟨choices, settled⟩ := Bool.and_eq_true_iff.mp h
  exact ⟨fun part => Bool.false_ne_true (List.all_eq_true.mp choices _ part), eq_of_beq settled⟩

end CombinatorGrammar
