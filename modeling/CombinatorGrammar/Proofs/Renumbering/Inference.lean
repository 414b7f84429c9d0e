import CombinatorGrammar.Proofs.Program.Rounds
import CombinatorGrammar.Proofs.Renumbering.Basic

/-!
# Inference among renumbered rules

A round of inference computes the signature of every rule from those that the round before has given
to the rules. It does not matter in which order the rules stand: after every round, and so when
inference ends, be it settled or stopped, a rule has one signature under both numbers. That the
rounds end at the same time needs that every number is a new number of some rule.
-/

namespace CombinatorGrammar

namespace RuleSignatures

/-- The rules have the same signatures under their new numbers. -/
def Renumbered (σ : RuleRef → RuleRef) (known known' : RuleSignatures) : Prop :=
  ∀ ref, known'.get? (σ ref) = known.get? ref

/-- A rule has the same defects when rules have the same signatures under their new numbers. -/
theorem ruleDefects_renumber {schema : Schema} {read read' : RuleSignatures}
    {σ : RuleRef → RuleRef} (same : Renumbered σ read read') (found : Option Signature)
    (name : String) (body : Matcher) :
    ruleDefects schema read' found name (body.renumber σ) =
      ruleDefects schema read found name body := by
  have validations : Validation.Renumbered σ ⟨schema, read, name⟩ ⟨schema, read', name⟩ :=
    ⟨rfl, rfl, same⟩
  rw [ruleDefects, ruleDefects, Validation.defects_renumber validations]

/-- The second bodies are the first ones in another order, with new numbers of rules. -/
structure Reordered (σ : RuleRef → RuleRef) (bodies bodies' : List Matcher) : Prop where
  length_eq : bodies'.length = bodies.length
  body : ∀ ref : RuleRef,
    bodies'[(σ ref).index]? = bodies[ref.index]?.map (Matcher.renumber σ)
  onto : ∀ ref : RuleRef, ref.index < bodies.length → ∃ old, σ old = ref

variable {schema : Schema} {bodies bodies' : List Matcher} {σ : RuleRef → RuleRef}

/-- A round of inference over reordered bodies gives the renumbered signatures. -/
theorem Renumbered.next (schema : Schema) {known known' : RuleSignatures}
    (same : Renumbered σ known known') (h : Reordered σ bodies bodies') :
    Renumbered σ (next schema bodies known) (next schema bodies' known') := by
  intro ref
  rw [get?_next, get?_next, h.body]
  cases bodies[ref.index]? with
  | none => rfl
  | some body =>
    rw [Option.map_some, Option.bind_some, Option.bind_some, Matcher.signature?_renumber]
    exact congrArg (body.signature? schema) (funext same)

/-- The rounds settle at the same time. -/
theorem Renumbered.settled_iff {given given' : RuleSignatures} (same : Renumbered σ given given')
    (h : Reordered σ bodies bodies') (size : given.size = bodies.length)
    (size' : given'.size = bodies.length) :
    RuleSignatures.next schema bodies' given' = given' ↔
      RuleSignatures.next schema bodies given = given := by
  have found := same.next schema h
  constructor
  · intro settled
    refine ext_get? ((size_next ..).trans size.symm) fun ref _ => ?_
    rw [← found ref, settled, same ref]
  · intro settled
    refine ext_get? ((size_next ..).trans (h.length_eq.trans size'.symm)) fun ref inside => ?_
    rw [size_next, h.length_eq] at inside
    obtain ⟨old, rfl⟩ := h.onto ref inside
    rw [found old, settled, same old]

/-- Rounds of inference over reordered bodies give the renumbered signatures. -/
theorem Renumbered.rounds (h : Reordered σ bodies bodies') {n : Nat}
    {read read' given given' : RuleSignatures} (before : Renumbered σ read read')
    (same : Renumbered σ given given') (size : given.size = bodies.length)
    (size' : given'.size = bodies.length) :
    Renumbered σ (rounds schema bodies n read given).1
      (rounds schema bodies' n read' given').1 := by
  induction n generalizing read read' given given' with
  | zero => exact before
  | succ n ih =>
    simp only [RuleSignatures.rounds, same.settled_iff h size size']
    split
    · exact same
    · exact ih same (same.next schema h) (size_next ..) ((size_next ..).trans h.length_eq)

/-- Inference gives the rules the same signatures in every order, whether it has settled or not. -/
theorem renumbered_infer (h : Reordered σ bodies bodies') :
    Renumbered σ (infer schema bodies).1 (infer schema bodies').1 := by
  have unknown (n : Nat) (ref : RuleRef) :
      RuleSignatures.get? (Array.replicate n none) ref = none := by
    rw [get?, Array.getElem?_replicate]
    split <;> rfl
  have start : Renumbered σ (Array.replicate bodies.length none)
      (Array.replicate bodies'.length none) := fun ref => (unknown ..).trans (unknown ..).symm
  have limit : maxRounds schema bodies' = maxRounds schema bodies := by
    rw [maxRounds, maxRounds, h.length_eq]
  simp only [infer, limit]
  exact Renumbered.rounds h start start Array.size_replicate
    (Array.size_replicate.trans h.length_eq)

end RuleSignatures

end CombinatorGrammar
