import CombinatorGrammar.Proofs.Program.Inference
import Mathlib.Data.Finset.Card
import Mathlib.Logic.Function.Iterate
import Mathlib.Order.Monotone.Basic

/-!
# Rounds of inference

What inference reads in its last round is what so many rounds from nothing have found. The rounds
need not settle: the signatures of recursive rules may change for ever. But which rules have one
does settle. A rule that is known stays known, and whether a matcher is known depends only on which
rules are, so after as many rounds as there are rules no further rule becomes known.
-/

namespace CombinatorGrammar

namespace Signature

/-- Signatures one after the other are known if all of them are. -/
theorem isSome_concat_iff {items : List (Option Signature)} :
    (concat items).isSome = true ↔ ∀ s ∈ items, s.isSome = true := by
  refine ⟨fun h => ?_, isSome_concat⟩
  induction items with
  | nil => exact List.forall_mem_nil _
  | cons item items ih =>
    cases item with
    | none => simp at h
    | some s =>
      rw [concat_some, Option.isSome_map] at h
      exact List.forall_mem_cons.mpr ⟨rfl, ih h⟩

/-- A choice is known if one of its alternatives is. -/
theorem isSome_alternatives_iff {schema : Schema} {known : List (Option Signature)} :
    (alternatives schema known).isSome = true ↔ ∃ s ∈ known, s.isSome = true := by
  constructor
  · intro h
    rw [alternatives] at h
    cases found : known.filterMap id with
    | nil =>
      rw [found] at h
      cases h
    | cons first others =>
      have among : first ∈ known.filterMap id := found ▸ List.mem_cons_self ..
      obtain ⟨s, member, same⟩ := List.mem_filterMap.mp among
      exact ⟨s, member, Option.isSome_iff_exists.mpr ⟨first, same⟩⟩
  · rintro ⟨s, member, some⟩
    obtain ⟨s, rfl⟩ := Option.isSome_iff_exists.mp some
    exact isSome_alternatives schema member

end Signature

namespace Matcher

variable {schema : Schema} {rules rules' : RuleRef → Option Signature}

/-- A matcher that is known remains so when more rules are. -/
theorem isSome_signature?_mono
    (more : ∀ ref, (rules ref).isSome = true → (rules' ref).isSome = true) {m : Matcher}
    (known : (m.signature? schema rules).isSome = true) :
    (m.signature? schema rules').isSome = true := by
  induction m with
  | rule ref => exact more ref known
  | seq ms ih =>
    rw [signature?, signatures_eq_map, Signature.isSome_concat_iff, List.forall_mem_map] at known ⊢
    exact fun m among => ih m among (known m among)
  | choice ms ih =>
    rw [signature?, signatures_eq_map, Signature.isSome_alternatives_iff] at known ⊢
    obtain ⟨_, among, some⟩ := known
    obtain ⟨m, member, rfl⟩ := List.mem_map.mp among
    exact ⟨_, List.mem_map_of_mem member, ih m member some⟩
  | opt m ih | predicate _ m ih => exact ih known
  | protect m _ ih _ => exact ih known
  | token | group | list | sepList | cut | skip | null | node | enum => rfl

/-- Whether a signature is known depends only on which rules are known. -/
theorem isSome_signature?_congr
    (same : ∀ ref, (rules ref).isSome = true ↔ (rules' ref).isSome = true) (m : Matcher) :
    (m.signature? schema rules).isSome = true ↔ (m.signature? schema rules').isSome = true :=
  ⟨isSome_signature?_mono fun ref => (same ref).mp,
    isSome_signature?_mono fun ref => (same ref).mpr⟩

end Matcher

namespace RuleSignatures

variable (schema : Schema) (bodies : List Matcher)

/-- What so many rounds from nothing find. -/
def after (n : Nat) : RuleSignatures :=
  (next schema bodies)^[n] (Array.replicate bodies.length none)

variable {schema bodies}

/-- One more round computes the signatures from those of the round before. -/
theorem after_succ (n : Nat) :
    after schema bodies (n + 1) = next schema bodies (after schema bodies n) :=
  Function.iterate_succ_apply' ..

/-- What is settled after some rounds stays. -/
theorem after_stays {m n : Nat} (settled : after schema bodies (m + 1) = after schema bodies m)
    (later : m ≤ n) : after schema bodies n = after schema bodies m := by
  induction later with
  | refl => rfl
  | step _ ih => rw [after_succ, ih, ← after_succ, settled]

/-- The last of some further rounds reads what all rounds before it have found. Where they end early
nothing changes any more. -/
theorem rounds_fst (schema : Schema) (bodies : List Matcher) (n k : Nat) (read : RuleSignatures) :
    (rounds schema bodies (n + 1) read (after schema bodies k)).1 =
      after schema bodies (k + n) := by
  induction n generalizing k read with
  | zero =>
    rw [rounds]
    split <;> rfl
  | succ n ih =>
    rw [rounds, ← after_succ]
    split
    · next stable => exact (after_stays stable (Nat.le_add_right ..)).symm
    · rw [ih (k + 1), Nat.add_right_comm, Nat.add_assoc]

/-- What inference reads in its last round is what one round less than the most would find. -/
theorem infer_fst (schema : Schema) (bodies : List Matcher) :
    (infer schema bodies).1 = after schema bodies (maxRounds schema bodies - 1) :=
  have last := rounds_fst schema bodies (maxRounds schema bodies - 1) 0 (after schema bodies 0)
  last.trans (congrArg (after schema bodies) (Nat.zero_add _))

/-- The next signature of a rule is computed from its body. -/
theorem get?_next (known : RuleSignatures) (ref : RuleRef) :
    (next schema bodies known).get? ref =
      bodies[ref.index]?.bind fun body => body.signature? schema known.get? := by
  rw [get?, next, List.getElem?_toArray, List.getElem?_map]
  cases bodies[ref.index]? <;> rfl

/-- Arrays of one size are the same if all rules have the same signatures in both. -/
theorem ext_get? {a b : RuleSignatures} (size : a.size = b.size)
    (same : ∀ ref : RuleRef, ref.index < a.size → a.get? ref = b.get? ref) : a = b := by
  refine Array.ext size fun i inside inside' => ?_
  have here := same ⟨i⟩ inside
  rwa [get?, get?, Array.getElem?_eq_getElem inside, Array.getElem?_eq_getElem inside'] at here

/-- There is a next signature for each body. -/
theorem size_next (schema : Schema) (bodies : List Matcher) (known : RuleSignatures) :
    (next schema bodies known).size = bodies.length := by
  rw [next, List.size_toArray, List.length_map]

variable (schema bodies)

/-- After so many rounds the rule has a signature. -/
def KnownAfter (n : Nat) (ref : RuleRef) : Prop :=
  ((after schema bodies n).get? ref).isSome = true

variable {schema bodies}

/-- Before the first round nothing is known. -/
theorem not_knownAfter_zero (ref : RuleRef) : ¬ KnownAfter schema bodies 0 ref := by
  rw [KnownAfter, after, Function.iterate_zero_apply, get?, Array.getElem?_replicate]
  split <;> exact Bool.false_ne_true

/-- A rule is known after one more round if its body is known by then. -/
theorem knownAfter_succ {n : Nat} {ref : RuleRef} :
    KnownAfter schema bodies (n + 1) ref ↔
      ∃ body, bodies[ref.index]? = some body ∧
        (body.signature? schema (after schema bodies n).get?).isSome = true := by
  rw [KnownAfter, after_succ, get?_next, Option.isSome_bind, Option.any_eq_true]

/-- A rule that is known stays known. -/
theorem KnownAfter.succ {n : Nat} {ref : RuleRef} (h : KnownAfter schema bodies n ref) :
    KnownAfter schema bodies (n + 1) ref := by
  induction n generalizing ref with
  | zero => exact absurd h (not_knownAfter_zero ref)
  | succ n ih =>
    obtain ⟨body, found, known⟩ := knownAfter_succ.mp h
    exact knownAfter_succ.mpr ⟨body, found, Matcher.isSome_signature?_mono (fun _ => ih) known⟩

/-- Where no rule has become known, none will. -/
theorem knownAfter_stays {n : Nat}
    (still : ∀ ref, KnownAfter schema bodies n ref ↔ KnownAfter schema bodies (n + 1) ref)
    (ref : RuleRef) :
    KnownAfter schema bodies (n + 1) ref ↔ KnownAfter schema bodies (n + 2) ref := by
  rw [knownAfter_succ, knownAfter_succ]
  exact exists_congr fun body => and_congr_right fun _ => Matcher.isSome_signature?_congr still body

instance (n : Nat) (ref : RuleRef) : Decidable (KnownAfter schema bodies n ref) :=
  inferInstanceAs (Decidable (_ = true))

/-- The numbers of the rules that are known after so many rounds. -/
def knownNumbers (schema : Schema) (bodies : List Matcher) (n : Nat) : Finset Nat :=
  (Finset.range bodies.length).filter fun i => KnownAfter schema bodies n ⟨i⟩

/-- The numbers of known rules are those of rules that are known. -/
theorem mem_knownNumbers {n : Nat} (ref : RuleRef) :
    ref.index ∈ knownNumbers schema bodies n ↔ KnownAfter schema bodies n ref := by
  rw [knownNumbers, Finset.mem_filter, Finset.mem_range, and_iff_right_iff_imp]
  intro known
  obtain ⟨body, found, _⟩ := knownAfter_succ.mp known.succ
  exact (List.getElem?_eq_some_iff.mp found).1

/-- What is known after some rounds is known after one more. -/
theorem knownNumbers_subset_succ (n : Nat) :
    knownNumbers schema bodies n ⊆ knownNumbers schema bodies (n + 1) :=
  fun i among => (mem_knownNumbers ⟨i⟩).mpr ((mem_knownNumbers ⟨i⟩).mp among).succ

/-- Where equally many rules are known after one more round, they are the same. -/
theorem knownAfter_of_card_eq {n : Nat}
    (same : (knownNumbers schema bodies n).card = (knownNumbers schema bodies (n + 1)).card)
    (ref : RuleRef) : KnownAfter schema bodies n ref ↔ KnownAfter schema bodies (n + 1) ref := by
  rw [← mem_knownNumbers, ← mem_knownNumbers,
    Finset.eq_of_subset_of_card_le (knownNumbers_subset_succ n) same.ge]

/-- After as many rounds as there are rules no further rule becomes known. -/
theorem knownAfter_settles {n : Nat} (rounds : bodies.length ≤ n) (ref : RuleRef) :
    KnownAfter schema bodies n ref ↔ KnownAfter schema bodies (n + 1) ref := by
  have most (n : Nat) : (knownNumbers schema bodies n).card ≤ bodies.length :=
    (Finset.card_filter_le ..).trans_eq (Finset.card_range _)
  have settled (n : Nat) (rounds : bodies.length ≤ n) :=
    Nat.stabilises_of_monotone (f := fun n => (knownNumbers schema bodies n).card)
      (monotone_nat_of_le_succ fun n => Finset.card_le_card (knownNumbers_subset_succ n)) most
      (fun n same => congrArg Finset.card (Finset.ext fun i => by
        have stays := knownAfter_stays (knownAfter_of_card_eq same) ⟨i⟩
        rwa [← mem_knownNumbers, ← mem_knownNumbers] at stays)) rounds
  exact knownAfter_of_card_eq
    ((settled n rounds).trans (settled (n + 1) (Nat.le_succ_of_le rounds)).symm) ref

/-- When inference ends, whether it has settled or not, the rules that are known are those whose
bodies are. -/
theorem isSome_get?_infer {ref : RuleRef} {body : Matcher}
    (found : bodies[ref.index]? = some body) :
    ((infer schema bodies).1.get? ref).isSome = true ↔
      (body.signature? schema (infer schema bodies).1.get?).isSome = true := by
  have enough : bodies.length ≤ maxRounds schema bodies - 1 := by
    rw [maxRounds]
    omega
  have still : KnownAfter schema bodies (maxRounds schema bodies - 1) ref ↔
      KnownAfter schema bodies (maxRounds schema bodies - 1 + 1) ref :=
    knownAfter_settles enough ref
  rw [infer_fst]
  refine still.trans (knownAfter_succ.trans ⟨?_, fun known => ⟨body, found, known⟩⟩)
  rintro ⟨_, same, known⟩
  obtain rfl := Option.some.inj (found.symm.trans same)
  exact known

end RuleSignatures

end CombinatorGrammar
