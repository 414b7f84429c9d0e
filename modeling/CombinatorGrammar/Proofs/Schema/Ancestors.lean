import CombinatorGrammar.Proofs.Schema.Layouts
import Mathlib.Logic.Function.Iterate
import Mathlib.Order.Defs.Unbundled

/-!
# Ancestors in common

A parent has a smaller number than its children, so the walk from a type to its ancestors ends and
deriving from is a partial order. The ancestors of one type are all comparable: what two types have
in common is above the nearest that they have in common. So the nearest common ancestor is the
least, which does not depend on whose ancestors are looked through.
-/

namespace CombinatorGrammar

namespace Schema

variable {s : Schema} {a b c : NodeRef}

/-- The type that so many steps from a type to its parent lead to, if there are so many. -/
def ancestor? (s : Schema) (a : NodeRef) (steps : Nat) : Option NodeRef :=
  (fun r => r.bind s.parent?)^[steps] (some a)

theorem ancestor?_zero (s : Schema) (a : NodeRef) : s.ancestor? a 0 = some a := rfl

/-- One more step upwards is the step from the parent. -/
theorem ancestor?_succ (s : Schema) (a : NodeRef) (steps : Nat) :
    s.ancestor? a (steps + 1) = (s.parent? a).bind fun parent => s.ancestor? parent steps := by
  rw [ancestor?, Function.iterate_succ_apply, Option.bind_some]
  cases s.parent? a with
  | some parent => rfl
  | none => exact Function.iterate_fixed rfl steps

/-- The lineage of a type is the walk to its ancestors. -/
theorem getElem?_lineage (s : Schema) (a : NodeRef) (steps : Nat) :
    (s.lineage a)[steps]? = s.ancestor? a steps := by
  induction steps generalizing a with
  | zero =>
    cases derived : s.parent? a with
    | none => rw [lineage_of_root derived, ancestor?_zero, List.getElem?_cons_zero]
    | some parent => rw [lineage_of_parent? derived, ancestor?_zero, List.getElem?_cons_zero]
  | succ steps ih =>
    rw [ancestor?_succ]
    cases derived : s.parent? a with
    | none => rw [lineage_of_root derived, List.getElem?_cons_succ, List.getElem?_nil,
        Option.bind_none]
    | some parent => rw [lineage_of_parent? derived, List.getElem?_cons_succ, ih, Option.bind_some]

/-- A lineage has no more types than were declared up to its first. -/
theorem length_lineage_le (s : Schema) (a : NodeRef) : (s.lineage a).length ≤ a.index + 1 := by
  induction a using inheritance_induction (s := s) with
  | step a ih =>
    cases derived : s.parent? a with
    | none =>
      rw [lineage_of_root derived, List.length_singleton]
      omega
    | some parent =>
      have shorter := ih parent derived
      have before := parent?_lt derived
      rw [lineage_of_parent? derived, List.length_cons]
      omega

/-- The walk from a type to its ancestors ends: each type on it was declared before the last. -/
theorem exists_ancestor?_eq_none (s : Schema) (a : NodeRef) :
    ∃ steps ≤ a.index + 1, s.ancestor? a steps = none := by
  refine ⟨(s.lineage a).length, s.length_lineage_le a, ?_⟩
  rw [← getElem?_lineage]
  exact List.getElem?_eq_none (Nat.le_refl _)

/-- Types that derive from each other are the same. -/
theorem isSubtype_antisymm (h : s.isSubtype a b = true) (h' : s.isSubtype b a = true) : a = b := by
  have first := le_of_mem_lineage (isSubtype_iff.mp h)
  have second := le_of_mem_lineage (isSubtype_iff.mp h')
  have same : a.index = b.index := by omega
  cases a
  exact congrArg NodeRef.mk same

/-- The nearest common ancestor of two types is below every other. -/
theorem exists_commonAncestor? (h : s.isSubtype a c = true) (h' : s.isSubtype b c = true) :
    ∃ d, s.commonAncestor? a b = some d ∧ s.isSubtype d c = true := by
  induction a using inheritance_induction (s := s) with
  | step a ih =>
    by_cases above : s.isSubtype b a = true
    · refine ⟨a, ?_, h⟩
      rw [commonAncestor?]
      cases derived : s.parent? a with
      | none => rw [lineage_of_root derived, List.find?_cons_of_pos above]
      | some parent => rw [lineage_of_parent? derived, List.find?_cons_of_pos above]
    · rcases mem_lineage_iff.mp (isSubtype_iff.mp h) with rfl | ⟨parent, derived, further⟩
      · exact absurd h' above
      · obtain ⟨d, found, below⟩ := ih parent derived (isSubtype_iff.mpr further)
        refine ⟨d, ?_, below⟩
        rw [commonAncestor?, lineage_of_parent? derived, List.find?_cons_of_neg above]
        exact found

/-- The nearest common ancestor is the least type that both types are or derive from. -/
theorem commonAncestor?_eq_some_iff : s.commonAncestor? a b = some c ↔
    s.isSubtype a c = true ∧ s.isSubtype b c = true ∧
      ∀ d, s.isSubtype a d = true → s.isSubtype b d = true → s.isSubtype c d = true := by
  constructor
  · intro found
    obtain ⟨left, right⟩ := isSubtype_of_commonAncestor? found
    refine ⟨left, right, fun d first second => ?_⟩
    obtain ⟨least, found', below⟩ := exists_commonAncestor? first second
    obtain rfl : c = least := Option.some.inj (found.symm.trans found')
    exact below
  · rintro ⟨left, right, least⟩
    obtain ⟨d, found, below⟩ := exists_commonAncestor? left right
    obtain ⟨first, second⟩ := isSubtype_of_commonAncestor? found
    rw [found, isSubtype_antisymm below (least d first second)]

/-- There is none only if no type is above both. -/
theorem commonAncestor?_eq_none_iff : s.commonAncestor? a b = none ↔
    ∀ d, s.isSubtype a d = true → s.isSubtype b d = false := by
  constructor
  · intro none d first
    rw [← Bool.not_eq_true]
    intro second
    obtain ⟨_, found, _⟩ := exists_commonAncestor? first second
    rw [none] at found
    cases found
  · intro apart
    cases found : s.commonAncestor? a b with
    | none => rfl
    | some d =>
      obtain ⟨first, second⟩ := isSubtype_of_commonAncestor? found
      rw [apart d first] at second
      cases second

/-- The common ancestor does not depend on the order of the two types. -/
theorem commonAncestor?_comm (s : Schema) (a b : NodeRef) :
    s.commonAncestor? a b = s.commonAncestor? b a := by
  refine Option.ext fun c => ?_
  rw [commonAncestor?_eq_some_iff, commonAncestor?_eq_some_iff]
  exact ⟨fun ⟨left, right, least⟩ => ⟨right, left, fun d first second => least d second first⟩,
    fun ⟨left, right, least⟩ => ⟨right, left, fun d first second => least d second first⟩⟩

/-- The types of a schema form a forest: deriving from is a partial order, the walk to the ancestors
of a type ends, and two types have a least type above both, or no type at all. -/
structure Forest (s : Schema) : Prop where
  order : IsPartialOrder NodeRef fun a b => s.isSubtype a b = true
  /-- The lineage of a type is the walk to its ancestors. -/
  walk : ∀ a steps, (s.lineage a)[steps]? = s.ancestor? a steps
  /-- The walk has no more steps than there are types declared before. -/
  ends : ∀ a, ∃ steps ≤ a.index + 1, s.ancestor? a steps = none
  least : ∀ a b c, s.commonAncestor? a b = some c ↔
    s.isSubtype a c = true ∧ s.isSubtype b c = true ∧
      ∀ d, s.isSubtype a d = true → s.isSubtype b d = true → s.isSubtype c d = true
  absent : ∀ a b, s.commonAncestor? a b = none ↔
    ∀ d, s.isSubtype a d = true → s.isSubtype b d = false
  symmetric : ∀ a b, s.commonAncestor? a b = s.commonAncestor? b a

/-- The types of a schema form a forest. -/
theorem forest (s : Schema) : s.Forest where
  order :=
    { refl := s.isSubtype_refl
      trans := fun _ _ _ => isSubtype_trans
      antisymm := fun _ _ => isSubtype_antisymm }
  walk := s.getElem?_lineage
  ends := s.exists_ancestor?_eq_none
  least _ _ _ := commonAncestor?_eq_some_iff
  absent _ _ := commonAncestor?_eq_none_iff
  symmetric := s.commonAncestor?_comm

end Schema

end CombinatorGrammar
