import CombinatorGrammar.Schema.Basic

/-!
# Inheritance

Deriving from is a partial order on node types as far as it matters here: it is reflexive and
transitive, and the nearest common ancestor of two types is above both. A type's layout is its
parent's followed by the type's own fields.
-/

namespace CombinatorGrammar

namespace Schema

variable {s : Schema}

/-- Induction from the root types down. -/
theorem inheritance_induction {motive : NodeRef → Prop}
    (step : ∀ ref, (∀ parent, s.parent? ref = some parent → motive parent) → motive ref)
    (ref : NodeRef) : motive ref := by
  induction number : ref.index using Nat.strongRecOn generalizing ref with
  | ind n ih => exact step ref fun parent derived => ih _ (number ▸ parent?_lt derived) parent rfl

/-- The lineage of a derived type continues with its parent's. -/
theorem lineage_of_parent? {ref parent : NodeRef} (derived : s.parent? ref = some parent) :
    s.lineage ref = ref :: s.lineage parent := by
  rw [lineage]
  split
  · next other found =>
    rw [derived, Option.some.injEq] at found
    rw [found]
  · next none => rw [derived] at none; cases none

/-- A type without a parent has no other ancestor. -/
theorem lineage_of_root {ref : NodeRef} (root : s.parent? ref = none) : s.lineage ref = [ref] := by
  rw [lineage]
  split
  · next other found => rw [root] at found; cases found
  · rfl

/-- The lineage of a type is the type itself and the lineage of its parent. -/
theorem mem_lineage_iff {ref sup : NodeRef} :
    sup ∈ s.lineage ref ↔
      sup = ref ∨ ∃ parent, s.parent? ref = some parent ∧ sup ∈ s.lineage parent := by
  cases derived : s.parent? ref with
  | none => simp [lineage_of_root derived]
  | some parent => simp [lineage_of_parent? derived]

/-- The supertypes of a type are its lineage. -/
theorem isSubtype_iff {sub sup : NodeRef} : s.isSubtype sub sup = true ↔ sup ∈ s.lineage sub := by
  rw [isSubtype, List.contains_iff_mem]

@[simp] theorem isSubtype_refl (s : Schema) (ref : NodeRef) : s.isSubtype ref ref = true :=
  isSubtype_iff.mpr (mem_lineage_iff.mpr (Or.inl rfl))

/-- A subtype of a subtype is a subtype. -/
theorem isSubtype_trans {a b c : NodeRef} (h : s.isSubtype a b = true)
    (h' : s.isSubtype b c = true) : s.isSubtype a c = true := by
  rw [isSubtype_iff] at h h' ⊢
  induction a using inheritance_induction (s := s) with
  | step a ih =>
    rcases mem_lineage_iff.mp h with rfl | ⟨parent, derived, above⟩
    · exact h'
    · exact mem_lineage_iff.mpr (Or.inr ⟨parent, derived, ih parent derived above⟩)

/-- A common ancestor is above both types. -/
theorem isSubtype_of_commonAncestor? {a b sup : NodeRef}
    (h : s.commonAncestor? a b = some sup) :
    s.isSubtype a sup = true ∧ s.isSubtype b sup = true :=
  ⟨isSubtype_iff.mpr (List.mem_of_find?_eq_some h), List.find?_some h⟩

/-- A derived type has the fields of its parent first, then its own. -/
theorem layout_of_parent? {ref parent : NodeRef} (derived : s.parent? ref = some parent) :
    s.layout ref = s.layout parent ++ s.ownFields ref := by
  simp [layout, lineage_of_parent? derived]

/-- A type without a parent has its own fields only. -/
theorem layout_of_root {ref : NodeRef} (root : s.parent? ref = none) :
    s.layout ref = s.ownFields ref := by
  simp [layout, lineage_of_root root]

end Schema

end CombinatorGrammar
