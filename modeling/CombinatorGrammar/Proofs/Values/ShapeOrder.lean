import CombinatorGrammar.Proofs.Schema.Ancestors
import CombinatorGrammar.Proofs.Values.Shape

/-!
# The order of shapes

One shape is below another if it says at least as much. Nothing is below a null but itself, and all
is below the shape that says nothing. Node types are ordered as they derive from each other, so two
types that have a type above both have a nearest one; therefore a join is the least shape above
both sides, and all that is true of least upper bounds is true of joins.
-/

namespace CombinatorGrammar

namespace Shape

/-- Every value of the first shape has the second one. -/
inductive Below (schema : Schema) : Shape → Shape → Prop
  | null (u : Shape) : Below schema null u
  | any (s : Shape) : Below schema s any
  | token : Below schema token token
  | node {a b : NodeRef} : schema.isSubtype a b = true → Below schema (node a) (node b)
  | enum (type : EnumRef) : Below schema (enum type) (enum type)
  | list {a b : Shape} : Below schema a b → Below schema (list a) (list b)

variable {schema : Schema} {s t u : Shape}

theorem Below.refl (schema : Schema) (s : Shape) : s.Below schema s := by
  induction s with
  | token => exact .token
  | node type => exact .node (schema.isSubtype_refl type)
  | enum type => exact .enum type
  | list s ih => exact .list ih
  | null => exact .null _
  | any => exact .any _

/-- A shape below one that is below a third is below the third. -/
theorem Below.trans (first : s.Below schema t) (second : t.Below schema u) :
    s.Below schema u := by
  induction first generalizing u with
  | null => exact .null u
  | any s =>
    cases second
    exact .any s
  | token => exact second
  | node below =>
    cases second with
    | any => exact .any _
    | node below' => exact .node (Schema.isSubtype_trans below below')
  | enum type => exact second
  | list _ ih =>
    cases second with
    | any => exact .any _
    | list second => exact .list (ih second)

/-- Shapes below each other are equal. -/
theorem Below.antisymm (first : s.Below schema t) (second : t.Below schema s) : s = t := by
  induction first with
  | null =>
    cases second
    rfl
  | any s =>
    cases second
    rfl
  | token => rfl
  | node below =>
    cases second with
    | node below' => rw [Schema.isSubtype_antisymm below below']
  | enum type => rfl
  | list _ ih =>
    cases second with
    | list second => rw [ih second]

/-- A join is below what both sides are below, and nothing else. -/
theorem join_below_iff (s t : Shape) :
    (s.join schema t).Below schema u ↔ s.Below schema u ∧ t.Below schema u := by
  fun_induction join schema s t generalizing u with
  | case1 => exact (and_self_iff).symm
  | case2 other => exact ⟨fun h => ⟨.null u, h⟩, And.right⟩
  | case3 other => exact ⟨fun h => ⟨h, .null u⟩, And.left⟩
  | case4 type => exact (and_self_iff).symm
  | case5 a b different =>
    constructor
    · intro h
      cases found : schema.commonAncestor? a b with
      | none =>
        rw [found] at h
        cases h
        exact ⟨.any _, .any _⟩
      | some sup =>
        obtain ⟨left, right⟩ := Schema.isSubtype_of_commonAncestor? found
        rw [found] at h
        exact ⟨(Below.node left).trans h, (Below.node right).trans h⟩
    · rintro ⟨left, right⟩
      cases left with
      | any => exact .any _
      | node left =>
        cases right with
        | node right =>
          obtain ⟨d, found, below⟩ := Schema.exists_commonAncestor? left right
          rw [found]
          exact .node below
  | case6 type => exact (and_self_iff).symm
  | case7 a b different =>
    constructor
    · intro h
      cases h
      exact ⟨.any _, .any _⟩
    · rintro ⟨left, right⟩
      cases left with
      | any => exact .any _
      | enum =>
        cases right
        exact absurd rfl different
  | case8 a b ih =>
    constructor
    · intro h
      cases h with
      | any => exact ⟨.any _, .any _⟩
      | list h =>
        obtain ⟨left, right⟩ := ih.mp h
        exact ⟨.list left, .list right⟩
    · rintro ⟨left, right⟩
      cases left with
      | any => exact .any _
      | list left =>
        cases right with
        | list right => exact .list (ih.mpr ⟨left, right⟩)
  | case9 s t =>
    constructor
    · intro h
      cases h
      exact ⟨.any _, .any _⟩
    · rintro ⟨left, right⟩
      -- below anything else the sides are of one form
      cases left with
      | any => exact .any _
      | _ => cases right <;> simp_all

/-- The join of several shapes is below what each of them is below. -/
theorem foldl_join_below_iff (shapes : List Shape) (s : Shape) :
    (shapes.foldl (join schema) s).Below schema u ↔
      s.Below schema u ∧ ∀ t ∈ shapes, t.Below schema u := by
  induction shapes generalizing s with
  | nil => simp
  | cons t shapes ih => rw [List.foldl_cons, ih, join_below_iff, List.forall_mem_cons, and_assoc]

/-- Shapes below the same shapes are the same. -/
theorem eq_of_below_iff (schema : Schema) (same : ∀ u, s.Below schema u ↔ t.Below schema u) :
    s = t :=
  ((same t).mpr (.refl schema t)).antisymm ((same s).mp (.refl schema s))

/-- The shape of any value is below no other one. -/
theorem any_below_iff : any.Below schema u ↔ u = any :=
  ⟨fun h => (Below.any u).antisymm h, fun h => h ▸ .refl schema any⟩

/-- Shapes under join are a semilattice with a least and a greatest shape. -/
structure JoinLaws (schema : Schema) : Prop where
  comm : ∀ s t, join schema s t = join schema t s
  assoc : ∀ s t u, join schema (join schema s t) u = join schema s (join schema t u)
  idem : ∀ s, join schema s s = s
  null : ∀ s, join schema null s = s ∧ join schema s null = s
  any : ∀ s, join schema any s = any ∧ join schema s any = any

/-- The join does not depend on the order. -/
theorem join_comm (schema : Schema) (s t : Shape) : join schema s t = join schema t s :=
  eq_of_below_iff schema fun u => by rw [join_below_iff, join_below_iff, and_comm]

theorem joinLaws (schema : Schema) : JoinLaws schema where
  comm := join_comm schema
  assoc s t u := eq_of_below_iff schema fun v => by
    rw [join_below_iff, join_below_iff, join_below_iff, join_below_iff, and_assoc]
  idem s := eq_of_below_iff schema fun u => by rw [join_below_iff, and_self_iff]
  null s := by
    have here : join schema null s = s := eq_of_below_iff schema fun u => by
      rw [join_below_iff, and_iff_right (Below.null u)]
    exact ⟨here, (join_comm schema s null).trans here⟩
  any s := by
    have here : join schema .any s = .any := eq_of_below_iff schema fun u => by
      rw [join_below_iff, any_below_iff, and_iff_left_of_imp]
      rintro rfl
      exact .any s
    exact ⟨here, (join_comm schema s .any).trans here⟩

end Shape

end CombinatorGrammar
