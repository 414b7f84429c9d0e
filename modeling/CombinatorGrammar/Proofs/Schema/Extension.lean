import CombinatorGrammar.Proofs.Schema.ErrorTypes
import CombinatorGrammar.Proofs.Values.Shape

/-!
# Schemas with more node types

A schema may begin another one, which then declares the same types under the same numbers, and more
node types behind them. For the types of the first schema the second one makes no difference: they
are found under their names, they derive from the same types, and they have the same layouts. So
their shapes join to the same shapes and fit the same kinds of fields.
-/

namespace CombinatorGrammar

namespace Schema

/-- The second schema has the types of the first one under the same numbers, and maybe more node
types. -/
structure Begins (s t : Schema) : Prop where
  size_le : s.nodes.size ≤ t.nodes.size
  node?_eq : ∀ ref : NodeRef, ref.index < s.nodes.size → t.node? ref = s.node? ref
  enums_eq : t.enums = s.enums

variable {s t : Schema} {a b ref : NodeRef}

/-- A schema begins every schema with one more type. -/
theorem begins_pushNode (type : NodeType)
    (known : ∀ parent, type.parent = some parent → parent.index < s.nodes.size) :
    s.Begins (s.pushNode type known) where
  size_le := by simp [pushNode]
  node?_eq := fun _ => node?_pushNode_of_lt
  enums_eq := rfl

namespace Begins

variable (begins : s.Begins t)

include begins

/-- Parents stay as they are. -/
theorem parent?_eq (declared : ref.index < s.nodes.size) : t.parent? ref = s.parent? ref := by
  rw [parent?, parent?, begins.node?_eq ref declared]

theorem isAbstract_eq (declared : ref.index < s.nodes.size) :
    t.isAbstract ref = s.isAbstract ref := by
  rw [isAbstract, isAbstract, begins.node?_eq ref declared]

theorem isError_eq (declared : ref.index < s.nodes.size) : t.isError ref = s.isError ref := by
  rw [isError, isError, begins.node?_eq ref declared]

/-- Lineages stay as they are. -/
theorem lineage_eq (declared : ref.index < s.nodes.size) : t.lineage ref = s.lineage ref := by
  induction ref using inheritance_induction (s := s) with
  | step ref ih =>
    have parents := begins.parent?_eq declared
    cases derived : s.parent? ref with
    | none => rw [lineage_of_root derived, lineage_of_root (parents.trans derived)]
    | some parent =>
      rw [lineage_of_parent? derived, lineage_of_parent? (parents.trans derived),
        ih parent derived (Nat.lt_trans (parent?_lt derived) declared)]

/-- Subtyping stays as it is. -/
theorem isSubtype_eq (declared : a.index < s.nodes.size) : t.isSubtype a b = s.isSubtype a b := by
  rw [isSubtype, isSubtype, begins.lineage_eq declared]

/-- Common ancestors stay as they are. -/
theorem commonAncestor?_eq (declared : a.index < s.nodes.size)
    (declared' : b.index < s.nodes.size) : t.commonAncestor? a b = s.commonAncestor? a b := by
  rw [commonAncestor?, commonAncestor?, begins.lineage_eq declared]
  exact congrArg (List.find? · _) (funext fun _ => begins.isSubtype_eq declared')

/-- Layouts stay as they are. -/
theorem layout_eq (declared : ref.index < s.nodes.size) : t.layout ref = s.layout ref := by
  refine layout_congr fun r above => ?_
  have inside := lt_of_mem_lineage above declared
  rw [ownFields, ownFields, begins.node?_eq r inside]
  exact ⟨begins.parent?_eq inside, rfl⟩

/-- A name that the schema knows means the same type in the other one. -/
theorem lookup?_eq {name : String} (found : s.lookup? name = some ref) :
    t.lookup? name = some ref := by
  obtain ⟨i, first, rfl⟩ := Option.map_eq_some_iff.mp found
  obtain ⟨inside, named, before⟩ := Array.findIdx?_eq_some_iff_getElem.mp first
  have more {j : Nat} (inside : j < s.nodes.size) : j < t.nodes.size :=
    Nat.lt_of_lt_of_le inside begins.size_le
  have same {j : Nat} (inside : j < s.nodes.size) (inside' : j < t.nodes.size) :
      t.nodes[j] = s.nodes[j] := by
    have here := begins.node?_eq ⟨j⟩ inside
    rwa [node?, node?, Array.getElem?_eq_getElem inside, Array.getElem?_eq_getElem inside',
      Option.some.injEq] at here
  refine Option.map_eq_some_iff.mpr ⟨i, Array.findIdx?_eq_some_iff_getElem.mpr ?_, rfl⟩
  refine ⟨more inside, ?_, fun j less => ?_⟩
  · rw [same inside]
    exact named
  · rw [same (Nat.lt_trans less inside)]
    exact before j less

/-- Enumerations are looked up as before. -/
theorem lookupEnum?_eq (name : String) : t.lookupEnum? name = s.lookupEnum? name := by
  rw [lookupEnum?, lookupEnum?, begins.enums_eq]

/-- Alternatives have the places they had. -/
theorem alternativeIndex?_eq (type : EnumRef) (name : String) :
    t.alternativeIndex? type name = s.alternativeIndex? type name := by
  rw [alternativeIndex?, alternativeIndex?, enum?, enum?, begins.enums_eq]

end Begins

end Schema

namespace Shape

/-- The node type that the shape names, if any, belongs to the schema. -/
def Declared (s : Schema) : Shape → Prop
  | node type => type.index < s.nodes.size
  | list element => element.Declared s
  | _ => True

variable {s t : Schema} {a b : Shape}

/-- The join of declared shapes is declared. -/
theorem Declared.join (first : a.Declared s) (second : b.Declared s) :
    (a.join s b).Declared s := by
  fun_induction Shape.join s a b with
  | case5 a b different =>
    cases found : s.commonAncestor? a b with
    | none => trivial
    | some sup =>
      exact Schema.lt_of_mem_lineage
        (Schema.isSubtype_iff.mp (Schema.isSubtype_of_commonAncestor? found).1) first
  | case8 a b ih => exact ih first second
  | case2 | case3 => assumption
  | case4 => exact first
  | _ => trivial

/-- Declared shapes have the same joins. -/
theorem join_begins (begins : s.Begins t) (first : a.Declared s) (second : b.Declared s) :
    a.join t b = a.join s b := by
  fun_induction Shape.join s a b with
  | case5 a b different =>
    rw [Shape.join, if_neg different, begins.commonAncestor?_eq first second]
  | case8 a b ih => rw [Shape.join, ih first second]
  | case1 => rfl
  | case2 other => cases other <;> rfl
  | case3 other => cases other <;> rfl
  | case4 type | case6 type => rw [Shape.join, if_pos rfl]
  | case7 a b different => rw [Shape.join, if_neg different]
  | case9 a b => cases a <;> cases b <;> simp_all [Shape.join]

/-- Declared shapes fit the same kinds of fields. -/
theorem fits_begins (begins : s.Begins t) (declared : a.Declared s) (kind : FieldKind) :
    a.fits t kind = a.fits s kind := by
  fun_induction Shape.fits s a kind with
  | case4 sub sup => exact begins.isSubtype_eq declared
  | case6 element kind ih => exact ih declared
  | case1 | case2 | case3 | case5 => rfl
  | case7 a kind => cases a <;> cases kind <;> simp_all [Shape.fits]

end Shape

end CombinatorGrammar
