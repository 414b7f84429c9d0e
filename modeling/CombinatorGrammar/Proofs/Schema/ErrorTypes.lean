import CombinatorGrammar.Proofs.Schema.Inheritance
import CombinatorGrammar.Schema.Declaration

/-!
# Error node types have no fields

A skip builds an error node without fields, which is right because no declaration gives an error
node type a field: neither its own, nor one of an ancestor, be it declared before or after the
error type.
-/

namespace CombinatorGrammar

namespace Schema

variable {s t : Schema}

/-- No error node type has a field, own or inherited. -/
def ErrorsBare (s : Schema) : Prop := ∀ ref, s.isError ref = true → s.layout ref = []

/-- The layout of a type depends on the declarations of its lineage only. -/
theorem layout_congr {ref : NodeRef}
    (same : ∀ r ∈ s.lineage ref, t.parent? r = s.parent? r ∧ t.ownFields r = s.ownFields r) :
    t.layout ref = s.layout ref := by
  induction ref using inheritance_induction (s := s) with
  | step ref ih =>
    obtain ⟨parents, own⟩ := same ref (mem_lineage_iff.mpr (Or.inl rfl))
    cases derived : s.parent? ref with
    | none => rw [layout_of_root derived, layout_of_root (parents.trans derived), own]
    | some parent =>
      rw [layout_of_parent? derived, layout_of_parent? (parents.trans derived), own]
      rw [ih parent derived fun r above =>
        same r (mem_lineage_iff.mpr (Or.inr ⟨parent, derived, above⟩))]

/-- The ancestors of a declared type are declared. -/
theorem lt_of_mem_lineage {ref sup : NodeRef} (above : sup ∈ s.lineage ref)
    (declared : ref.index < s.nodes.size) : sup.index < s.nodes.size := by
  induction ref using inheritance_induction (s := s) with
  | step ref ih =>
    rcases mem_lineage_iff.mp above with rfl | ⟨parent, derived, further⟩
    · exact declared
    · exact ih parent derived further (Nat.lt_trans (parent?_lt derived) declared)

/-- Error types are declared. -/
theorem isError_lt {ref : NodeRef} (h : s.isError ref = true) : ref.index < s.nodes.size := by
  rw [isError, node?, Option.any_eq_true] at h
  obtain ⟨type, found, _⟩ := h
  exact (Array.getElem?_eq_some_iff.mp found).1

section

variable {type : NodeType}
  {known : ∀ parent, type.parent = some parent → parent.index < s.nodes.size}

/-- One more type leaves the earlier ones as they are. -/
theorem node?_pushNode_of_lt {ref : NodeRef} (declared : ref.index < s.nodes.size) :
    (s.pushNode type known).node? ref = s.node? ref :=
  Array.getElem?_push_lt declared |>.trans (Array.getElem?_eq_getElem declared).symm

/-- The type added is the one read back. -/
theorem node?_pushNode_self : (s.pushNode type known).node? ⟨s.nodes.size⟩ = some type :=
  Array.getElem?_push_size

/-- One more type leaves the layouts of the earlier ones as they are. -/
theorem layout_pushNode_of_lt {ref : NodeRef} (declared : ref.index < s.nodes.size) :
    (s.pushNode type known).layout ref = s.layout ref := by
  refine layout_congr fun r above => ?_
  have same : (s.pushNode type known).node? r = s.node? r :=
    node?_pushNode_of_lt (lt_of_mem_lineage above declared)
  simp only [parent?, ownFields, same, and_self]

/-- A new type without fields of its own leaves error types bare if it is none itself or derives
from a type without fields. -/
theorem ErrorsBare.pushNode (bare : s.ErrorsBare) (own : type.ownFields = [])
    (inherits : type.isError = true → ∀ parent, type.parent = some parent → s.layout parent = []) :
    (s.pushNode type known).ErrorsBare := by
  intro ref h
  have declared := isError_lt h
  rw [show (s.pushNode type known).nodes.size = s.nodes.size + 1 from Array.size_push ..]
    at declared
  rcases Nat.lt_succ_iff_lt_or_eq.mp declared with old | new
  · rw [isError, node?_pushNode_of_lt old] at h
    rw [layout_pushNode_of_lt old]
    exact bare ref h
  · obtain rfl : ref = ⟨s.nodes.size⟩ := by cases ref; exact congrArg NodeRef.mk new
    have self : (s.pushNode type known).node? ⟨s.nodes.size⟩ = some type := node?_pushNode_self
    rw [isError, self] at h
    have parents : (s.pushNode type known).parent? ⟨s.nodes.size⟩ = type.parent := by
      simp [parent?, self]
    cases derived : type.parent with
    | none =>
      rw [layout_of_root (parents.trans derived), ownFields, self]
      exact own
    | some parent =>
      rw [layout_of_parent? (parents.trans derived), ownFields, self,
        layout_pushNode_of_lt (known parent derived), inherits h parent derived]
      exact own

end

/-- One more field changes the type that gets it, and no other. -/
theorem node?_pushField (ref : NodeRef) (field : Field) (r : NodeRef) :
    (s.pushField ref field).node? r = (s.node? r).map fun type =>
      if r = ref then { type with ownFields := type.ownFields ++ [field] } else type := by
  have same : r = ref ↔ ref.index = r.index := by
    cases r
    cases ref
    simp [eq_comm]
  rw [node?, pushField, Array.getElem?_modify, node?]
  by_cases here : ref.index = r.index
  · simp [here, same.mpr here]
  · have other : r ≠ ref := fun h => here (same.mp h)
    simp [here, other]

/-- A type that takes a field is above no error type. -/
theorem not_mem_lineage_of_isError {ref errorType : NodeRef} {name : String}
    (taken : s.fieldDefect? ref name = none) (h : s.isError errorType = true) :
    ref ∉ s.lineage errorType := by
  intro above
  simp only [fieldDefect?] at taken
  split at taken
  · cases taken
  · next plain =>
    split at taken
    · cases taken
    · next none =>
      have other : errorType ≠ ref := fun same => plain (same ▸ h)
      have listed : errorType ∈ s.strictSubtypes ref := by
        rw [strictSubtypes, List.mem_filter, refs]
        refine ⟨List.mem_map.mpr ⟨errorType.index, List.mem_range.mpr (isError_lt h), rfl⟩, ?_⟩
        simp [other, isSubtype_iff.mpr above]
      exact List.find?_eq_none.mp none errorType listed h

/-- A field that a type takes leaves error types bare. -/
theorem ErrorsBare.pushField (bare : s.ErrorsBare) {ref : NodeRef} {field : Field}
    (taken : s.fieldDefect? ref field.name = none) : (s.pushField ref field).ErrorsBare := by
  intro errorType h
  have before : s.isError errorType = true := by
    rw [isError, node?_pushField] at h
    rw [isError]
    cases found : s.node? errorType with
    | none => rw [found] at h; cases h
    | some type =>
      rw [found] at h
      split at h <;> exact h
  rw [← bare errorType before]
  refine layout_congr fun r above => ?_
  have other : r ≠ ref := fun same => not_mem_lineage_of_isError taken before (same ▸ above)
  simp [parent?, ownFields, node?_pushField, other]

/-- Error types stay without fields when a type is declared. -/
theorem ErrorsBare.declareNode (bare : s.ErrorsBare) {name : String} {parent : Option String}
    {isAbstract isError : Bool} {ref : NodeRef}
    (h : s.declareNode name parent isAbstract isError = .ok (ref, t)) : t.ErrorsBare := by
  rw [Schema.declareNode] at h
  split at h
  · cases h
  · split at h
    · cases h
      exact bare.pushNode rfl fun _ _ none => nomatch none
    · split at h
      · cases h
      · next above _ =>
        split at h
        · cases h
        · next allowed =>
          cases h
          refine bare.pushNode rfl fun error parent same => ?_
          obtain rfl := Option.some.inj same
          simp only [show isError = true from error, Bool.true_and, bne_iff_ne, ne_eq,
            Decidable.not_not, fieldCount, List.length_eq_zero_iff] at allowed
          exact allowed

/-- Error types stay without fields when a field is added. -/
theorem ErrorsBare.addField (bare : s.ErrorsBare) {ref : NodeRef} {name : String}
    {kind : FieldKind} {place : Nat} (h : s.addField ref name kind = .ok (place, t)) :
    t.ErrorsBare := by
  rw [Schema.addField] at h
  split at h
  · cases h
  · next taken =>
    cases h
    exact bare.pushField taken

/-- What keeps its node types keeps its error types bare. -/
theorem ErrorsBare.declareEnum (bare : s.ErrorsBare) {name : String} {alternatives : List String}
    {ref : EnumRef} (h : s.declareEnum name alternatives = .ok (ref, t)) : t.ErrorsBare := by
  rw [Schema.declareEnum] at h
  split at h
  · cases h
  · cases h
    intro errorType error
    rw [← bare errorType error]
    exact layout_congr fun _ _ => ⟨rfl, rfl⟩

/-- Error types stay without fields under every declaration. -/
theorem ErrorsBare.declare (bare : s.ErrorsBare) {declaration : Declaration}
    {result : Nat × Schema} (h : s.declare declaration = .ok result) : result.2.ErrorsBare := by
  cases declaration with
  | node name parent isAbstract isError =>
    rw [Schema.declare] at h
    cases added : s.declareNode name parent isAbstract isError with
    | error defect => rw [added] at h; cases h
    | ok answer =>
      rw [added] at h
      cases h
      exact bare.declareNode added
  | field type name kind =>
    simp only [Schema.declare, bind, Except.bind] at h
    split at h
    · cases h
    · split at h
      · cases h
      · exact bare.addField h
  | enum name alternatives =>
    rw [Schema.declare] at h
    cases added : s.declareEnum name alternatives with
    | error defect => rw [added] at h; cases h
    | ok answer =>
      rw [added] at h
      cases h
      exact bare.declareEnum added

/-- Declarations that are not refused make a schema whose error types are bare. -/
theorem errorsBare_of_ofDeclarations {declarations : List Declaration}
    (h : Schema.ofDeclarations declarations = .ok s) : s.ErrorsBare := by
  have onward : ∀ start : Schema, start.ErrorsBare →
      declarations.foldlM (fun s declaration => (s.declare declaration).map Prod.snd) start =
        .ok s → s.ErrorsBare := by
    clear h
    induction declarations with
    | nil =>
      rintro start bare ⟨⟩
      exact bare
    | cons declaration declarations ih =>
      intro start bare h
      rw [List.foldlM_cons] at h
      cases added : start.declare declaration with
      | error defect => rw [added] at h; cases h
      | ok answer =>
        rw [added] at h
        exact ih _ (bare.declare added) h
  refine onward empty (fun errorType error => ?_) h
  exact absurd (isError_lt error) (Nat.not_lt_zero _)

end Schema

end CombinatorGrammar
