import CombinatorGrammar.Proofs.Schema.ErrorTypes

/-!
# Fields of types that are declared

A field changes nothing of the types but their fields. So where all types are declared before the
first field, what has to be known of their names and of their inheritance is known from the schema
without fields, and the schema that grows is asked for its fields only.
-/

namespace CombinatorGrammar

/-- The type without its fields. -/
def NodeType.bare (type : NodeType) : NodeType := { type with ownFields := [] }

/-- Whether a declaration adds a field. -/
def Declaration.isField : Declaration → Bool
  | field _ _ _ => true
  | _ => false

namespace Schema

variable {base s : Schema}

/-- The schemas have the same types, which may have other fields. -/
structure SameTypes (base s : Schema) : Prop where
  nodes : s.nodes.map NodeType.bare = base.nodes.map NodeType.bare
  enums : s.enums = base.enums

namespace SameTypes

theorem refl (s : Schema) : s.SameTypes s := ⟨rfl, rfl⟩

/-- Fields do not change what the types are. -/
theorem pushField (h : base.SameTypes s) (ref : NodeRef) (field : Field) :
    base.SameTypes (s.pushField ref field) where
  nodes := by
    rw [← h.nodes]
    refine Array.ext_getElem? fun i => ?_
    rw [Array.getElem?_map, Array.getElem?_map, Schema.pushField, Array.getElem?_modify]
    split
    · rw [Option.map_map]
      rfl
    · rfl
  enums := h.enums

variable (h : base.SameTypes s)
include h

/-- There are as many types. -/
theorem size_eq : s.nodes.size = base.nodes.size := by
  simpa only [Array.size_map] using congrArg Array.size h.nodes

/-- What is read of a type besides its fields is the same in both schemas. -/
theorem read_eq {α : Type} (read : Option NodeType → α)
    (plain : ∀ type, read (some type.bare) = read (some type)) (ref : NodeRef) :
    read (s.node? ref) = read (base.node? ref) := by
  have through (type? : Option NodeType) : read (type?.map NodeType.bare) = read type? := by
    cases type? with
    | none => rfl
    | some type => exact plain type
  rw [← through, ← through (base.node? ref), node?, node?, ← Array.getElem?_map, h.nodes,
    Array.getElem?_map]

theorem name_eq (ref : NodeRef) : s.name ref = base.name ref :=
  h.read_eq (fun type? => (type?.map NodeType.name).getD "?") (fun _ => rfl) ref

theorem isError_eq : s.isError = base.isError :=
  funext fun ref => h.read_eq (fun type? => type?.any NodeType.isError) (fun _ => rfl) ref

theorem parent?_eq (ref : NodeRef) : s.parent? ref = base.parent? ref :=
  h.read_eq (fun type? => type?.bind NodeType.parent) (fun _ => rfl) ref

/-- Lineages do not depend on fields. -/
theorem lineage_eq (ref : NodeRef) : s.lineage ref = base.lineage ref := by
  induction ref using inheritance_induction (s := base) with
  | step ref ih =>
    have same := h.parent?_eq ref
    cases derived : base.parent? ref with
    | none => rw [lineage_of_root derived, lineage_of_root (same.trans derived)]
    | some parent =>
      rw [lineage_of_parent? derived, lineage_of_parent? (same.trans derived), ih parent derived]

/-- Subtypes do not depend on fields. -/
theorem strictSubtypes_eq (ref : NodeRef) : s.strictSubtypes ref = base.strictSubtypes ref := by
  simp only [strictSubtypes, refs, isSubtype, h.size_eq, h.lineage_eq]

/-- Types are looked up whatever their fields are. -/
theorem lookup?_eq (name : String) : s.lookup? name = base.lookup? name := by
  have through (t : Schema) : t.nodes.findIdx? (fun type => type.name == name) =
      (t.nodes.map NodeType.bare).findIdx? fun type => type.name == name := by
    rw [Array.findIdx?_map]
    rfl
  rw [lookup?, lookup?, through, h.nodes, ← through]

/-- Names of types are resolved whatever their fields are. -/
theorem nodeRef_eq (name : String) : s.nodeRef name = base.nodeRef name := by
  rw [nodeRef, nodeRef, h.lookup?_eq]

/-- Kinds of fields are resolved whatever the fields are. -/
theorem fieldKind_eq (kind : FieldKindName) : s.fieldKind kind = base.fieldKind kind := by
  induction kind with
  | token => rfl
  | node type => rw [fieldKind, fieldKind, h.nodeRef_eq]
  | enum type => rw [fieldKind, fieldKind, enumRef, enumRef, lookupEnum?, lookupEnum?, h.enums]
  | list element ih => rw [fieldKind, fieldKind, ih]

end SameTypes

/-- Why a type takes no field of a name in a schema with the types of the given one. -/
def fieldDefectIn? (base s : Schema) (ref : NodeRef) (name : String) : Option Defect :=
  let subtypes := base.strictSubtypes ref
  if base.isError ref then some (.errorNodeField (base.name ref))
  else
    let taken := ((base.lineage ref).reverse.flatMap s.ownFields).any (fun f => f.name == name) ||
      subtypes.any fun sub => (s.ownFields sub).any fun f => f.name == name
    let otherwise := if taken then some (.duplicateField (base.name ref) name)
      else (subtypes.find? fun sub => !(s.ownFields sub).isEmpty).map fun sub =>
        .fieldAfterSubtype (base.name ref) name (base.name sub)
    (subtypes.find? base.isError).elim otherwise fun sub => some (.errorNodeField (base.name sub))

/-- Follow a declaration in a schema with the types of the given one. -/
def declareIn (base s : Schema) : Declaration → Except Defect Schema
  | .field type name kind => do
    let ref ← base.nodeRef type
    let kind ← base.fieldKind kind
    match base.fieldDefectIn? s ref name with
    | some defect => .error defect
    | none => .ok (s.pushField ref ⟨name, kind⟩)
  | declaration => (s.declare declaration).map Prod.snd

/-- The defect of a field is the one that the schema without fields finds for its list. -/
theorem SameTypes.fieldDefect?_eq (h : base.SameTypes s) (ref : NodeRef) (name : String) :
    s.fieldDefect? ref name = base.fieldDefectIn? s ref name := by
  simp only [fieldDefect?, fieldDefectIn?, layout, h.strictSubtypes_eq, h.isError_eq, h.name_eq,
    h.lineage_eq]
  cases (base.strictSubtypes ref).find? base.isError with
  | none => rfl
  | some sub => rfl

/-- A declaration does to the schema what it does over the schema without fields. -/
theorem SameTypes.declare_eq (h : base.SameTypes s) (declaration : Declaration) :
    (s.declare declaration).map Prod.snd = base.declareIn s declaration := by
  cases declaration with
  | field type name kind =>
    rw [declare, declareIn, h.nodeRef_eq, h.fieldKind_eq]
    cases base.nodeRef type with
    | error defect => rfl
    | ok ref =>
      cases base.fieldKind kind with
      | error defect => rfl
      | ok kind =>
        simp only [bind, Except.bind, addField, h.fieldDefect?_eq]
        cases base.fieldDefectIn? s ref name <;> rfl
  | node => rfl
  | enum => rfl

/-- Fields keep the types as they are. -/
theorem SameTypes.of_declareIn {t : Schema} {declaration : Declaration} (h : base.SameTypes s)
    (isField : declaration.isField = true) (added : base.declareIn s declaration = .ok t) :
    base.SameTypes t := by
  cases declaration with
  | field type name kind =>
    simp only [declareIn, bind, Except.bind] at added
    split at added
    · cases added
    · split at added
      · cases added
      · split at added
        · cases added
        · cases added
          exact h.pushField _ _
  | node => cases isField
  | enum => cases isField

/-- The schema of types and then of fields, whose types are known when the first field is added. -/
theorem ofDeclarations_append {types fields : List Declaration}
    (only : fields.all Declaration.isField = true) :
    ofDeclarations (types ++ fields) =
      ofDeclarations types >>= fun base => fields.foldlM base.declareIn base := by
  have grows (base s : Schema) (h : base.SameTypes s) :
      fields.foldlM (fun s declaration => (s.declare declaration).map Prod.snd) s =
        fields.foldlM base.declareIn s := by
    induction fields generalizing s with
    | nil => rfl
    | cons field fields ih =>
      simp only [List.all_cons, Bool.and_eq_true] at only
      rw [List.foldlM_cons, List.foldlM_cons, h.declare_eq]
      cases added : base.declareIn s field with
      | error defect => rfl
      | ok t => exact ih only.2 t (h.of_declareIn only.1 added)
  rw [ofDeclarations, List.foldlM_append]
  congr 1
  funext base
  exact grows base base (.refl base)

end Schema

end CombinatorGrammar
