import CombinatorGrammar.Proofs.Schema.ErrorTypes

/-!
# Layouts only grow at their ends

The place of a field is handed out when the field is added, and it is good for the type and for all
of its subtypes from then on. For a type takes no field once a subtype has fields of its own: so the
new field stands at the end of every layout that it becomes part of, and the layouts of before are
the beginnings of those of after.
-/

namespace CombinatorGrammar

/-- What a schema that is being built can be asked for. The type of a field is given by its number,
and so are the types in the kind of the field. -/
inductive Request where
  /-- A node type with its parent and its flags. -/
  | node (name : String) (parent : Option String) (isAbstract isError : Bool)
  /-- A field at the end of the layout of a node type. -/
  | field (type : NodeRef) (name : String) (kind : FieldKind)
  /-- An enum type with its alternatives. -/
  | enum (name : String) (alternatives : List String)

namespace Schema

variable {s t : Schema} {ref sub sup : NodeRef}

/-- Whether the type that a request adds a field to belongs to the schema. -/
def Knows (s : Schema) : Request → Prop
  | .field type _ _ => type.index < s.nodes.size
  | _ => True

/-- What a request is granted: the number of what is added, and the schema with it. -/
def grant (s : Schema) : Request → Except Defect (Nat × Schema)
  | .node name parent isAbstract isError =>
    (s.declareNode name parent isAbstract isError).map fun added => (added.1.index, added.2)
  | .field type name kind => s.addField type name kind
  | .enum name alternatives =>
    (s.declareEnum name alternatives).map fun added => (added.1.index, added.2)

/-- The answer to a request, and the schema that is there afterwards. -/
def respond (s : Schema) (request : Request) : Except Defect Nat × Schema :=
  match s.grant request with
  | .ok (place, t) => (.ok place, t)
  | .error defect => (.error defect, s)

/-- A field is refused for its defect, or it gets the place behind the layout of its type. -/
theorem respond_field (s : Schema) (type : NodeRef) (name : String) (kind : FieldKind) :
    s.respond (.field type name kind) =
      match s.fieldDefect? type name with
      | some defect => (.error defect, s)
      | none => (.ok (s.fieldCount type), s.pushField type ⟨name, kind⟩) := by
  rw [respond, grant, addField]
  cases s.fieldDefect? type name <;> rfl

/-- Requests, granted or refused, lead from the first schema to the second one. -/
inductive Reaches (s : Schema) : Schema → Prop
  | refl : Reaches s s
  | step {t : Schema} {request : Request} :
      Reaches s t → t.Knows request → Reaches s (t.respond request).2

section Subtypes

/-- Ancestors were declared before. -/
theorem le_of_mem_lineage (above : sup ∈ s.lineage sub) : sup.index ≤ sub.index := by
  induction sub using inheritance_induction (s := s) with
  | step sub ih =>
    rcases mem_lineage_iff.mp above with rfl | ⟨parent, derived, further⟩
    · exact Nat.le_refl _
    · exact Nat.le_of_lt (Nat.lt_of_le_of_lt (ih parent derived further) (parent?_lt derived))

theorem node?_of_not_lt (undeclared : ¬ ref.index < s.nodes.size) : s.node? ref = none :=
  Array.getElem?_eq_none (Nat.le_of_not_lt undeclared)

/-- A type that is not declared has no fields. -/
theorem layout_of_not_lt (undeclared : ¬ ref.index < s.nodes.size) : s.layout ref = [] := by
  have missing := node?_of_not_lt undeclared
  rw [layout_of_root (by rw [parent?, missing]; rfl), ownFields, missing]
  rfl

/-- The layout of a subtype begins with the layout of the supertype. -/
theorem layout_prefix_of_mem_lineage (above : sup ∈ s.lineage sub) :
    s.layout sup <+: s.layout sub := by
  induction sub using inheritance_induction (s := s) with
  | step sub ih =>
    rcases mem_lineage_iff.mp above with rfl | ⟨parent, derived, further⟩
    · exact List.prefix_rfl
    · rw [layout_of_parent? derived]
      exact (ih parent derived further).trans (List.prefix_append ..)

/-- A type that derives from another one is a strict subtype of it. -/
theorem mem_strictSubtypes {parent : NodeRef} (derived : s.parent? sub = some parent)
    (above : ref ∈ s.lineage parent) : sub ∈ s.strictSubtypes ref := by
  have other : sub ≠ ref := by
    rintro rfl
    exact absurd (le_of_mem_lineage above) (Nat.not_le_of_lt (parent?_lt derived))
  have declared : sub.index < s.nodes.size := by
    refine Decidable.by_contra fun undeclared => ?_
    rw [parent?, node?_of_not_lt undeclared] at derived
    cases derived
  have subtype : s.isSubtype sub ref = true :=
    isSubtype_iff.mpr (mem_lineage_iff.mpr (Or.inr ⟨parent, derived, above⟩))
  rw [strictSubtypes, List.mem_filter, refs]
  exact ⟨List.mem_map.mpr ⟨sub.index, List.mem_range.mpr declared, rfl⟩, by simp [other, subtype]⟩

/-- Where no strict subtype has fields of its own, all subtypes have one layout. -/
theorem layout_eq_of_bare (bare : ∀ r ∈ s.strictSubtypes ref, s.ownFields r = [])
    (above : ref ∈ s.lineage sub) : s.layout sub = s.layout ref := by
  induction sub using inheritance_induction (s := s) with
  | step sub ih =>
    rcases mem_lineage_iff.mp above with rfl | ⟨parent, derived, further⟩
    · rfl
    · rw [layout_of_parent? derived, bare sub (mem_strictSubtypes derived further),
        List.append_nil, ih parent derived further]

end Subtypes

section Fields

variable {field : Field} {name : String}

/-- A type takes a field whose name no field of its layout has, if no strict subtype has fields. -/
theorem of_fieldDefect?_eq_none (taken : s.fieldDefect? ref name = none) :
    (∀ f ∈ s.layout ref, f.name ≠ name) ∧ ∀ r ∈ s.strictSubtypes ref, s.ownFields r = [] := by
  simp only [fieldDefect?] at taken
  split at taken
  · cases taken
  · split at taken
    · cases taken
    · split at taken
      · cases taken
      · next fresh =>
        rw [Option.map_eq_none_iff, List.find?_eq_none] at taken
        simp only [Bool.or_eq_true, List.any_eq_true, beq_iff_eq, not_or, not_exists,
          not_and] at fresh
        refine ⟨fresh.1, fun r among => ?_⟩
        simpa using taken r among

theorem parent?_pushField (r : NodeRef) : (s.pushField ref field).parent? r = s.parent? r := by
  rw [parent?, parent?, node?_pushField]
  cases s.node? r with
  | none => rfl
  | some type =>
    simp only [Option.map_some, Option.bind_some]
    split <;> rfl

/-- A field added to one type is no field of another. -/
theorem ownFields_pushField_of_ne {r : NodeRef} (other : r ≠ ref) :
    (s.pushField ref field).ownFields r = s.ownFields r := by
  simp [ownFields, node?_pushField, other]

/-- A field is added behind the fields that its type has. -/
theorem ownFields_pushField_self (declared : ref.index < s.nodes.size) :
    (s.pushField ref field).ownFields ref = s.ownFields ref ++ [field] := by
  have found : s.node? ref = some s.nodes[ref.index] := Array.getElem?_eq_getElem declared
  simp [ownFields, node?_pushField, found]

/-- A type that is not below the one that takes a field keeps its layout. -/
theorem layout_pushField_of_not_mem (apart : ref ∉ s.lineage sub) :
    (s.pushField ref field).layout sub = s.layout sub := by
  refine layout_congr fun r above => ⟨parent?_pushField r, ownFields_pushField_of_ne ?_⟩
  rintro rfl
  exact apart above

/-- A type below the one that takes a field has the field at the end of its layout. -/
theorem layout_pushField_of_mem (declared : ref.index < s.nodes.size)
    (bare : ∀ r ∈ s.strictSubtypes ref, s.ownFields r = []) (above : ref ∈ s.lineage sub) :
    (s.pushField ref field).layout sub = s.layout sub ++ [field] := by
  induction sub using inheritance_induction (s := s) with
  | step sub ih =>
    rcases mem_lineage_iff.mp above with rfl | ⟨parent, derived, further⟩
    · have own : (s.pushField ref field).ownFields ref = s.ownFields ref ++ [field] :=
        ownFields_pushField_self declared
      cases derived : s.parent? ref with
      | none =>
        rw [layout_of_root derived, layout_of_root ((parent?_pushField ref).trans derived), own]
      | some parent =>
        have apart : ref ∉ s.lineage parent := fun within =>
          absurd (le_of_mem_lineage within) (Nat.not_le_of_lt (parent?_lt derived))
        rw [layout_of_parent? derived, layout_of_parent? ((parent?_pushField ref).trans derived),
          own, layout_pushField_of_not_mem apart, List.append_assoc]
    · have strict := mem_strictSubtypes derived further
      have other : sub ≠ ref := by
        rintro rfl
        exact absurd (le_of_mem_lineage further) (Nat.not_le_of_lt (parent?_lt derived))
      rw [layout_of_parent? derived, layout_of_parent? ((parent?_pushField sub).trans derived),
        ownFields_pushField_of_ne other, bare sub strict, List.append_nil, List.append_nil]
      exact ih parent derived further

end Fields

/-- The ways in which a schema can come out of a request. -/
inductive Becomes (s : Schema) : Schema → Prop
  | refused : Becomes s s
  | node {type : NodeType}
      {known : ∀ parent, type.parent = some parent → parent.index < s.nodes.size} :
      type.ownFields = [] →
      (type.isError = true → ∀ parent, type.parent = some parent → s.layout parent = []) →
      Becomes s (s.pushNode type known)
  | field {ref : NodeRef} {field : Field} : ref.index < s.nodes.size →
      s.fieldDefect? ref field.name = none → Becomes s (s.pushField ref field)
  | enum {type : EnumType} : Becomes s { s with enums := s.enums.push type }

/-- A schema becomes the one with the type declared. -/
theorem becomes_of_declareNode {name : String} {parent : Option String} {isAbstract isError : Bool}
    (h : s.declareNode name parent isAbstract isError = .ok (ref, t)) : s.Becomes t := by
  rw [declareNode] at h
  split at h
  · cases h
  · split at h
    · cases h
      refine .node rfl fun _ _ none => ?_
      cases none
    · split at h
      · cases h
      · split at h
        · cases h
        · next allowed =>
          cases h
          refine .node rfl fun error parent same => ?_
          obtain rfl := Option.some.inj same
          simp only [show isError = true from error, Bool.true_and, bne_iff_ne, ne_eq,
            Decidable.not_not, fieldCount, List.length_eq_zero_iff] at allowed
          exact allowed

/-- A schema becomes whatever a request makes of it. -/
theorem becomes_respond {request : Request} (known : s.Knows request) :
    s.Becomes (s.respond request).2 := by
  rw [respond]
  split
  · next place t granted =>
    cases request with
    | node name parent isAbstract isError =>
      rw [grant] at granted
      cases added : s.declareNode name parent isAbstract isError with
      | error defect =>
        rw [added] at granted
        cases granted
      | ok answer =>
        rw [added] at granted
        cases granted
        exact becomes_of_declareNode added
    | field type name kind =>
      rw [grant, addField] at granted
      split at granted
      · cases granted
      · next taken =>
        cases granted
        exact .field known taken
    | enum name alternatives =>
      rw [grant, declareEnum] at granted
      split at granted
      · cases granted
      · cases granted
        exact .enum
  · exact .refused

/-- A new type has the fields of its parent. -/
theorem layout_pushNode_self {type : NodeType}
    {known : ∀ parent, type.parent = some parent → parent.index < s.nodes.size}
    (own : type.ownFields = []) :
    (s.pushNode type known).layout ⟨s.nodes.size⟩ = (type.parent.map s.layout).getD [] := by
  have self : (s.pushNode type known).node? ⟨s.nodes.size⟩ = some type := node?_pushNode_self
  have parents : (s.pushNode type known).parent? ⟨s.nodes.size⟩ = type.parent := by
    simp [parent?, self]
  cases derived : type.parent with
  | none =>
    rw [layout_of_root (parents.trans derived), ownFields, self]
    exact own
  | some parent =>
    rw [layout_of_parent? (parents.trans derived), ownFields, self,
      layout_pushNode_of_lt (known parent derived)]
    simp [own]

/-- What comes of a layout when a request is answered: it stays, it gets a field at its end whose
name it does not have, or it is the layout of a new type and that of its parent, if any. -/
theorem Becomes.layout_cases (h : s.Becomes t) (ref : NodeRef) :
    t.layout ref = s.layout ref ∨
    (∃ field, t.layout ref = s.layout ref ++ [field] ∧ ∀ f ∈ s.layout ref, f.name ≠ field.name) ∨
    (s.layout ref = [] ∧ (t.layout ref = [] ∨ ∃ parent, t.layout ref = s.layout parent)) := by
  cases h with
  | refused => exact Or.inl rfl
  | @node type known own _ =>
    by_cases old : ref.index < s.nodes.size
    · exact Or.inl (layout_pushNode_of_lt old)
    · refine Or.inr (Or.inr ⟨layout_of_not_lt old, ?_⟩)
      by_cases new : ref.index < s.nodes.size + 1
      · obtain rfl : ref = ⟨s.nodes.size⟩ := by
          cases ref
          exact congrArg NodeRef.mk (Nat.le_antisymm (Nat.le_of_lt_succ new) (Nat.le_of_not_lt old))
        rw [layout_pushNode_self own]
        cases type.parent with
        | none => exact Or.inl rfl
        | some parent => exact Or.inr ⟨parent, rfl⟩
      · exact Or.inl (layout_of_not_lt (by rwa [pushNode, Array.size_push]))
  | @field type field declared taken =>
    obtain ⟨fresh, bare⟩ := of_fieldDefect?_eq_none taken
    by_cases above : type ∈ s.lineage ref
    · refine Or.inr (Or.inl ⟨field, layout_pushField_of_mem declared bare above, ?_⟩)
      rw [layout_eq_of_bare bare above]
      exact fresh
    · exact Or.inl (layout_pushField_of_not_mem above)
  | enum => exact Or.inl (layout_congr fun _ _ => ⟨rfl, rfl⟩)

/-- The fields of every layout have different names. -/
def FieldsDistinct (s : Schema) : Prop := ∀ ref, ((s.layout ref).map Field.name).Nodup

/-- Field names stay distinct whatever a schema becomes. -/
theorem FieldsDistinct.becomes (distinct : s.FieldsDistinct) (h : s.Becomes t) :
    t.FieldsDistinct := by
  intro ref
  rcases h.layout_cases ref with same | ⟨field, more, fresh⟩ | ⟨_, none | ⟨parent, same⟩⟩
  · rw [same]
    exact distinct ref
  · rw [more, List.map_append, List.map_singleton]
    refine (List.nodup_append).mpr ⟨distinct ref, List.pairwise_singleton _ _, ?_⟩
    simpa using fresh
  · rw [none]
    exact List.nodup_nil
  · rw [same]
    exact distinct parent

/-- Error types stay without fields whatever a schema becomes. -/
theorem ErrorsBare.becomes (bare : s.ErrorsBare) (h : s.Becomes t) : t.ErrorsBare := by
  cases h with
  | refused => exact bare
  | node own inherits => exact bare.pushNode own inherits
  | field _ taken => exact bare.pushField taken
  | enum =>
    intro errorType error
    rw [← bare errorType error]
    exact layout_congr fun _ _ => ⟨rfl, rfl⟩

namespace Reaches

/-- Field names stay distinct in every schema reached. -/
theorem fieldsDistinct (h : s.Reaches t) (distinct : s.FieldsDistinct) : t.FieldsDistinct := by
  induction h with
  | refl => exact distinct
  | step _ known ih => exact ih.becomes (becomes_respond known)

/-- Error types stay without fields in every schema reached. -/
theorem errorsBare (h : s.Reaches t) (bare : s.ErrorsBare) : t.ErrorsBare := by
  induction h with
  | refl => exact bare
  | step _ known ih => exact ih.becomes (becomes_respond known)

/-- What was at some place of a layout stays there, whatever is asked for later. -/
theorem layout_prefix (h : s.Reaches t) (ref : NodeRef) : s.layout ref <+: t.layout ref := by
  induction h with
  | refl => exact List.prefix_rfl
  | step _ known ih =>
    refine ih.trans ?_
    rcases (becomes_respond known).layout_cases ref with same | ⟨field, more, _⟩ | ⟨none, _⟩
    · exact same ▸ List.prefix_rfl
    · rw [more]
      exact List.prefix_append ..
    · rw [none]
      exact List.nil_prefix

end Reaches

/-- In a layout with different names, a field is found where it stands. -/
theorem fieldIndex?_eq (distinct : s.FieldsDistinct) {before : List Field} {field : Field}
    (placed : before ++ [field] <+: s.layout ref) :
    s.fieldIndex? ref field.name = some before.length := by
  obtain ⟨behind, same⟩ := placed
  have apart := distinct ref
  rw [← same, List.append_assoc, List.map_append, List.nodup_append] at apart
  rw [fieldIndex?, ← same, List.append_assoc, List.findIdx?_append]
  have none : before.findIdx? (fun f => f.name == field.name) = none := by
    rw [List.findIdx?_eq_none_iff]
    intro f among
    have listed : field.name ∈ ([field] ++ behind).map Field.name := List.mem_map_of_mem (by simp)
    exact beq_false_of_ne (apart.2.2 f.name (List.mem_map_of_mem among) field.name listed)
  simp [none, List.findIdx?_cons]

theorem fieldsDistinct_empty : FieldsDistinct empty := by
  intro ref
  rw [layout_of_not_lt (Nat.not_lt_zero _)]
  exact List.nodup_nil

theorem errorsBare_empty : ErrorsBare empty := fun _ error =>
  absurd (isError_lt error) (Nat.not_lt_zero _)

/-- A declaration that is followed is a request that is granted. -/
theorem exists_grant_of_declare {declaration : Declaration} {result : Nat × Schema}
    (h : s.declare declaration = .ok result) :
    ∃ request, s.Knows request ∧ s.grant request = .ok result := by
  cases declaration with
  | node name parent isAbstract isError =>
    exact ⟨.node name parent isAbstract isError, trivial, h⟩
  | field type name kind =>
    simp only [declare, nodeRef, bind, Except.bind] at h
    split at h
    · cases h
    · next ref found =>
      split at h
      · cases h
      · next kind _ =>
        refine ⟨.field ref name kind, ?_, h⟩
        split at found
        · next known =>
          obtain rfl := Except.ok.inj found
          exact lookup?_lt known
        · cases found
  | enum name alternatives => exact ⟨.enum name alternatives, trivial, h⟩

/-- The schema of a list of declarations comes of requests. -/
theorem reaches_of_ofDeclarations {declarations : List Declaration}
    (h : ofDeclarations declarations = .ok s) : empty.Reaches s := by
  have onward : ∀ start : Schema, empty.Reaches start →
      declarations.foldlM (fun s declaration => (s.declare declaration).map Prod.snd) start =
        .ok s → empty.Reaches s := by
    clear h
    induction declarations with
    | nil =>
      rintro start built ⟨⟩
      exact built
    | cons declaration declarations ih =>
      intro start built h
      rw [List.foldlM_cons] at h
      cases added : start.declare declaration with
      | error defect =>
        rw [added] at h
        cases h
      | ok answer =>
        rw [added] at h
        obtain ⟨request, known, granted⟩ := exists_grant_of_declare added
        have next := built.step known
        rw [respond, granted] at next
        exact ih _ next h
  exact onward empty .refl h

/-- Layouts are stable and go with inheritance. In a schema that comes of any requests, the layout
of a subtype begins with the layout of the supertype, the fields of a layout have different names,
error node types have no fields, and a refused request changes nothing. Whatever place a request for
a field is answered with, that is where the field is found in the type and in all its subtypes, then
and after any further requests. -/
theorem layouts_stable (built : empty.Reaches s) :
    (∀ sub sup, s.isSubtype sub sup = true → s.layout sup <+: s.layout sub) ∧
    (∀ type, ((s.layout type).map Field.name).Nodup) ∧
    (∀ type, s.isError type = true → s.layout type = []) ∧
    (∀ request defect, (s.respond request).1 = .error defect → (s.respond request).2 = s) ∧
    ∀ type name kind place, type.index < s.nodes.size →
      (s.respond (.field type name kind)).1 = .ok place →
      ∀ t, (s.respond (.field type name kind)).2.Reaches t →
        ∀ sub, t.isSubtype sub type = true → t.fieldIndex? sub name = some place := by
  have distinct := built.fieldsDistinct fieldsDistinct_empty
  refine ⟨fun sub sup above => layout_prefix_of_mem_lineage (isSubtype_iff.mp above), distinct,
    built.errorsBare errorsBare_empty, ?_, ?_⟩
  · intro request defect refused
    rw [respond] at refused ⊢
    split at refused
    · cases refused
    · rfl
  · intro type name kind place declared answered t later sub above
    rw [respond_field] at answered later
    split at answered
    · cases answered
    · next taken =>
      cases answered
      rw [taken] at later
      have self : type ∈ s.lineage type := mem_lineage_iff.mpr (Or.inl rfl)
      have added : (s.pushField type ⟨name, kind⟩).layout type = s.layout type ++ [⟨name, kind⟩] :=
        layout_pushField_of_mem declared (of_fieldDefect?_eq_none taken).2 self
      have placed : s.layout type ++ [⟨name, kind⟩] <+: t.layout sub := by
        rw [← added]
        exact (later.layout_prefix type).trans
          (layout_prefix_of_mem_lineage (isSubtype_iff.mp above))
      exact fieldIndex?_eq (later.fieldsDistinct (distinct.becomes (.field declared taken))) placed

/-- An abstract root, a type that derives from it, and a field of the root. -/
def twoLevels : Schema :=
  (((empty.respond (.node "Root" none true false)).2.respond
    (.node "Middle" (some "Root") false false)).2.respond (.field ⟨0⟩ "first" .token)).2

/-- The second type takes a field, a third one derives from it, and the root is refused a field. -/
def threeLevels : Schema :=
  (((twoLevels.respond (.field ⟨1⟩ "second" .token)).2.respond
    (.node "Low" (some "Middle") false false)).2.respond (.field ⟨0⟩ "late" .token)).2

/-- The field of the second type is found in the third one, which was declared behind it, and the
layout of that one begins with the field of the root. -/
theorem layouts_stable_threeLevels :
    (twoLevels.respond (.field ⟨1⟩ "second" .token)).1 = .ok 1 ∧
      (threeLevels.respond (.field ⟨0⟩ "late" .token)).1 =
        .error (.fieldAfterSubtype "Root" "late" "Middle") ∧
      threeLevels.isSubtype ⟨2⟩ ⟨1⟩ = true ∧ threeLevels.fieldIndex? ⟨2⟩ "second" = some 1 ∧
      threeLevels.layout ⟨0⟩ <+: threeLevels.layout ⟨2⟩ := by
  have built : empty.Reaches twoLevels :=
    .step (.step (.step .refl trivial) trivial) (show 0 < _ by decide +kernel)
  have later : (twoLevels.respond (.field ⟨1⟩ "second" .token)).2.Reaches threeLevels :=
    .step (.step .refl trivial) (show 0 < _ by decide +kernel)
  have whole : empty.Reaches threeLevels :=
    .step (.step (.step built (show 1 < _ by decide +kernel)) trivial)
      (show 0 < _ by decide +kernel)
  have answered : (twoLevels.respond (.field ⟨1⟩ "second" .token)).1 = .ok 1 := by
    rw [respond_field, show twoLevels.fieldDefect? ⟨1⟩ "second" = none by decide +kernel,
      show twoLevels.fieldCount ⟨1⟩ = 1 by decide +kernel]
  have refused : (threeLevels.respond (.field ⟨0⟩ "late" .token)).1 =
      .error (.fieldAfterSubtype "Root" "late" "Middle") := by
    rw [respond_field, show threeLevels.fieldDefect? ⟨0⟩ "late" =
      some (.fieldAfterSubtype "Root" "late" "Middle") by decide +kernel]
  have below : threeLevels.isSubtype ⟨2⟩ ⟨1⟩ = true := by decide +kernel
  have lowest : threeLevels.isSubtype ⟨2⟩ ⟨0⟩ = true := by decide +kernel
  obtain ⟨_, _, _, _, places⟩ := layouts_stable built
  exact ⟨answered, refused, below,
    places ⟨1⟩ "second" .token 1 (by decide +kernel) answered threeLevels later ⟨2⟩ below,
    (layouts_stable whole).1 ⟨2⟩ ⟨0⟩ lowest⟩

end Schema

end CombinatorGrammar
