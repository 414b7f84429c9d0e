import CombinatorGrammar.Grammar.Defect
import CombinatorGrammar.Schema.Basic

/-!
# Declaring types and fields

A schema grows by three kinds of declarations: a node type, a field of a node type and an enum
type. Each is either refused with one defect, and then nothing has changed, or answered with the
number of what it added. Field names are unique along every line of inheritance, error node types
never have fields, and a type takes no field once a subtype has fields of its own, so a field's
place in a layout never moves.
-/

namespace CombinatorGrammar

/-- A kind of field with its types given by name. -/
inductive FieldKindName where
  | token
  | node (type : String)
  | enum (type : String)
  | list (element : FieldKindName)
  deriving DecidableEq

/-- One step in building a schema. -/
inductive Declaration where
  /-- A node type with its parent and its flags. -/
  | node (name : String) (parent : Option String) (isAbstract isError : Bool)
  /-- A field of a declared node type. -/
  | field (type name : String) (kind : FieldKindName)
  /-- An enum type with its alternatives. -/
  | enum (name : String) (alternatives : List String)
  deriving DecidableEq

namespace Schema

/-- The schema with one more node type whose parent, if any, it has already. -/
def pushNode (s : Schema) (type : NodeType)
    (known : ∀ parent, type.parent = some parent → parent.index < s.nodes.size) : Schema where
  nodes := s.nodes.push type
  enums := s.enums
  parent_lt := by
    intro i other parent found derived
    rw [Array.getElem?_push] at found
    split at found
    · next last =>
      rw [Option.some.injEq] at found
      subst found
      rw [last]
      exact known parent derived
    · exact s.parent_lt found derived

/-- Declare a node type: its name is new, its parent is declared, and an error node type does not
derive from a type with fields. -/
def declareNode (s : Schema) (name : String) (parent : Option String)
    (isAbstract isError : Bool) : Except Defect (NodeRef × Schema) :=
  if (s.lookup? name).isSome then .error (.duplicateNodeType name)
  else
    let answer : NodeRef := ⟨s.nodes.size⟩
    match parent with
    | none => .ok (answer, s.pushNode ⟨name, none, isAbstract, isError, []⟩ (by simp))
    | some parentName =>
      match known : s.lookup? parentName with
      | none => .error (.unknownParent name parentName)
      | some ref =>
        if isError && s.fieldCount ref != 0 then .error (.errorNodeField name)
        else
          .ok (answer, s.pushNode ⟨name, some ref, isAbstract, isError, []⟩ (by
            intro p h
            rw [Option.some.injEq] at h
            rw [← h]
            exact lookup?_lt known))

/-- The schema in which a node type has one more field of its own. -/
def pushField (s : Schema) (ref : NodeRef) (field : Field) : Schema where
  nodes := s.nodes.modify ref.index fun type =>
    { type with ownFields := type.ownFields ++ [field] }
  enums := s.enums
  parent_lt := by
    intro i type parent found derived
    rw [Array.getElem?_modify] at found
    split at found
    · obtain ⟨before, held, rfl⟩ := Option.map_eq_some_iff.mp found
      exact s.parent_lt held derived
    · exact s.parent_lt found derived

/-- Why a node type takes no field of a name: it or a subtype is an error node type, the name is
taken by an ancestor or a subtype, or a subtype has fields that would have to move. -/
def fieldDefect? (s : Schema) (ref : NodeRef) (name : String) : Option Defect :=
  let subtypes := s.strictSubtypes ref
  if s.isError ref then some (.errorNodeField (s.name ref))
  else match subtypes.find? s.isError with
    | some errorType => some (.errorNodeField (s.name errorType))
    | none =>
      let taken := (s.layout ref).any (fun f => f.name == name) ||
        subtypes.any fun sub => (s.ownFields sub).any fun f => f.name == name
      if taken then some (.duplicateField (s.name ref) name)
      else (subtypes.find? fun sub => !(s.ownFields sub).isEmpty).map fun sub =>
        .fieldAfterSubtype (s.name ref) name (s.name sub)

/-- Add a field at the end of a node type's layout; the answer is its place there. -/
def addField (s : Schema) (ref : NodeRef) (name : String) (kind : FieldKind) :
    Except Defect (Nat × Schema) :=
  match s.fieldDefect? ref name with
  | some defect => .error defect
  | none => .ok (s.fieldCount ref, s.pushField ref ⟨name, kind⟩)

/-- Declare an enum type, whose name is new among the enum types. -/
def declareEnum (s : Schema) (name : String) (alternatives : List String) :
    Except Defect (EnumRef × Schema) :=
  if (s.lookupEnum? name).isSome then .error (.duplicateEnumType name)
  else .ok (⟨s.enums.size⟩, { s with enums := s.enums.push ⟨name, alternatives⟩ })

/-- The declared node type of a name. -/
def nodeRef (s : Schema) (name : String) : Except Defect NodeRef :=
  match s.lookup? name with
  | some ref => .ok ref
  | none => .error (.unknownNodeType name)

/-- The declared enum type of a name. -/
def enumRef (s : Schema) (name : String) : Except Defect EnumRef :=
  match s.lookupEnum? name with
  | some ref => .ok ref
  | none => .error (.unknownEnumType name)

/-- The kind of field that a kind with names stands for. -/
def fieldKind (s : Schema) : FieldKindName → Except Defect FieldKind
  | .token => .ok .token
  | .node type => (s.nodeRef type).map .node
  | .enum type => (s.enumRef type).map .enum
  | .list element => (s.fieldKind element).map .list

/-- Follow one declaration; the answer is the number of the type or the place of the field. In a
field, the type is looked up before the kind. -/
def declare (s : Schema) : Declaration → Except Defect (Nat × Schema)
  | .node name parent isAbstract isError =>
    (s.declareNode name parent isAbstract isError).map fun added => (added.1.index, added.2)
  | .field type name kind => do s.addField (← s.nodeRef type) name (← s.fieldKind kind)
  | .enum name alternatives =>
    (s.declareEnum name alternatives).map fun added => (added.1.index, added.2)

/-- The schema of a list of declarations, or the defect of the first that is refused. -/
def ofDeclarations (declarations : List Declaration) : Except Defect Schema :=
  declarations.foldlM (fun s declaration => (s.declare declaration).map Prod.snd) empty

end Schema

end CombinatorGrammar
