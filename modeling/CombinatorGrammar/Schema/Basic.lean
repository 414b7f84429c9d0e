/-!
# Node types, enum types and their fields

A schema lists the node types that a grammar can build. A node type has at most one parent, which
was declared before it, so that walking towards the root ends. The layout of a node type is its
ancestors' fields, root first, followed by its own: an instance of a subtype begins with the
fields of the supertype. Enum types are listed beside the node types.
-/

namespace CombinatorGrammar

/-- A node type, by its number in a schema. -/
structure NodeRef where
  /-- The number itself. -/
  index : Nat
  deriving DecidableEq, Inhabited

/-- An enum type, by its number in a schema. -/
structure EnumRef where
  /-- The number itself. -/
  index : Nat
  deriving DecidableEq, Inhabited

/-- What a field of a node holds. -/
inductive FieldKind where
  /-- A token. -/
  | token
  /-- A node of the given type or one of its subtypes. -/
  | node (type : NodeRef)
  /-- A value of the given enum type. -/
  | enum (type : EnumRef)
  /-- A list of values of one kind. -/
  | list (element : FieldKind)
  deriving DecidableEq

/-- A named place of a node. -/
structure Field where
  /-- The name of the place. -/
  name : String
  /-- What the place holds. -/
  kind : FieldKind
  deriving DecidableEq

/-- A declared node type. -/
structure NodeType where
  /-- The name of the type. -/
  name : String
  /-- The type it derives from. -/
  parent : Option NodeRef
  /-- Whether nodes of this very type are never built. -/
  isAbstract : Bool
  /-- Whether a node of this type stands for a token that was skipped. -/
  isError : Bool
  /-- The fields declared on this type itself. -/
  ownFields : List Field
  deriving DecidableEq

/-- A declared enum type. -/
structure EnumType where
  /-- The name of the type. -/
  name : String
  /-- Its alternatives, in order. -/
  alternatives : List String
  deriving DecidableEq

/-- The node types and enum types of a grammar, in the order of their declaration. -/
structure Schema where
  /-- The node types. -/
  nodes : Array NodeType
  /-- The enum types. -/
  enums : Array EnumType
  /-- A parent is declared before its children. -/
  parent_lt : ∀ {i : Nat} {type : NodeType} {parent : NodeRef},
    nodes[i]? = some type → type.parent = some parent → parent.index < i

namespace Schema

/-- The schema without types. -/
def empty : Schema where
  nodes := #[]
  enums := #[]
  parent_lt := by simp

/-- Whether two schemas declare the same types in the same order. -/
def same (s t : Schema) : Bool := s.nodes == t.nodes && s.enums == t.enums

/-- The declaration of a node type. -/
def node? (s : Schema) (ref : NodeRef) : Option NodeType := s.nodes[ref.index]?

/-- The declaration of an enum type. -/
def enum? (s : Schema) (ref : EnumRef) : Option EnumType := s.enums[ref.index]?

/-- The node type of a name. -/
def lookup? (s : Schema) (name : String) : Option NodeRef :=
  (s.nodes.findIdx? fun type => type.name == name).map NodeRef.mk

/-- A type that is found by its name is one of the schema. -/
theorem lookup?_lt {s : Schema} {name : String} {ref : NodeRef} (h : s.lookup? name = some ref) :
    ref.index < s.nodes.size := by
  obtain ⟨i, found, rfl⟩ := Option.map_eq_some_iff.mp h
  exact (Array.findIdx?_eq_some_iff_getElem.mp found).1

/-- The enum type of a name. -/
def lookupEnum? (s : Schema) (name : String) : Option EnumRef :=
  (s.enums.findIdx? fun type => type.name == name).map EnumRef.mk

/-- The name of a node type; a type of another schema is called `?`. -/
def name (s : Schema) (ref : NodeRef) : String := ((s.node? ref).map NodeType.name).getD "?"

/-- The name of an enum type; a type of another schema is called `?`. -/
def enumName (s : Schema) (ref : EnumRef) : String := ((s.enum? ref).map EnumType.name).getD "?"

/-- The type that a node type derives from. -/
def parent? (s : Schema) (ref : NodeRef) : Option NodeRef := (s.node? ref).bind NodeType.parent

/-- Whether nodes of the type are never built. -/
def isAbstract (s : Schema) (ref : NodeRef) : Bool := (s.node? ref).any NodeType.isAbstract

/-- Whether a node of the type stands for a skipped token. -/
def isError (s : Schema) (ref : NodeRef) : Bool := (s.node? ref).any NodeType.isError

/-- The fields declared on a node type itself. -/
def ownFields (s : Schema) (ref : NodeRef) : List Field :=
  ((s.node? ref).map NodeType.ownFields).getD []

/-- All node types, in the order of their declaration. -/
def refs (s : Schema) : List NodeRef := (List.range s.nodes.size).map NodeRef.mk

/-- A parent is declared before its child, so walks to the ancestors end. -/
theorem parent?_lt {s : Schema} {ref parent : NodeRef} (h : s.parent? ref = some parent) :
    parent.index < ref.index := by
  obtain ⟨type, found, derived⟩ := Option.bind_eq_some_iff.mp h
  exact s.parent_lt found derived

/-- A node type and its ancestors, nearest first. -/
def lineage (s : Schema) (ref : NodeRef) : List NodeRef :=
  match _derived : s.parent? ref with
  | some parent => ref :: s.lineage parent
  | none => [ref]
termination_by ref.index
decreasing_by exact parent?_lt ‹_›

/-- Whether the first type is the second or derives from it. -/
def isSubtype (s : Schema) (sub sup : NodeRef) : Bool := (s.lineage sub).contains sup

/-- The nearest type that both types are or derive from. -/
def commonAncestor? (s : Schema) (a b : NodeRef) : Option NodeRef :=
  (s.lineage a).find? fun candidate => s.isSubtype b candidate

/-- The types that strictly derive from a type, in the order of their declaration. -/
def strictSubtypes (s : Schema) (ref : NodeRef) : List NodeRef :=
  s.refs.filter fun other => other != ref && s.isSubtype other ref

/-- The layout of a node type: the fields of its ancestors, root first, then its own. -/
def layout (s : Schema) (ref : NodeRef) : List Field :=
  (s.lineage ref).reverse.flatMap s.ownFields

/-- The number of fields in the layout of a node type. -/
def fieldCount (s : Schema) (ref : NodeRef) : Nat := (s.layout ref).length

/-- The place of a field in the layout of a node type. -/
def fieldIndex? (s : Schema) (ref : NodeRef) (field : String) : Option Nat :=
  (s.layout ref).findIdx? fun f => f.name == field

/-- The place of an alternative in an enum type. -/
def alternativeIndex? (s : Schema) (ref : EnumRef) (alternative : String) : Option Nat :=
  (s.enum? ref).bind fun type => type.alternatives.findIdx? (· == alternative)

/-- A kind of field as it reads in messages. -/
def describeKind (s : Schema) : FieldKind → String
  | .token => "a token"
  | .node type => s!"a `{s.name type}` node"
  | .enum type => s!"a `{s.enumName type}` value"
  | .list element => s!"a list of {s.describeKind element}"

end Schema

end CombinatorGrammar
