import CombinatorGrammar.Schema.Basic
import CombinatorGrammar.Token.Stream

/-!
# Values of a parse

A combinator yields values: tokens, nodes, lists, enum values, and two forms of an absent value.
A plain null stands where no node type is known; an absent placeholder names its node type. A
value's span covers all of its tokens, and a value without tokens has none.
-/

namespace CombinatorGrammar

/-- What a combinator yields. -/
inductive Value where
  /-- A token of the input. -/
  | token (token : Token)
  /-- A node with its fields in the order of its type's layout. -/
  | node (type : NodeRef) (span : Span) (fields : List Value)
  /-- A list of values. -/
  | list (items : List Value)
  /-- An alternative of an enum type. -/
  | enum (type : EnumRef) (alternative : Nat) (span : Span)
  /-- An optional part that is not there. -/
  | null
  /-- A node of the given type that is not there. -/
  | absent (type : NodeRef)
  deriving Inhabited

namespace Value

/-- The span that covers two optional spans. -/
def mergeSpans? : Option Span → Option Span → Option Span
  | some s, some t => some (s.merge t)
  | some s, none => some s
  | none, t => t

mutual

/-- The part of the source that a value covers, if it covers any. -/
def span? : Value → Option Span
  | .token t => some t.span
  | .node _ span _ => some span
  | .list items => spanOfList? items
  | .enum _ _ span => some span
  | .null => none
  | .absent _ => none

/-- The part of the source that a list of values covers, if it covers any. -/
def spanOfList? : List Value → Option Span
  | [] => none
  | value :: rest => mergeSpans? value.span? (spanOfList? rest)

end

/-- Whether the value is one of the two absent forms. -/
def isAbsent : Value → Bool
  | .null => true
  | .absent _ => true
  | _ => false

/-- The type of a node or of an absent placeholder. -/
def nodeType? : Value → Option NodeRef
  | .node type _ _ => some type
  | .absent type => some type
  | _ => none

/-- The token, if the value is one. -/
def token? : Value → Option Token
  | .token t => some t
  | _ => none

/-- The items, if the value is a list. -/
def items? : Value → Option (List Value)
  | .list items => some items
  | _ => none

/-- The value of a node's field, own or inherited, by name. -/
def field? (schema : Schema) (name : String) : Value → Option Value
  | .node type _ fields => (schema.fieldIndex? type name).bind fun i => fields[i]?
  | _ => none

/-- Whether the value is a node of the given type or a subtype; only nodes have an answer. -/
def isA? (schema : Schema) (sup : NodeRef) : Value → Option Bool
  | .node type _ _ => some (schema.isSubtype type sup)
  | _ => none

/-- Whether a node stands for a skipped token; only nodes have an answer. -/
def isError? (schema : Schema) : Value → Option Bool
  | .node type _ _ => some (schema.isError type)
  | _ => none

/-- A null in the form that its field asks for: a placeholder of the field's node type, or the
empty list. Other values stay as they are. -/
def fitNull : FieldKind → Value → Value
  | .node type, .null => .absent type
  | .list _, .null => .list []
  | _, value => value

/-- One step from a value to a part of it. -/
inductive Step where
  /-- To the field of a node. -/
  | field (name : String)
  /-- To the item of a list. -/
  | item (index : Nat)
  deriving DecidableEq

/-- The part of a value that one step leads to. -/
def step? (schema : Schema) (value : Value) : Step → Option Value
  | .field name => value.field? schema name
  | .item index => value.items?.bind fun items => items[index]?

/-- The part of a value that a path leads to. -/
def follow? (schema : Schema) (value : Value) (path : List Step) : Option Value :=
  path.foldlM (fun value step => value.step? schema step) value

end Value

end CombinatorGrammar
