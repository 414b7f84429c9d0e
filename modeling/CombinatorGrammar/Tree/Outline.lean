import CombinatorGrammar.Text.Quoted
import CombinatorGrammar.Tree.Value

/-!
# Outlines of values

An outline shows a value as indented lines. A node takes a line for its type and then one entry
per field, two columns further right; a list that is not empty stands between brackets, one entry
per item. A field's entry begins with the field's name. Error nodes are marked, enum values read
`Type.alternative`, and an absent placeholder names its type. Spans are not shown.
-/

namespace CombinatorGrammar

/-- What the names in an outline are read from. -/
structure OutlineContext where
  /-- Names of the token kinds. -/
  vocabulary : Vocabulary
  /-- Names of the types and their fields. -/
  schema : Schema
  /-- Texts of the tokens. -/
  names : Interner

namespace OutlineContext

/-- A token as it stands in an outline: the fixed text of its kind, or the kind and its text. -/
def token (cx : OutlineContext) (t : Token) : String :=
  match cx.vocabulary.literal? t.kind with
  | some text => s!"'{text}'"
  | none =>
    if t.kind.isTermination then cx.vocabulary.name t.kind
    else s!"{cx.vocabulary.name t.kind} {Text.quoted (cx.names.text t.text)}"

/-- An enum value as it stands in an outline. -/
def enum (cx : OutlineContext) (type : EnumRef) (alternative : Nat) : String :=
  let declared := ((cx.schema.enum? type).map EnumType.alternatives).getD []
  cx.schema.enumName type ++ "." ++ (declared[alternative]?).getD "?"

/-- A line with the given indentation. -/
def line (indent : Nat) (text : String) : String :=
  "".pushn ' ' indent ++ text ++ "\n"

mutual

/-- The entry of a value that stands at the given indentation behind a label. -/
def entry (cx : OutlineContext) (indent : Nat) (label : String) : Value → String
  | .token t => line indent (label ++ cx.token t)
  | .node type _ fields =>
    let mark := if cx.schema.isError type then " <error>" else ""
    line indent (label ++ cx.schema.name type ++ mark) ++
      cx.fieldEntries (indent + 2) (cx.schema.layout type) fields
  | .list [] => line indent (label ++ "[]")
  | .list (item :: items) =>
    line indent (label ++ "[") ++ cx.entry (indent + 2) "" item ++
      cx.itemEntries (indent + 2) items ++ line indent "]"
  | .enum type alternative _ => line indent (label ++ cx.enum type alternative)
  | .null => line indent (label ++ "null")
  | .absent type => line indent (label ++ s!"null {cx.schema.name type}")

/-- The entries of a node's values behind their fields' names; values without a field, and
fields without a value, have none. -/
def fieldEntries (cx : OutlineContext) (indent : Nat) : List Field → List Value → String
  | field :: fields, value :: values =>
    cx.entry indent (field.name ++ ": ") value ++ cx.fieldEntries indent fields values
  | _, _ => ""

/-- The entries of a list's items. -/
def itemEntries (cx : OutlineContext) (indent : Nat) : List Value → String
  | [] => ""
  | item :: items => cx.entry indent "" item ++ cx.itemEntries indent items

end

/-- The outline of a value. -/
def outline (cx : OutlineContext) (value : Value) : String := cx.entry 0 "" value

end OutlineContext

end CombinatorGrammar
