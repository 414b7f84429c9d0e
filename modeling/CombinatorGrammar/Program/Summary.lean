import CombinatorGrammar.Program.Basic

/-!
# Summaries of programs

A summary shows the enum types with their alternatives, the node types with their own fields, and
the rules with the numbers of values that they yield, after a line that counts them.
-/

namespace CombinatorGrammar

namespace Schema

/-- A kind of field as it stands in a summary: the name of the type, in brackets for a list. -/
def kindText (s : Schema) : FieldKind → String
  | .token => "token"
  | .node type => s.name type
  | .enum type => s.enumName type
  | .list element => s!"[{s.kindText element}]"

/-- An enum type as it stands in a summary. -/
def enumText (type : EnumType) : String :=
  s!"enum {type.name} \x7b " ++ ", ".intercalate type.alternatives ++ " \x7d\n"

/-- A node type as it stands in a summary: its parent, its flags and its own fields. -/
def nodeText (s : Schema) (type : NodeType) : String :=
  let parent := match type.parent with
    | some ref => s!" : {s.name ref}"
    | none => ""
  let flags := (if type.isAbstract then " (abstract)" else "") ++
    (if type.isError then " (error)" else "")
  let field (f : Field) : String := s!"  {f.name}: {s.kindText f.kind}\n"
  s!"node {type.name}{parent}{flags}\n" ++ String.join (type.ownFields.map field)

end Schema

/-- The summary of a program. -/
def Program.summary (p : Program) : String :=
  let nodes := p.schema.nodes
  let enums := p.schema.enums
  let head := s!"grammar {p.ruleName p.entry}: {p.rules.size} rules, " ++
    s!"{nodes.size} node types, {enums.size} enums\n"
  let rule (r : Rule) : String := s!"rule {r.name} -> {p.arity r.body}\n"
  head ++ "\n" ++ String.join (enums.toList.map Schema.enumText) ++
    "\n" ++ String.join (nodes.toList.map p.schema.nodeText) ++
    "\n" ++ String.join (p.rules.toList.map rule)

end CombinatorGrammar
