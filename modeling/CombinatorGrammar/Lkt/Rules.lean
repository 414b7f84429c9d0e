import CombinatorGrammar.Grammar.Basic
import CombinatorGrammar.Lkt.Nodes
import CombinatorGrammar.Lkt.Vocabulary
import CombinatorGrammar.Text.Uppercase

/-!
# The grammar of LKT

Names nest to the right, and a call, an instantiation or an exclamation mark is applied to a name
once. A grammar expression takes at most one suffix. A declaration that cannot be parsed is
skipped token by token, but never past the brace that closes the body it stands in.
-/

namespace CombinatorGrammar.Lkt

open Combinator (lit kind kindText many many1)

/-- The rule at which parsing starts. -/
def entryRule : String := "main_rule"

/-- The rules of the source as a whole, of declarations and of types. -/
def declarationRules : List (String × Combinator) :=
  [("main_rule", .node "LangkitRoot" (.seq [.rule "decls", (kind "Termination").discard])),
    ("id", .node "Id" (kind "Identifier")),
    ("doc_comment", .node "DocComment" (kind "DocComment")),
    ("doc", .node "Doc" (many (.rule "doc_comment"))),
    ("decls", many (.choice [.rule "decl", .skip "ErrorDecl"])),
    ("decl", .node "FullDecl" (.seq [
      .rule "doc",
      many (.rule "decl_annotation"),
      .choice [.rule "class_decl", .rule "fun_decl", .rule "grammar_decl", .rule "grammar_rule",
        .rule "field_decl"]])),
    ("decl_annotation", .node "DeclAnnotation" (.seq [
      lit "@", .rule "id", .opt (.seq [lit "(", .rule "params", lit ")"])])),
    ("class_decl", .node "ClassDecl" (.seq [
      lit "class", .cut, .predicate "is_type_name" (.rule "id"),
      .opt (.seq [lit ":", .rule "type_ref"]),
      lit "\x7b", .protect (.rule "decls") (lit "\x7d"), lit "\x7d"])),
    ("fun_decl", .node "FunDecl" (.seq [
      lit "fun", .cut, .rule "id", lit "(", .rule "fun_arg_list", lit ")", lit ":",
      .rule "type_ref", .opt (.seq [lit "=", .rule "expr"])])),
    ("fun_arg_decl", .node "FunArgDecl" (.seq [
      .rule "id", lit ":", .rule "type_ref", .opt (.seq [lit "=", .rule "expr"])])),
    ("fun_arg_list", (many (.rule "fun_arg_decl")).sep (lit ",")),
    ("lambda_arg_decl", .node "LambdaArgDecl" (.seq [
      .rule "id", .opt (.seq [lit ":", .rule "type_ref"]),
      .opt (.seq [lit "=", .rule "expr"])])),
    ("lambda_arg_list", (many (.rule "lambda_arg_decl")).sep (lit ",")),
    ("field_decl", .node "FieldDecl" (.seq [.rule "id", lit ":", .rule "type_ref"])),
    ("type_ref", .choice [
      .node "GenericTypeRef" (.seq [
        .rule "basic_name", lit "[", (many1 (.rule "type_ref")).sep (lit ","), lit "]"]),
      .node "SimpleTypeRef" (.rule "basic_name")])]

/-- The rules of grammar declarations and their expressions. -/
def grammarRules : List (String × Combinator) :=
  [("grammar_decl", .node "GrammarDecl" (.seq [
      lit "grammar", .cut, .rule "id", lit "\x7b",
      .protect (many (.choice [.rule "grammar_rule", .skip "ErrorDecl"])) (lit "\x7d"),
      lit "\x7d"])),
    ("grammar_rule", .node "GrammarRuleDecl" (.seq [
      .rule "id", lit "<-", .cut, .rule "grammar_expr"])),
    ("grammar_expr", .choice [
      .node "GrammarDontSkip" (.seq [
        .rule "grammar_primary", lit "|>", (kindText "Identifier" "dont_skip").discard,
        lit "(", .rule "grammar_expr", lit ")"]),
      .node "GrammarPredicate" (.seq [
        .rule "grammar_primary", lit "|>", (kindText "Identifier" "when").discard,
        lit "(", .rule "basic_name", lit ")"]),
      .rule "grammar_primary"]),
    ("grammar_primary", .choice [
      .rule "token_literal", .rule "grammar_cut", .rule "grammar_skip", .rule "grammar_null",
      .rule "grammar_list_expr", .rule "grammar_token", .rule "parse_node_expr",
      .rule "grammar_opt", .rule "grammar_or_expr", .rule "grammar_rule_ref",
      .rule "grammar_pick"]),
    ("grammar_pick", .node "GrammarPick" (.seq [
      lit "(", many1 (.rule "grammar_expr"), lit ")"])),
    ("grammar_opt", .choice [
      .node "GrammarOpt" (.seq [lit "?", .rule "grammar_expr"]),
      .node "GrammarOptGroup" (.seq [
        lit "?", lit "(", many (.rule "grammar_expr"), lit ")"])]),
    ("grammar_cut", .node "GrammarCut" (lit "/")),
    ("grammar_or_expr", .node "GrammarOrExpr" (.seq [
      lit "or", lit "(", .opt (lit "|"),
      (many1 (many1 (.rule "grammar_expr"))).sep (lit "|"), lit ")"])),
    ("token_literal", .node "TokenLit" (kind "String")),
    ("parse_node_expr", .node "ParseNodeExpr" (.seq [
      .rule "id", lit "(", many (.rule "grammar_expr"), lit ")"])),
    ("grammar_rule_ref", .node "GrammarRuleRef" (.rule "id")),
    ("grammar_list_expr", .node "GrammarList" (.seq [
      .choice [.enum "ListKind" "one" (lit "list+"), .enum "ListKind" "zero" (lit "list*")],
      lit "(", .rule "grammar_expr", .opt (.seq [lit ",", .rule "grammar_expr"]), lit ")"])),
    ("grammar_skip", .node "GrammarSkip" (.seq [
      (kindText "Identifier" "skip").discard, lit "(", .rule "id", lit ")"])),
    ("grammar_null", .node "GrammarNull" (.seq [lit "null", lit "(", .rule "id", lit ")"])),
    ("grammar_token", .node "GrammarToken" (.seq [
      lit "@", .rule "id", .opt (.seq [lit "(", .rule "token_literal", lit ")"])]))]

/-- The rules of expressions. -/
def expressionRules : List (String × Combinator) :=
  [("expr", .rule "isa_or_primary"),
    ("isa_or_primary", .choice [
      .node "Isa" (.seq [.rule "primary", lit "isa", .rule "type_ref"]),
      .rule "primary"]),
    ("primary", .choice [
      .rule "basic_expr", .rule "null", .node "NumLit" (kind "Number"),
      .node "StringLit" (kind "String"), .rule "lambda_expr",
      .node "ParenExpr" (.seq [lit "(", .rule "expr", lit ")"]), .rule "array_literal"]),
    ("array_literal", .node "ArrayLiteral" (.seq [
      lit "[", (many (.rule "expr")).sep (lit ","), lit "]"])),
    ("basic_expr", .choice [
      .node "CallExpr" (.seq [.rule "basic_name", lit "(", .rule "params", lit ")"]),
      .node "GenericInstantiation" (.seq [.rule "basic_name", lit "[", .rule "params", lit "]"]),
      .node "ErrorOnNull" (.seq [.rule "basic_name", lit "!"]),
      .rule "basic_name"]),
    ("basic_name", .choice [
      .node "DottedName" (.seq [.rule "id", lit ".", .rule "basic_name"]),
      .rule "id"]),
    ("lambda_expr", .node "LambdaExpr" (.seq [
      lit "(", .rule "lambda_arg_list", lit ")", lit "=>", .cut, .rule "expr"])),
    ("null", .node "NullLit" (lit "null").keep),
    ("params", (many1 (.rule "param")).sep (lit ",")),
    ("param", .node "Param" (.seq [.opt (.seq [.rule "id", lit "="]), .rule "expr"]))]

/-- All rules of LKT. -/
def rules : List (String × Combinator) := declarationRules ++ grammarRules ++ expressionRules

/-- Whether a value is an identifier that names a type: its token begins with an uppercase
character. -/
def isTypeName (_schema : Schema) (names : Interner) : Value → Bool
  | .node _ _ (.token t :: _) =>
    (names.text t.text).toList.head?.any CodePoints.uppercase.contains
  | _ => false

/-- The grammar of LKT. -/
def grammar : Except Defect Grammar :=
  Grammar.assemble entryRule vocabulary declarations rules [⟨"is_type_name", isTypeName⟩]

end CombinatorGrammar.Lkt
