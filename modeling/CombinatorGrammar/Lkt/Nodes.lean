import CombinatorGrammar.Schema.Declaration

/-!
# Node types of LKT

A tree of an LKT source has the nodes declared here. All derive from `LKNode`. Declarations that
could not be parsed are `ErrorDecl` nodes.
-/

namespace CombinatorGrammar.Lkt

/-- An abstract node type. -/
private def abstractNode (name : String) (parent : Option String) : Declaration :=
  .node name parent true false

/-- A node type that derives from another. -/
private def node (name parent : String) : Declaration := .node name (some parent) false false

/-- The node types, parents before their children. -/
def nodeTypes : List Declaration :=
  [abstractNode "LKNode" none,
    node "LangkitRoot" "LKNode",
    node "FullDecl" "LKNode",
    node "Doc" "LKNode",
    node "DocComment" "LKNode",
    node "DeclAnnotation" "LKNode",
    node "Param" "LKNode",
    -- declarations
    abstractNode "Decl" (some "LKNode"),
    .node "ErrorDecl" (some "Decl") false true,
    abstractNode "BaseGrammarDecl" (some "Decl"),
    node "GrammarDecl" "BaseGrammarDecl",
    node "GrammarRuleDecl" "Decl",
    node "ClassDecl" "Decl",
    node "FunDecl" "Decl",
    abstractNode "ValDecl" (some "Decl"),
    node "FunArgDecl" "ValDecl",
    node "LambdaArgDecl" "ValDecl",
    node "FieldDecl" "ValDecl",
    -- types
    abstractNode "TypeRef" (some "LKNode"),
    node "SimpleTypeRef" "TypeRef",
    node "GenericTypeRef" "TypeRef",
    -- expressions
    abstractNode "Expr" (some "LKNode"),
    abstractNode "Name" (some "Expr"),
    node "Id" "Name",
    node "DottedName" "Name",
    node "NullLit" "Expr",
    node "NumLit" "Expr",
    node "StringLit" "Expr",
    node "ArrayLiteral" "Expr",
    node "Isa" "Expr",
    node "ParenExpr" "Expr",
    node "CallExpr" "Expr",
    node "GenericInstantiation" "Expr",
    node "ErrorOnNull" "Expr",
    node "LambdaExpr" "Expr",
    -- grammar expressions
    abstractNode "GrammarExpr" (some "Expr"),
    node "ParseNodeExpr" "GrammarExpr",
    node "GrammarRuleRef" "GrammarExpr",
    node "TokenLit" "GrammarExpr",
    node "GrammarPick" "GrammarExpr",
    node "GrammarToken" "GrammarExpr",
    node "GrammarOrExpr" "GrammarExpr",
    node "GrammarOpt" "GrammarExpr",
    node "GrammarOptGroup" "GrammarExpr",
    node "GrammarCut" "GrammarExpr",
    node "GrammarNull" "GrammarExpr",
    node "GrammarSkip" "GrammarExpr",
    node "GrammarPredicate" "GrammarExpr",
    node "GrammarDontSkip" "GrammarExpr",
    node "GrammarList" "GrammarExpr"]

/-- A field that holds a list of nodes. -/
private def nodes (type : String) : FieldKindName := .list (.node type)

/-- The fields, in the order of each type's layout. -/
def fields : List Declaration :=
  [.field "LangkitRoot" "decls" (nodes "LKNode"),
    .field "FullDecl" "doc" (.node "Doc"),
    .field "FullDecl" "decl_annotations" (nodes "DeclAnnotation"),
    .field "FullDecl" "decl" (.node "Decl"),
    .field "Doc" "lines" (nodes "DocComment"),
    .field "DocComment" "token" .token,
    .field "DeclAnnotation" "name" (.node "Id"),
    .field "DeclAnnotation" "params" (nodes "Param"),
    .field "Param" "name" (.node "Id"),
    .field "Param" "value" (.node "Expr"),
    .field "GrammarDecl" "name" (.node "Id"),
    .field "GrammarDecl" "rules" (nodes "Decl"),
    .field "GrammarRuleDecl" "name" (.node "Id"),
    .field "GrammarRuleDecl" "expr" (.node "GrammarExpr"),
    .field "ClassDecl" "name" (.node "Id"),
    .field "ClassDecl" "base_class" (.node "TypeRef"),
    .field "ClassDecl" "decls" (nodes "LKNode"),
    .field "FunDecl" "name" (.node "Id"),
    .field "FunDecl" "args" (nodes "FunArgDecl"),
    .field "FunDecl" "return_type" (.node "TypeRef"),
    .field "FunDecl" "body" (.node "Expr"),
    .field "ValDecl" "name" (.node "Id"),
    .field "ValDecl" "type" (.node "TypeRef"),
    .field "FunArgDecl" "default_val" (.node "Expr"),
    .field "LambdaArgDecl" "default_val" (.node "Expr"),
    .field "SimpleTypeRef" "type_name" (.node "Name"),
    .field "GenericTypeRef" "type_name" (.node "Name"),
    .field "GenericTypeRef" "params" (nodes "TypeRef"),
    .field "Id" "token" .token,
    .field "DottedName" "prefix" (.node "Name"),
    .field "DottedName" "suffix" (.node "Name"),
    .field "NullLit" "token" .token,
    .field "NumLit" "token" .token,
    .field "StringLit" "token" .token,
    .field "ArrayLiteral" "exprs" (nodes "Expr"),
    .field "Isa" "expr" (.node "Expr"),
    .field "Isa" "dest_type" (.node "TypeRef"),
    .field "ParenExpr" "expr" (.node "Expr"),
    .field "CallExpr" "name" (.node "Expr"),
    .field "CallExpr" "args" (nodes "Param"),
    .field "GenericInstantiation" "name" (.node "Expr"),
    .field "GenericInstantiation" "args" (nodes "Param"),
    .field "ErrorOnNull" "expr" (.node "Expr"),
    .field "LambdaExpr" "params" (nodes "LambdaArgDecl"),
    .field "LambdaExpr" "body" (.node "Expr"),
    .field "ParseNodeExpr" "node_name" (.node "Id"),
    .field "ParseNodeExpr" "sub_exprs" (nodes "GrammarExpr"),
    .field "GrammarRuleRef" "node_name" (.node "Id"),
    .field "TokenLit" "token" .token,
    .field "GrammarPick" "exprs" (nodes "GrammarExpr"),
    .field "GrammarToken" "token_name" (.node "Id"),
    .field "GrammarToken" "expr" (.node "TokenLit"),
    .field "GrammarOrExpr" "sub_exprs" (.list (nodes "GrammarExpr")),
    .field "GrammarOpt" "expr" (.node "GrammarExpr"),
    .field "GrammarOptGroup" "expr" (nodes "GrammarExpr"),
    .field "GrammarNull" "name" (.node "Id"),
    .field "GrammarSkip" "name" (.node "Id"),
    .field "GrammarPredicate" "expr" (.node "GrammarExpr"),
    .field "GrammarPredicate" "prop_ref" (.node "Name"),
    .field "GrammarDontSkip" "expr" (.node "GrammarExpr"),
    .field "GrammarDontSkip" "dont_skip" (.node "GrammarExpr"),
    .field "GrammarList" "kind" (.enum "ListKind"),
    .field "GrammarList" "expr" (.node "GrammarExpr"),
    .field "GrammarList" "sep" (.node "GrammarExpr")]

/-- The kinds of lists: those with at least one element, and others. -/
def listKind : Declaration := .enum "ListKind" ["one", "zero"]

/-- All declarations of LKT. -/
def declarations : List Declaration := listKind :: nodeTypes ++ fields

end CombinatorGrammar.Lkt
