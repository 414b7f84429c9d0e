import CombinatorGrammar.Lkt.FrontEnd
import CombinatorGrammar.Proofs.Program.Fixpoint
import CombinatorGrammar.Proofs.Program.ItemList
import CombinatorGrammar.Proofs.Program.OptionalGroups
import CombinatorGrammar.Proofs.Program.Skipping
import CombinatorGrammar.Proofs.Schema.FieldLists

/-!
# What is known of the LKT grammar

The grammar of LKT is a list of declarations, any of which may be skipped. Here stands what the
proofs about runs ask of it, and one evaluation finds that the resolved grammar is so.
-/

namespace CombinatorGrammar

namespace Lkt

variable (p : Program)

/-- The rules that descend into others before they take a token, those of one level together; each
level descends into lower ones only. -/
def levels : List (List String) :=
  [["doc", "grammar_rule", "field_decl", "fun_arg_decl", "lambda_arg_decl", "basic_name",
      "parse_node_expr", "grammar_rule_ref"],
    ["decl", "fun_arg_list", "lambda_arg_list", "type_ref", "basic_expr", "grammar_primary"],
    ["decls", "grammar_expr", "primary"],
    ["main_rule", "isa_or_primary"],
    ["expr"],
    ["param"],
    ["params"]]

/-- What the LKT rules do before the first token: documentation and lists may be empty, and a list
of declarations may pass on a failure of one of them. -/
def idleFacts : IdleFacts where
  idles ref :=
    ["main_rule", "doc", "decls", "fun_arg_list", "lambda_arg_list"].contains (p.ruleName ref)
  breaks ref := ["main_rule", "decls"].contains (p.ruleName ref)
  rank ref := ((levels.findIdx? fun level => level.contains (p.ruleName ref)).map (· + 1)).getD 0

/-- Tokens are skipped in lists of declarations and of grammar rules, each of which a brace
closes. -/
def skipClasses : SkipClasses where
  plain ref :=
    !(["main_rule", "decls", "decl", "class_decl", "grammar_decl"].contains (p.ruleName ref))
  closed ref := ["decl", "class_decl", "grammar_decl"].contains (p.ruleName ref)
  opens ref := p.ruleName ref == "decls"

/-- The rules whose values are lists of the values of others stand above those. -/
def listRank (ref : RuleRef) : Nat :=
  if ["decls", "fun_arg_list", "lambda_arg_list", "params"].contains (p.ruleName ref) then 1 else 0

/-- The program is a list of declarations whose nodes have the names of LKT. -/
structure Declares (l : ItemList) : Prop where
  rules : l.Rules p
  root : p.schema.name l.root = "LangkitRoot"
  node : p.schema.name l.node = "FullDecl"
  error : p.schema.name l.error = "ErrorDecl"
  /-- A declaration takes a token. -/
  not_idles : (idleFacts p).idles l.item = false
  /-- A declaration that fails behind a cut has taken a token. -/
  not_breaks : (idleFacts p).breaks l.item = false
  opens : (skipClasses p).opens l.list = true

/-- Whether the program is a list of declarations whose nodes have the names of LKT. -/
def declares : Bool :=
  p.itemList?.any fun l =>
    p.schema.name l.root == "LangkitRoot" && p.schema.name l.node == "FullDecl" &&
      p.schema.name l.error == "ErrorDecl" && !(idleFacts p).idles l.item &&
      !(idleFacts p).breaks l.item && (skipClasses p).opens l.list

/-- The check finds the declarations that a program makes. -/
theorem exists_declares {p : Program} (h : declares p = true) : ∃ l, Declares p l := by
  obtain ⟨l, found, facts⟩ := Option.any_eq_true _ _ |>.mp h
  simp only [Bool.and_eq_true, Bool.not_eq_true', beq_iff_eq] at facts
  obtain ⟨⟨⟨⟨⟨root, node⟩, error⟩, idles⟩, breaks⟩, opens⟩ := facts
  exact ⟨l, ItemList.rules_of_itemList? found, root, node, error, idles, breaks, opens⟩

/-- The rules of grammar expressions and those that they refer to. -/
def grammarExpressions (ref : RuleRef) : Bool :=
  ["grammar_expr", "grammar_primary", "grammar_pick", "grammar_opt", "grammar_cut",
    "grammar_or_expr", "grammar_rule_ref", "grammar_list_expr", "grammar_skip", "grammar_null",
    "grammar_token", "token_literal", "parse_node_expr", "id", "basic_name"].contains
      (p.ruleName ref)

/-- The program has two ways to write what is optional, whose nodes have the names of LKT. -/
structure Groups (l : OptionalGroups) : Prop where
  rules : l.Rules p
  single : p.schema.lookup? "GrammarOpt" = some l.single
  group : p.schema.lookup? "GrammarOptGroup" = some l.group
  /-- Grammar expressions come to no cut. -/
  uncut : ∃ uncut, p.Uncut uncut ∧ uncut l.expr = true

/-- The two ways of the program to write what is optional, if there are. -/
def groups? : Option OptionalGroups := do
  p.optionalGroups? (← p.lookupRule? "grammar_opt") (← p.lookupRule? "grammar_primary")
    (← p.lookupRule? "grammar_pick")

/-- Whether the program has two ways to write what is optional, whose nodes have the names of
LKT. -/
def hasGroups : Bool :=
  (groups? p).any fun l =>
    l.fit p && p.schema.lookup? "GrammarOpt" == some l.single &&
      p.schema.lookup? "GrammarOptGroup" == some l.group &&
      decide (p.Uncut (grammarExpressions p)) && grammarExpressions p l.expr

/-- The check finds the layout of the groups of a program. -/
theorem exists_groups {p : Program} (h : hasGroups p = true) : ∃ l, Groups p l := by
  obtain ⟨l, found, facts⟩ := Option.any_eq_true _ _ |>.mp h
  simp only [Bool.and_eq_true, beq_iff_eq, decide_eq_true_eq] at facts
  obtain ⟨⟨⟨⟨fit, single⟩, group⟩, uncut⟩, expr⟩ := facts
  obtain ⟨opt, _, found⟩ := Option.bind_eq_some_iff.mp found
  obtain ⟨primary, _, found⟩ := Option.bind_eq_some_iff.mp found
  obtain ⟨pick, _, found⟩ := Option.bind_eq_some_iff.mp found
  exact ⟨l, OptionalGroups.rules_of_optionalGroups? found fit, single, group, _, uncut, expr⟩

/-- The tokens of a grammar declaration with one rule that is a string, all at one place. -/
def grammarTokens : TokenStream := tokensOf [5, 1, 13, 1, 19, 2, 14]

/-- Whether the grammar declaration is read without recovery. -/
def readsGrammar (f : FrontEnd) : Bool :=
  match f.program.parse f.names grammarTokens ⟨16, false⟩ with
  | .ok output => output.root.isSome
  | .error _ => false

/-- A front end that passes the check reads a grammar without recovery. -/
theorem parse_of_readsGrammar {f : FrontEnd} (h : readsGrammar f = true) :
    ∃ output root, f.program.parse f.names grammarTokens ⟨16, false⟩ = .ok output ∧
      output.root = some root := by
  unfold readsGrammar at h
  split at h
  · next output ran =>
    obtain ⟨root, found⟩ := Option.isSome_iff_exists.mp h
    exact ⟨output, root, ran, found⟩
  · cases h

/-- The tokens of a grammar declaration with two rules: a mark in front of empty parentheses, and a
mark in front of parentheses around a string. -/
def optionalTokens : TokenStream :=
  tokensOf [5, 1, 13, 1, 19, 23, 15, 16, 1, 19, 23, 15, 2, 16, 14]

/-- The type of the expression of a grammar rule, in the tree of a single grammar declaration. -/
def expressionType? (root : Value) (rule : Nat) : Option NodeRef :=
  (root.follow? p.schema [.field "decls", .item 0, .field "decl", .field "rules", .item rule,
    .field "expr"]).bind Value.nodeType?

/-- Whether the expressions of the two rules are read in different ways. -/
def readsOptionals (f : FrontEnd) : Bool :=
  match f.program.parse f.names optionalTokens ⟨16, false⟩ with
  | .ok ⟨some root, _⟩ =>
    expressionType? f.program root 0 == f.program.schema.lookup? "GrammarOptGroup" &&
      expressionType? f.program root 1 == f.program.schema.lookup? "GrammarOpt"
  | _ => false

theorem parse_of_readsOptionals {f : FrontEnd} (h : readsOptionals f = true) :
    ∃ output root, f.program.parse f.names optionalTokens ⟨16, false⟩ = .ok output ∧
      output.root = some root ∧
      expressionType? f.program root 0 = f.program.schema.lookup? "GrammarOptGroup" ∧
      expressionType? f.program root 1 = f.program.schema.lookup? "GrammarOpt" := by
  unfold readsOptionals at h
  split at h
  · next root _ ran =>
    simp only [Bool.and_eq_true, beq_iff_eq] at h
    exact ⟨_, root, ran, rfl, h⟩
  · cases h

/-- Whether two sources are read without recovery and have one outline. -/
def outlinesAgree (f : FrontEnd) (source source' : String) : Bool :=
  match f.parse source ⟨16, false⟩, f.parse source' ⟨16, false⟩ with
  | .ok (⟨some root, _⟩, lexed), .ok (⟨some root', _⟩, lexed') =>
    (f.program.outlineContext lexed.names).outline root ==
      (f.program.outlineContext lexed'.names).outline root'
  | _, _ => false

/-- A grammar declaration on one line. -/
def grammarLine : String := "grammar g \x7b m <- \"a\" \x7d"

/-- The grammar declaration on several lines, with a comment. -/
def grammarLines : String := "grammar g \x7b\n\n  # all\n  m <- \"a\"\n\x7d\n"

/-- What is known of the program of LKT. -/
structure Charted (f : FrontEnd) : Prop where
  inferred : f.program.Inferred
  idle : (idleFacts f.program).Fits f.program
  classes : (skipClasses f.program).Fits (idleFacts f.program) f.program
  openly : f.program.SkipsOpenly
  unnested : RuleSignatures.Unnested (f.program.rules.toList.map Rule.body)
  declares : ∃ l, Declares f.program l
  groups : ∃ l, Groups f.program l
  /-- A grammar declaration is read without recovery. -/
  reads : ∃ output root, f.program.parse f.names grammarTokens ⟨16, false⟩ = .ok output ∧
    output.root = some root
  /-- So is one with both ways to write what is optional. -/
  reads_optionals : ∃ output root,
    f.program.parse f.names optionalTokens ⟨16, false⟩ = .ok output ∧ output.root = some root ∧
      expressionType? f.program root 0 = f.program.schema.lookup? "GrammarOptGroup" ∧
      expressionType? f.program root 1 = f.program.schema.lookup? "GrammarOpt"
  outlines : outlinesAgree f grammarLine grammarLines = true

/-- Whether what is to be known of the program of LKT is so. -/
def isCharted (f : FrontEnd) : Bool :=
  let p := f.program
  p.isInferred && decide ((idleFacts p).Fits p) &&
    decide ((skipClasses p).Fits (idleFacts p) p) &&
    p.parts.all (p.skipsOpenlyAt (skipClasses p)) &&
    RuleSignatures.areRanks (listRank p) (p.rules.toList.map Rule.body) && Lkt.declares p &&
    hasGroups p && readsGrammar f && readsOptionals f &&
    outlinesAgree f grammarLine grammarLines

/-- A front end that passes all checks is charted. -/
theorem charted_of_isCharted {f : FrontEnd} (h : isCharted f = true) : Charted f := by
  simp only [isCharted, Bool.and_eq_true, decide_eq_true_eq] at h
  obtain ⟨⟨⟨⟨h, groups⟩, reads⟩, optionals⟩, outlines⟩ := h
  obtain ⟨⟨⟨⟨⟨inferred, idle⟩, classes⟩, parts⟩, ranks⟩, declares⟩ := h
  exact ⟨Program.inferred_of_isInferred inferred, idle, classes,
    Program.skipsOpenly_of_parts classes parts, RuleSignatures.unnested_of_areRanks ranks,
    exists_declares declares, exists_groups groups, parse_of_readsGrammar reads,
    parse_of_readsOptionals optionals, outlines⟩

/-- Whether something is a front end, and everything is known of it. -/
def charts (made : Except (List Defect) FrontEnd) : Bool :=
  match made with
  | .ok f => isCharted f
  | .error _ => false

/-- The front end that is made is charted if it passes all checks. -/
theorem charted_of_charts {made : Except (List Defect) FrontEnd} (h : charts made = true) :
    ∃ f, made = .ok f ∧ Charted f := by
  unfold charts at h
  split at h
  · next f => exact ⟨f, rfl, charted_of_isCharted h⟩
  · cases h

/-- The types of LKT are declared before the first field. -/
theorem ofDeclarations_declarations :
    Schema.ofDeclarations declarations =
      Schema.ofDeclarations (listKind :: nodeTypes) >>= fun base =>
        fields.foldlM base.declareIn base := by
  rw [declarations]
  exact Schema.ofDeclarations_append (by rfl)

/-- There is a front end, and everything that is to be known of its program is so. -/
theorem exists_charted : ∃ f, frontEnd = .ok f ∧ Charted f := by
  apply charted_of_charts
  rw [frontEnd]
  -- opened as a function, so that nothing is evaluated yet
  generalize unfolded : FrontEnd.over = make
  delta FrontEnd.over at unfolded
  subst unfolded
  -- the inheritance of the types is found out once and not anew for every field
  rw [grammar, Grammar.assemble, ofDeclarations_declarations]
  decide +kernel

/-- The program of a front end is that of the LKT grammar. -/
theorem resolve_of_over {names : Interner} {f : FrontEnd} (made : FrontEnd.over names = .ok f) :
    ∃ g : Grammar, Lkt.grammar = .ok g ∧ g.resolve names = .ok (f.program, f.names) := by
  -- opened as a function, because checking an equation of its values evaluates the grammar
  generalize unfolded : FrontEnd.over = make at made
  delta FrontEnd.over at unfolded
  subst unfolded
  rcases assembled : Lkt.grammar with defect | g
  · rw [assembled] at made
    cases made
  · rw [assembled] at made
    simp only [bind, Except.bind, pure, Except.pure] at made
    split at made
    · cases made
    · next resolved ran =>
      obtain rfl := Except.ok.inj made
      exact ⟨g, rfl, ran⟩

/-- Where the LKT grammar resolves, there is a front end. -/
theorem over_of_resolve {names names' : Interner} {g : Grammar} {p : Program}
    (assembled : Lkt.grammar = .ok g) (resolved : g.resolve names = .ok (p, names')) :
    FrontEnd.over names = .ok ⟨p, names'⟩ := by
  generalize unfolded : FrontEnd.over = make
  delta FrontEnd.over at unfolded
  subst unfolded
  simp only [assembled, bind, Except.bind, pure, Except.pure, resolved]

/-- The program of the front end is that of the bundled grammar. -/
theorem resolve_of_frontEnd {f : FrontEnd} (made : frontEnd = .ok f) :
    ∃ g : Grammar, Lkt.grammar = .ok g ∧ g.resolve .initial = .ok (f.program, f.names) :=
  resolve_of_over made

/-- Of the LKT grammar inference knows everything. -/
theorem exists_inferred :
    ∃ g : Grammar, ∃ p names, Lkt.grammar = .ok g ∧ g.resolve .initial = .ok (p, names) ∧
      p.Inferred := by
  obtain ⟨f, made, charted⟩ := exists_charted
  obtain ⟨g, assembled, resolved⟩ := resolve_of_frontEnd made
  exact ⟨g, f.program, f.names, assembled, resolved, charted.inferred⟩

/-- The rules of LKT agree on the numbers of values, and none is referred to within a list of its
own values. -/
theorem exists_unnested :
    ∃ g : Grammar, ∃ p names, Lkt.grammar = .ok g ∧ g.resolve .initial = .ok (p, names) ∧
      (∃ count, RuleSignatures.Counted (p.rules.toList.map Rule.body) count) ∧
      RuleSignatures.Unnested (p.rules.toList.map Rule.body) := by
  obtain ⟨f, made, charted⟩ := exists_charted
  obtain ⟨g, assembled, resolved⟩ := resolve_of_frontEnd made
  have checked := (Grammar.checked_of_resolve resolved).2
  exact ⟨g, f.program, f.names, assembled, resolved, ⟨_, charted.inferred.counted checked⟩,
    charted.unnested⟩

end Lkt

end CombinatorGrammar
