import CombinatorGrammar.Proofs.Recovery.ErrorNodes
import CombinatorGrammar.Proofs.Values.Whole

/-!
# Types of the nodes that are built

Nodes are built by node constructions and by skips. Validation keeps node constructions from naming
abstract types; of a skip it asks only that it names an error node type, and a type can be declared
both abstract and an error node type. So a node of an abstract type stands for a token that was
skipped, and there is none if no skip names an abstract type.
-/

namespace CombinatorGrammar

/-- Every node in the value is of a type with the property. Placeholders of absent nodes may name
any type. -/
inductive Value.NodesAre (P : NodeRef → Prop) : Value → Prop
  | token (t : Token) : NodesAre P (.token t)
  | node {type : NodeRef} {span : Span} {fields : List Value} :
      P type → (∀ v ∈ fields, NodesAre P v) → NodesAre P (.node type span fields)
  | list {items : List Value} : (∀ v ∈ items, NodesAre P v) → NodesAre P (.list items)
  | enum (type : EnumRef) (alternative : Nat) (span : Span) :
      NodesAre P (.enum type alternative span)
  | null : NodesAre P .null
  | absent (type : NodeRef) : NodesAre P (.absent type)

namespace Value

variable {P Q : NodeRef → Prop}

/-- What holds of the nodes of a value holds more generally. -/
theorem NodesAre.mono (imp : ∀ type, P type → Q type) {v : Value} (h : v.NodesAre P) :
    v.NodesAre Q := by
  induction h with
  | token t => exact .token t
  | node here _ ih => exact .node (imp _ here) ih
  | list _ ih => exact .list ih
  | enum type alternative span => exact .enum type alternative span
  | null => exact .null
  | absent type => exact .absent type

/-- A null made an absent node brings no node. -/
theorem NodesAre.fitNull {v : Value} (h : v.NodesAre P) (kind : FieldKind) :
    (Value.fitNull kind v).NodesAre P := by
  unfold Value.fitNull
  split
  · exact .absent _
  · exact .list (List.forall_mem_nil _)
  · exact h

/-- Fields put in place bring no node that the values did not have. -/
theorem nodesAre_zipWith_fitNull (layout : List FieldKind) {values : List Value}
    (h : ∀ v ∈ values, v.NodesAre P) :
    ∀ v ∈ List.zipWith Value.fitNull layout values, v.NodesAre P := by
  intro v among
  obtain ⟨i, inside, rfl⟩ := List.mem_iff_getElem.mp among
  rw [List.getElem_zipWith]
  exact (h _ (List.getElem_mem _)).fitNull _

end Value

namespace Program

variable {p : Program}

/-- A node construction without defects names a type that is not abstract. -/
theorem Valid.not_abstract {type : NodeRef} {layout : List FieldKind} {m : Matcher}
    (h : p.Valid (.node type layout m)) : p.schema.isAbstract type = false := by
  obtain ⟨rule, sound⟩ := h
  have nodes := (List.append_eq_nil_iff.mp sound).2
  rw [Validation.nodeDefects] at nodes
  split at nodes
  · cases nodes
  · next concrete => exact Bool.eq_false_iff.mpr concrete

/-- The type is not abstract, or it is an error node type that a skip of the program names. -/
def Builds (p : Program) (type : NodeRef) : Prop :=
  p.schema.isAbstract type = false ∨ p.schema.isError type = true ∧ .skip type ∈ p.parts

/-- All values that attempts and parses answer have the property. -/
def Answers (p : Program) (P : Value → Prop) : Prop :=
  ∀ names tokens config,
    (∀ ref start attempt values, p.attempt names tokens config ref start = .ok attempt →
      attempt.result = .ok values → ∀ v ∈ values, P v) ∧
    (∀ output root, p.parse names tokens config = .ok output → output.root = some root → P root)

end Program

/-- Construction keeps nodes of the types that the program builds. -/
theorem Session.keeps_nodesAre {x : Session} {call : Call} (checked : x.program.Checked) :
    x.Keeps call (· ∈ x.program.parts) (Value.NodesAre x.program.Builds) where
  operand := Program.operand_mem_parts
  token _ := .token _
  null := .null
  absent type _ := .absent type
  enum type alternative _ span _ := .enum type alternative span
  list _ items := .list items
  skip _ _ part :=
    .node (Or.inr ⟨(checked.valid_part part).skip, part⟩) (List.forall_mem_nil _)
  node _ layout _ _ _ _ _ _ part _ operands :=
    .node (Or.inl (checked.valid_part part).not_abstract)
      (Value.nodesAre_zipWith_fitNull layout operands)

/-- A node of an abstract type is only ever an error node that stands for a skipped token: its type
is an error node type, and a skip of the grammar names it. So if no skip names an abstract type,
then no node in the values of an attempt or in the tree of a parse is of an abstract type. -/
theorem Program.abstract_nodes_skipped {g : Grammar} {names names' : Interner} {p : Program}
    (resolved : g.resolve names = .ok (p, names')) :
    p.Answers (Value.NodesAre p.Builds) ∧
    ((∀ type, .skip type ∈ p.parts → p.schema.isAbstract type = false) →
      p.Answers (Value.NodesAre fun type => p.schema.isAbstract type = false)) := by
  have checked := (Grammar.checked_of_resolve resolved).2
  have built : p.Answers (Value.NodesAre p.Builds) := fun _ _ _ =>
    ⟨fun _ _ _ _ => attempt_builds fun _ _ => Session.keeps_nodesAre checked,
      fun _ _ => parse_builds fun _ _ => Session.keeps_nodesAre checked⟩
  refine ⟨built, fun concrete names tokens config => ?_⟩
  have allowed (type : NodeRef) : p.Builds type → p.schema.isAbstract type = false :=
    Or.rec id fun skipped => concrete type skipped.2
  obtain ⟨attempts, parses⟩ := built names tokens config
  constructor
  · intro ref start attempt values ran succeeds v among
    exact (attempts ref start attempt values ran succeeds v among).mono allowed
  · intro output root ran succeeds
    exact (parses output root ran succeeds).mono allowed

/-- An abstract type with an item and an error node type below it. -/
def itemsWith (errorIsAbstract : Bool) : List Declaration :=
  [.node "Decl" none true false, .node "Item" (some "Decl") false false,
    .field "Item" "name" .token, .node "Err" (some "Decl") errorIsAbstract true]

/-- Whether a matcher, if it is a skip, names a type that is not abstract. -/
def Schema.skipsConcrete (s : Schema) : Matcher → Bool
  | .skip type => !s.isAbstract type
  | _ => true

/-- In a list of an item and a skipped token no node is of the abstract type above both. -/
theorem abstract_nodes_skipped_items :
    ∃ g : Grammar, ∃ p names, g.resolve .initial = .ok (p, names) ∧
      (∀ type, .skip type ∈ p.parts → p.schema.isAbstract type = false) ∧
      ∃ attempt values,
        p.attempt .initial (tokensOf [1, 2]) .standard p.entry 0 = .ok attempt ∧
        attempt.result = .ok values ∧ Value.errorSpansOfAll p.schema values = [.point 0] ∧
        ∀ v ∈ values, v.NodesAre fun type => p.schema.isAbstract type = false := by
  have passes : Grammar.passes letters (itemsWith false)
      [("main", .many (.choice [.node "Item" (.kind "id"), .skip "Err"]))]
      (fun p => decide (p.parts.all p.schema.skipsConcrete = true ∧
        p.attemptReport? (tokensOf [1, 2]) = some ([.skippedToken], [.point 0]))) = true := by
    decide +kernel
  obtain ⟨g, p, names, _, _, resolved, held⟩ := Grammar.exists_of_passes passes
  obtain ⟨skips, reports⟩ := of_decide_eq_true held
  have concrete (type : NodeRef) (part : .skip type ∈ p.parts) :
      p.schema.isAbstract type = false := by
    simpa [Schema.skipsConcrete] using List.all_eq_true.mp skips _ part
  obtain ⟨attempt, values, ran, succeeds, _, spans⟩ := Program.attempt_of_attemptReport? reports
  exact ⟨g, p, names, resolved, concrete, attempt, values, ran, succeeds, spans,
    ((Program.abstract_nodes_skipped resolved).2 concrete _ _ _).1 _ _ _ _ ran succeeds⟩

/-- A type that is declared both abstract and an error node type: a skip builds a node of it. -/
theorem abstract_node_of_skip :
    ∃ g : Grammar, ∃ p names, Schema.ofDeclarations (itemsWith true) = .ok g.schema ∧
      g.resolve .initial = .ok (p, names) ∧
      ∃ attempt v, p.attempt .initial (tokensOf [1]) .standard p.entry 0 = .ok attempt ∧
        attempt.result = .ok [v] ∧ ¬ v.NodesAre fun type => p.schema.isAbstract type = false := by
  have passes : Grammar.passes letters (itemsWith true) [("main", .skip "Err")]
      (fun p => (p.attemptedNode? (tokensOf [1])).any fun node =>
        p.schema.isAbstract node.1) = true := by
    decide +kernel
  obtain ⟨g, p, names, _, declared, resolved, held⟩ := Grammar.exists_of_passes passes
  obtain ⟨⟨type, fields⟩, node, isAbstract⟩ := (Option.any_eq_true _ _).mp held
  obtain ⟨attempt, span, ran, succeeds⟩ := Program.attempt_of_attemptedNode? node
  refine ⟨g, p, names, declared, resolved, attempt, _, ran, succeeds, fun concrete => ?_⟩
  cases concrete with
  | node here _ => exact Bool.false_ne_true (here.symm.trans isAbstract)

end CombinatorGrammar
