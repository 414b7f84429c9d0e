import CombinatorGrammar.Proofs.Schema.ErrorTypes
import CombinatorGrammar.Proofs.Values.Construction
import CombinatorGrammar.Proofs.Values.Count

/-!
# Nodes with all their fields

A node construction zips the values of its operand with the layout of its type, so a node has all
its fields if the operand has enough values. Validation compares the two numbers only where the
operand has a signature; that is enough for programs in which the numbers of values can be relied
on, and in other programs it is not.
-/

namespace CombinatorGrammar

/-- Every node in the value has as many fields as its type. -/
inductive Value.Whole (schema : Schema) : Value → Prop
  | token (t : Token) : Whole schema (.token t)
  | node {type : NodeRef} {span : Span} {fields : List Value} :
      fields.length = schema.fieldCount type → (∀ v ∈ fields, Whole schema v) →
      Whole schema (.node type span fields)
  | list {items : List Value} : (∀ v ∈ items, Whole schema v) → Whole schema (.list items)
  | enum (type : EnumRef) (alternative : Nat) (span : Span) :
      Whole schema (.enum type alternative span)
  | null : Whole schema .null
  | absent (type : NodeRef) : Whole schema (.absent type)

namespace Program

/-- Whether a node construction has a definite operand; nothing is asked of other matchers. -/
def definiteOperand (p : Program) : Matcher → Bool
  | .node _ _ m => p.definite m
  | _ => true

/-- Every node construction of the program has a definite operand. -/
def DefiniteOperands (p : Program) : Prop := ∀ m ∈ p.parts, p.definiteOperand m = true

instance (p : Program) : Decidable p.DefiniteOperands := inferInstanceAs (Decidable (∀ _ ∈ _, _))

/-- A program with all arities known has definite operands. -/
theorem definiteOperands_of_known {p : Program}
    (known : ∀ m ∈ p.parts, (p.arity? m).isSome = true) : p.DefiniteOperands := by
  intro m part
  cases m with
  | node type layout m => exact definite_of_known known (operand_part part 0 rfl)
  | _ => rfl

end Program

namespace Session

variable {x : Session} {call : Call} {cx : Context} {s s' : State}

/-- The operand of a node construction has one value for each field of the node's type. -/
theorem Runs.length_of_node_operand {type : NodeRef} {layout : List FieldKind} {m : Matcher}
    {values : List Value} (checked : x.program.Checked) (definite : x.program.DefiniteOperands)
    (calls : ∀ ref active guards s values s', call ref active guards s = .ok (.success values, s') →
      x.program.arity? (.rule ref) = some values.length)
    (part : .node type layout m ∈ x.program.parts)
    (run : x.Runs call (.matcher m) cx s (.success values) s') :
    values.length = layout.length ∧ layout.length = x.program.schema.fieldCount type := by
  have valid := checked.valid_part part
  have counted : x.program.arity? m = some values.length := run.counts calls values rfl
    ⟨valid.operand (List.mem_singleton_self m), definite _ part⟩
  rw [Program.arity?_eq_length] at counted
  obtain ⟨shapes, known, same⟩ := Option.map_eq_some_iff.mp counted
  refine ⟨same.symm.trans (valid.node known).1, ?_⟩
  rw [checked.node_layout part, List.length_map, Schema.fieldCount]

/-- Construction keeps nodes whole, on every level. -/
theorem keeps_whole (checked : x.program.Checked) (tallied : x.program.Tallied)
    (definite : x.program.DefiniteOperands) (bare : x.program.schema.ErrorsBare)
    (remaining depth : Nat) :
    x.Keeps (x.call remaining depth) (· ∈ x.program.parts) (Value.Whole x.program.schema) where
  operand := Program.operand_mem_parts
  token _ := .token _
  null := .null
  absent type _ := .absent type
  enum type alternative _ span _ := .enum type alternative span
  list _ items := .list items
  skip errorType span part := by
    refine .node ?_ (List.forall_mem_nil _)
    rw [Schema.fieldCount, bare errorType (checked.valid_part part).skip]
    rfl
  node type layout m cx s s' values span part run operands := by
    obtain ⟨enough, laid⟩ := run.length_of_node_operand checked definite
      (fun _ _ _ _ _ _ called => call_counts checked tallied called) part
    refine .node ?_ (Value.forall_mem_zipWith_fitNull (fun type _ => .absent type)
      (.list (List.forall_mem_nil _)) operands)
    rw [List.length_zipWith, enough, Nat.min_self, laid]

end Session

/-- The declarations of one node type, a pair, whose fields are tokens. -/
def pairOf (fields : List String) : List Declaration :=
  .node "Pair" none false false :: fields.map fun name => .field "Pair" name .token

/-- The type and the fields of the node that an attempt of the entry rule yields, if it yields a
node alone. -/
def Program.attemptedNode? (p : Program) (tokens : TokenStream) :
    Option (NodeRef × List Value) :=
  match p.attempt .initial tokens .standard p.entry 0 with
  | .ok ⟨.ok [.node type _ fields], _, _⟩ => some (type, fields)
  | _ => none

/-- A node read from an attempt is its result. -/
theorem Program.attempt_of_attemptedNode? {p : Program} {tokens : TokenStream} {type : NodeRef}
    {fields : List Value} (h : p.attemptedNode? tokens = some (type, fields)) :
    ∃ attempt span, p.attempt .initial tokens .standard p.entry 0 = .ok attempt ∧
      attempt.result = .ok [.node type span fields] := by
  unfold attemptedNode? at h
  split at h
  · next _ span _ _ _ ran =>
    obtain ⟨rfl, rfl⟩ := Prod.mk.inj (Option.some.inj h)
    exact ⟨_, span, ran, rfl⟩
  · cases h

/-- No node with missing fields: if a grammar over a declared schema resolves to a program in
which the numbers of values of rules and of node operands can be relied on, as in that of LKT, then
all nodes in the values of an attempt and in the tree of a parse have as many fields as their
types, and whenever the operand of a node construction succeeds, zipping its values with the layout
drops nothing. -/
theorem Program.nodes_whole {declarations : List Declaration} {g : Grammar}
    {names names' : Interner} {p : Program}
    (declared : Schema.ofDeclarations declarations = .ok g.schema)
    (resolved : g.resolve names = .ok (p, names')) (tallied : p.Tallied)
    (definite : p.DefiniteOperands) :
    (∀ names tokens config ref start attempt values,
      p.attempt names tokens config ref start = .ok attempt → attempt.result = .ok values →
      ∀ v ∈ values, v.Whole p.schema) ∧
    (∀ names tokens config output root,
      p.parse names tokens config = .ok output → output.root = some root →
      root.Whole p.schema) ∧
    (∀ (x : Session) remaining depth (cx : Context) type layout m s values s',
      x.program = p → .node type layout m ∈ p.parts →
      x.parser (x.call remaining depth) m (cx.scope x (x.call remaining depth)) s =
        .ok (.success values, s') →
      values.length = layout.length ∧ layout.length = p.schema.fieldCount type) := by
  obtain ⟨same, checked⟩ := Grammar.checked_of_resolve resolved
  have bare : p.schema.ErrorsBare := same ▸ Schema.errorsBare_of_ofDeclarations declared
  refine ⟨?_, ?_, ?_⟩
  · intro names tokens config ref start attempt values ran succeeds
    exact Program.attempt_builds
      (fun _ _ => Session.keeps_whole checked tallied definite bare _ _) ran succeeds
  · intro names tokens config output root ran succeeds
    exact Program.parse_builds
      (fun _ _ => Session.keeps_whole checked tallied definite bare _ _) ran succeeds
  · rintro x remaining depth cx type layout m s values s' rfl part ran
    exact (Session.runs_of_parser_eq ran).length_of_node_operand checked definite
      (fun _ _ _ _ _ _ called => Session.call_counts checked tallied called) part

/-- A pair with an optional second token has its two fields when the second is missing. -/
theorem nodes_whole_pair :
    ∃ g : Grammar, ∃ p names, Schema.ofDeclarations (pairOf ["left", "right"]) = .ok g.schema ∧
      g.resolve .initial = .ok (p, names) ∧ p.Tallied ∧ p.DefiniteOperands ∧
      ∃ attempt v, p.attempt .initial (tokensOf [1]) .standard p.entry 0 = .ok attempt ∧
        attempt.result = .ok [v] ∧ v.Whole p.schema := by
  have passes : Grammar.passes letters (pairOf ["left", "right"])
      [("main", .node "Pair" (.seq [.kind "id", .opt (.kind "id")]))]
      (fun p => decide (p.Tallied ∧ p.DefiniteOperands) &&
        (p.attemptedNode? (tokensOf [1])).isSome) = true := by
    decide +kernel
  obtain ⟨g, p, names, _, declared, resolved, held⟩ := Grammar.exists_of_passes passes
  obtain ⟨reliable, yields⟩ := Bool.and_eq_true_iff.mp held
  obtain ⟨tallied, definite⟩ := of_decide_eq_true reliable
  obtain ⟨⟨type, fields⟩, node⟩ := Option.isSome_iff_exists.mp yields
  obtain ⟨attempt, span, ran, succeeds⟩ := Program.attempt_of_attemptedNode? node
  exact ⟨g, p, names, declared, resolved, tallied, definite, attempt, _, ran, succeeds,
    (Program.nodes_whole declared resolved tallied definite).1 _ _ _ _ _ _ _ ran succeeds _
      (List.mem_singleton_self _)⟩

/-- Whether the entry rule yields a node with another number of fields than its type has. -/
def Program.missesFields (p : Program) (tokens : TokenStream) : Bool :=
  (p.attemptedNode? tokens).any fun node => node.2.length != p.schema.fieldCount node.1

/-- A program found to miss fields gives a node without them. -/
theorem Program.not_whole_of_missesFields {p : Program} {tokens : TokenStream}
    (h : p.missesFields tokens = true) :
    ∃ attempt v, p.attempt .initial tokens .standard p.entry 0 = .ok attempt ∧
      attempt.result = .ok [v] ∧ ¬ v.Whole p.schema := by
  obtain ⟨⟨type, fields⟩, node, short⟩ := Option.any_eq_true _ _ |>.mp h
  obtain ⟨attempt, span, ran, succeeds⟩ := Program.attempt_of_attemptedNode? node
  refine ⟨attempt, _, ran, succeeds, fun whole => ?_⟩
  cases whole with
  | node enough _ => simp [enough] at short

/-- An optional whose operand is unknown: a pair of one field is built without it, though inference
has settled. -/
theorem not_whole_of_unknown_optional :
    ∃ g : Grammar, ∃ p names, Schema.ofDeclarations (pairOf ["left"]) = .ok g.schema ∧
      g.resolve .initial = .ok (p, names) ∧ p.Tallied ∧
      ∃ attempt v, p.attempt .initial (tokensOf []) .standard p.entry 0 = .ok attempt ∧
        attempt.result = .ok [v] ∧ ¬ v.Whole p.schema := by
  have passes : Grammar.passes letters (pairOf ["left"])
      [("main", .node "Pair" (.opt (.choice [])))]
      (fun p => decide p.Tallied && p.missesFields (tokensOf [])) = true := by
    decide +kernel
  obtain ⟨g, p, names, _, declared, resolved, held⟩ := Grammar.exists_of_passes passes
  obtain ⟨tallied, misses⟩ := Bool.and_eq_true_iff.mp held
  exact ⟨g, p, names, declared, resolved, of_decide_eq_true tallied,
    Program.not_whole_of_missesFields misses⟩

/-- Rules whose numbers of values change places from round to round, until the rounds are over: a
pair of two fields is built from one value, though all optionals are definite. -/
theorem not_whole_of_unsettled :
    ∃ g : Grammar, ∃ p names, Schema.ofDeclarations (pairOf ["left", "right"]) = .ok g.schema ∧
      g.resolve .initial = .ok (p, names) ∧ (∀ rule ∈ p.rules, p.definite rule.body = true) ∧
      p.DefiniteOperands ∧
      ∃ attempt v, p.attempt .initial (tokensOf [3, 1]) .standard p.entry 0 = .ok attempt ∧
        attempt.result = .ok [v] ∧ ¬ v.Whole p.schema := by
  have passes : Grammar.passes letters (pairOf ["left", "right"])
      [("main", .node "Pair" (.rule "odd")),
        ("odd", .choice [.seq [.lit "a", .rule "even"], .rule "one"]),
        ("even", .choice [.seq [.lit "a", .rule "odd"], .rule "two"]),
        ("one", .seq [.lit "b", .kind "id"]),
        ("two", .seq [.lit "b", .kind "id", .kind "id"])]
      (fun p => decide ((∀ rule ∈ p.rules, p.definite rule.body = true) ∧ p.DefiniteOperands) &&
        p.missesFields (tokensOf [3, 1])) = true := by
    decide +kernel
  obtain ⟨g, p, names, _, declared, resolved, held⟩ := Grammar.exists_of_passes passes
  obtain ⟨definite, misses⟩ := Bool.and_eq_true_iff.mp held
  obtain ⟨bodies, operands⟩ := of_decide_eq_true definite
  exact ⟨g, p, names, declared, resolved, bodies, operands,
    Program.not_whole_of_missesFields misses⟩

end CombinatorGrammar
