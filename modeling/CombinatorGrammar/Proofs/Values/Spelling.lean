import CombinatorGrammar.Proofs.Program.AddedTypes
import CombinatorGrammar.Proofs.Tree.Outlines
import CombinatorGrammar.Proofs.Values.Whole

/-!
# Everything in a value is declared

A program names the types and alternatives of its schema only, and takes its tokens from the stream
that it runs on. So whatever a parse answers is built of what the outline of it has names for.
-/

namespace CombinatorGrammar

namespace Schema

/-- Fields hold nodes of types of the schema. -/
def FieldsDeclared (s : Schema) : Prop :=
  ∀ node ∈ s.nodes, ∀ field ∈ node.ownFields, ∀ type, field.kind = .node type →
    type.index < s.nodes.size

instance (kind : FieldKind) (s : Schema) :
    Decidable (∀ type, kind = .node type → type.index < s.nodes.size) :=
  match kind with
  | .node type =>
    decidable_of_iff (type.index < s.nodes.size) ⟨fun inside _ same => by cases same; exact inside,
      fun all => all type rfl⟩
  | .token | .enum _ | .list _ => isTrue nofun

instance (s : Schema) : Decidable s.FieldsDeclared :=
  inferInstanceAs (Decidable (∀ node ∈ s.nodes, ∀ field ∈ node.ownFields, _))

theorem FieldsDeclared.layout {s : Schema} (declared : s.FieldsDeclared) {ref type : NodeRef}
    (among : .node type ∈ (s.layout ref).map Field.kind) : type.index < s.nodes.size := by
  obtain ⟨field, listed, kind⟩ := List.mem_map.mp among
  obtain ⟨sup, _, own⟩ := List.mem_flatMap.mp listed
  rw [ownFields, node?] at own
  cases found : s.nodes[sup.index]? with
  | none =>
    rw [found] at own
    cases own
  | some node =>
    rw [found] at own
    exact declared node (Array.mem_of_getElem? found) field own type kind

end Schema

namespace Combinator

/-- A combinator is linked to an alternative that the enum type has. -/
theorem alternative_of_link {d : Directory} {rule : String} {c : Combinator} {ref : EnumRef}
    {i : Nat} {m : Matcher} (h : c.link d rule = .ok (.enum ref i m)) :
    ∃ type, d.schema.enum? ref = some type ∧ i < type.alternatives.length := by
  cases c with
  | enum name alternative c =>
    obtain ⟨⟨n, found⟩, linked, same⟩ := Linked.map_eq_ok h
    have known := (Linked.both_eq_ok linked).2
    injection same with refs places
    rw [Directory.alternative] at known
    split at known
    · cases known
    · next other _ =>
      obtain ⟨place, inside, rfl⟩ := Option.map_eq_some_iff.mp (Linked.ofOption_eq_ok known)
      obtain ⟨type, declared, listed⟩ := Option.bind_eq_some_iff.mp inside
      obtain ⟨bound, _⟩ := List.findIdx?_eq_some_iff_getElem.mp listed
      exact ⟨type, refs ▸ declared, places ▸ bound⟩
  | cut => cases h
  | token | rule | seq | choice | opt | group | list | skip | null =>
    obtain ⟨_, _, other⟩ := Linked.map_eq_ok h
    cases other
  | sepList | predicate | protect | node =>
    obtain ⟨⟨_, _⟩, _, other⟩ := Linked.map_eq_ok h
    cases other

end Combinator

namespace Program

variable {p : Program}

/-- What the parts of the program name is declared. -/
structure Declares (p : Program) : Prop where
  types : ∀ m ∈ p.parts, m.Declared p.schema
  alternatives : ∀ ref i m, .enum ref i m ∈ p.parts →
    ∃ type, p.schema.enum? ref = some type ∧ i < type.alternatives.length

/-- Every part of the program is the matcher of a combinator. -/
theorem linked_of_mem_parts {g : Grammar} {names names' : Interner}
    (h : g.resolve names = .ok (p, names')) {m : Matcher} (part : m ∈ p.parts) :
    ∃ rule c, Combinator.link (g.directory names') rule c = .ok m := by
  obtain ⟨rfl, entry, rules, found, _, rfl⟩ := Grammar.resolve_eq_ok h
  obtain ⟨_, among, inside⟩ := Program.mem_parts.mp part
  obtain ⟨rule, member, rfl⟩ := List.mem_map.mp (List.mem_toArray.mp among)
  obtain ⟨c, same, _⟩ := Grammar.linkRules_parts (Linked.both_eq_ok found).2 rule member _ inside
  exact ⟨_, c, same⟩

/-- A resolved program declares whatever its matchers construct. -/
theorem declares_of_resolve {g : Grammar} {names names' : Interner}
    (h : g.resolve names = .ok (p, names')) : p.Declares := by
  have schema := (Grammar.checked_of_resolve h).1
  constructor
  · intro m part
    obtain ⟨rule, c, same⟩ := linked_of_mem_parts h part
    exact schema ▸ Combinator.declared_of_link same
  · intro ref i m part
    obtain ⟨rule, c, same⟩ := linked_of_mem_parts h part
    exact schema ▸ Combinator.alternative_of_link same

end Program

namespace Session

variable {x : Session}

/-- Construction keeps values spelled, on every level. -/
theorem keeps_spelled (checked : x.program.Checked) (tallied : x.program.Tallied)
    (definite : x.program.DefiniteOperands) (bare : x.program.schema.ErrorsBare)
    (declares : x.program.Declares) (fields : x.program.schema.FieldsDeclared)
    (tokens : ∀ position, (x.tokens.token position).Spelled x.program.vocabulary x.names)
    (remaining depth : Nat) :
    x.Keeps (x.call remaining depth) (· ∈ x.program.parts)
      (Value.Spelled x.program.vocabulary x.program.schema x.names) where
  operand := Program.operand_mem_parts
  token position := .token (tokens position)
  null := .null
  absent type part := .absent (declares.types _ part)
  enum ref i m span part := by
    obtain ⟨type, found, inside⟩ := declares.alternatives ref i m part
    exact .enum found inside
  list _ items := .list items
  skip errorType span part := by
    refine .node (declares.types _ part) ?_ (List.forall_mem_nil _)
    rw [bare errorType (checked.valid_part part).skip]
    rfl
  node type layout m cx s s' values span part run operands := by
    obtain ⟨enough, laid⟩ := run.length_of_node_operand checked definite
      (fun _ _ _ _ _ _ called => call_counts checked tallied called) part
    rw [Schema.fieldCount] at laid
    refine .node (declares.types _ part) ?_ (Value.forall_mem_zipWith_fitNull ?_
      (.list (List.forall_mem_nil _)) operands)
    · rw [List.length_zipWith, enough, Nat.min_self, laid]
    · intro other among
      rw [checked.node_layout part] at among
      exact .absent (fields.layout among)

end Session

end CombinatorGrammar
