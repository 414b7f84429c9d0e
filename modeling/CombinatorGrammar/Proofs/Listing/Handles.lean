import CombinatorGrammar.Proofs.Listing.ReadBack
import CombinatorGrammar.Proofs.Program.Resolution

/-!
# Handles

A handle is a number into a table. What a program refers to is in its tables: rules, predicates,
types and alternatives, because linking has looked them up, and operands, because each instruction
of the listing refers to earlier ones, which stand for the operands of its matcher.
-/

namespace CombinatorGrammar

namespace Instruction

/-- The handles of the operands. -/
def operands : Instruction → List Nat
  | seq items => items
  | choice alternatives _ => alternatives
  | opt operand | group operand | list _ operand none => [operand]
  | list _ element (some separator) => [element, separator]
  | predicate _ operand | node _ _ operand | enum _ _ operand => [operand]
  | protect operand guard => [operand, guard]
  | _ => []

end Instruction

namespace Matcher

/-- The instructions with their matchers, each of which stands at its handle. -/
abbrev Table := List (Instruction × Matcher)

/-- The matcher is listed at the handle. -/
def ListedAt (table : Table) (handle : Nat) (m : Matcher) : Prop :=
  ∃ instruction, table[handle]? = some (instruction, m)

/-- Each instruction refers to earlier ones, which stand for the operands of its matcher. -/
def Table.Linked (table : Table) : Prop :=
  ∀ i instruction m, table[i]? = some (instruction, m) →
    List.Forall₂ (fun handle operand => handle < i ∧ ListedAt table handle operand)
      instruction.operands m.operands

variable {table : Table} {m : Matcher} {ms : List Matcher} {handle base : Nat}

/-- A handle at which a matcher is listed is one of the table. -/
theorem ListedAt.lt_length (h : ListedAt table handle m) : handle < table.length :=
  let ⟨_, found⟩ := h
  (List.getElem?_eq_some_iff.mp found).1

/-- What is listed stays listed when more instructions follow. -/
theorem ListedAt.append (h : ListedAt table handle m) (more : Table) :
    ListedAt (table ++ more) handle m :=
  let ⟨instruction, found⟩ := h
  ⟨instruction, (List.getElem?_append_left h.lt_length).trans found⟩

/-- An instruction may be added behind those of its operands. -/
theorem Table.Linked.snoc (h : table.Linked) {instruction : Instruction}
    (operands : List.Forall₂ (ListedAt table) instruction.operands m.operands) :
    Table.Linked (table ++ [(instruction, m)]) := by
  intro i other n found
  rcases Nat.lt_trichotomy i table.length with before | rfl | behind
  · rw [List.getElem?_append_left before] at found
    exact (h i other n found).imp fun _ _ linked => ⟨linked.1, linked.2.append _⟩
  · rw [List.getElem?_concat_length] at found
    obtain ⟨rfl, rfl⟩ := Prod.mk.inj (Option.some.inj found)
    exact operands.imp fun _ _ listed => ⟨listed.lt_length, listed.append _⟩
  · rw [List.getElem?_eq_none (by rw [List.length_append]; exact behind)] at found
    cases found

/-- The operands of an instruction are the handles of the operands of its matcher. -/
theorem operands_instruction (base : Nat) (m : Matcher) :
    (m.instruction base).operands = handles base m.operands := by
  cases m <;> rfl

/-- A matcher has one instruction more than its operands have together. -/
theorem size_eq (m : Matcher) : m.size = sizeOfAll m.operands + 1 := by
  cases m <;> simp only [size, operands, sizeOfAll, Nat.add_zero]

/-- Listing several matchers takes as many instructions as their sizes say, if it does for each. -/
theorem length_listingOfAll (each : ∀ m ∈ ms, ∀ base, (m.listing base).length = m.size)
    (base : Nat) : (listingOfAll base ms).length = sizeOfAll ms := by
  induction ms generalizing base with
  | nil => rfl
  | cons m ms ih =>
    obtain ⟨first, others⟩ := List.forall_mem_cons.mp each
    rw [listingOfAll, sizeOfAll, List.length_append, first, ih others]

/-- A matcher has as many instructions as its size tells. -/
theorem length_listing (m : Matcher) (base : Nat) : (m.listing base).length = m.size := by
  induction m using operand_induction generalizing base with
  | step m ih =>
    rw [listing_eq, size_eq, List.length_append, length_listingOfAll ih, List.length_singleton]

/-- Listing a matcher behind a linked table gives a linked table, in which it has its handle. -/
def LinksBehind (m : Matcher) : Prop :=
  ∀ table : Table, table.Linked → Table.Linked (table ++ m.listing table.length) ∧
    ListedAt (table ++ m.listing table.length) (m.handle table.length) m

/-- Listing several matchers behind a linked table leaves it linked, and lists each of them. -/
theorem linked_listingOfAll (each : ∀ m ∈ ms, m.LinksBehind) (linked : table.Linked) :
    Table.Linked (table ++ listingOfAll table.length ms) ∧
      List.Forall₂ (ListedAt (table ++ listingOfAll table.length ms)) (handles table.length ms)
        ms := by
  induction ms generalizing table with
  | nil =>
    rw [listingOfAll, List.append_nil]
    exact ⟨linked, .nil⟩
  | cons m ms ih =>
    obtain ⟨first, others⟩ := List.forall_mem_cons.mp each
    obtain ⟨here, listed⟩ := first table linked
    have rest := ih others here
    rw [List.length_append, length_listing, List.append_assoc] at rest
    rw [listingOfAll, handles]
    refine ⟨rest.1, .cons ?_ rest.2⟩
    rw [← List.append_assoc]
    exact listed.append _

/-- Listing a matcher behind a linked table leaves it linked, whatever the matcher is. -/
theorem linksBehind (m : Matcher) : m.LinksBehind := by
  induction m using operand_induction with
  | step m ih =>
    intro table linked
    obtain ⟨below, operands⟩ := linked_listingOfAll ih linked
    rw [listing_eq, ← List.append_assoc]
    have last : m.handle table.length = (table ++ listingOfAll table.length m.operands).length := by
      rw [handle, size_eq, List.length_append,
        length_listingOfAll fun m _ base => length_listing m base]
      rfl
    refine ⟨below.snoc (operands_instruction table.length m ▸ operands), m.instruction table.length,
      ?_⟩
    rw [last, List.getElem?_concat_length]

end Matcher

namespace Program

/-- The listing of a program is linked, and the handles of its rules are those of their bodies. -/
theorem linked_listing (p : Program) :
    Matcher.Table.Linked p.listing ∧
      List.Forall₂ (Matcher.ListedAt p.listing) (Matcher.handles 0 p.bodies) p.bodies := by
  have nothing : Matcher.Table.Linked [] := nofun
  exact Matcher.linked_listingOfAll (fun m _ => m.linksBehind) nothing

/-- Every part of a program is listed. -/
theorem exists_handle {p : Program} {m : Matcher} (part : m ∈ p.parts) :
    ∃ handle, Matcher.ListedAt p.listing handle m := by
  have of_mem {handles : List Nat} {ms : List Matcher} {R : Nat → Matcher → Prop}
      (paired : List.Forall₂ R handles ms) : ∀ m ∈ ms, ∃ handle, R handle m := by
    induction paired with
    | nil => exact nofun
    | cons first _ ih => exact List.forall_mem_cons.mpr ⟨⟨_, first⟩, ih⟩
  obtain ⟨linked, bodies⟩ := p.linked_listing
  obtain ⟨rule, among, inside⟩ := mem_parts.mp part
  have body := of_mem bodies rule.body (List.mem_map_of_mem (Array.mem_toList_iff.mpr among))
  have down (m : Matcher) (listed : ∃ handle, Matcher.ListedAt p.listing handle m) :
      ∀ n ∈ m.operands, ∃ handle, Matcher.ListedAt p.listing handle n := by
    obtain ⟨handle, instruction, found⟩ := listed
    exact fun n operand =>
      (of_mem (linked handle instruction m found) n operand).imp fun _ => And.right
  exact Matcher.forall_parts down body m inside

end Program

namespace Matcher

/-- The rule, the predicate, the type or the alternative that the matcher refers to is among those
that there are. -/
def InTables (schema : Schema) (rules predicates : Nat) : Matcher → Prop
  | rule ref => ref.index < rules
  | predicate ref _ => ref.index < predicates
  | skip type | null type | node type _ _ => type.index < schema.nodes.size
  | enum type alternative _ =>
    ∃ declared, schema.enum? type = some declared ∧ alternative < declared.alternatives.length
  | _ => True

end Matcher

namespace Directory

variable {d : Directory} {name : String}

/-- A predicate that is found by its name is one of the definitions. -/
theorem predicateRef?_lt {ref : PredicateRef} (h : d.predicateRef? name = some ref) :
    ref.index < d.predicates.length := by
  obtain ⟨i, found, rfl⟩ := Option.map_eq_some_iff.mp h
  exact (List.findIdx?_eq_some_iff_getElem.mp found).1

/-- A type that is found by its name is one of the schema. -/
theorem nodeRef_lt {type : NodeRef} (h : d.nodeRef name = .ok type) :
    type.index < d.schema.nodes.size :=
  Schema.lookup?_lt (Linked.ofOption_eq_ok h)

/-- An alternative that is found is one of the enum type that is found. -/
theorem alternative_lt {alternative : String} {type : EnumRef} {i : Nat}
    (h : d.alternative name alternative = .ok (type, i)) :
    ∃ declared, d.schema.enum? type = some declared ∧ i < declared.alternatives.length := by
  rw [Directory.alternative] at h
  split at h
  · cases h
  · obtain ⟨_, found, same⟩ := Option.map_eq_some_iff.mp (Linked.ofOption_eq_ok h)
    obtain ⟨rfl, rfl⟩ := Prod.mk.inj same
    obtain ⟨declared, known, place⟩ := Option.bind_eq_some_iff.mp found
    exact ⟨declared, known, (List.findIdx?_eq_some_iff_getElem.mp place).1⟩

end Directory

/-- What a combinator is linked to refers to what the directory has. -/
theorem Combinator.inTables_of_link {d : Directory} {rule : String} {c : Combinator} {m : Matcher}
    (h : c.link d rule = .ok m) : m.InTables d.schema d.rules.length d.predicates.length := by
  cases c with
  | rule name =>
    obtain ⟨ref, found, rfl⟩ := Linked.map_eq_ok h
    exact Directory.ruleRef?_lt (Linked.ofOption_eq_ok found)
  | predicate name c =>
    obtain ⟨⟨n, ref⟩, linked, rfl⟩ := Linked.map_eq_ok h
    exact Directory.predicateRef?_lt (Linked.ofOption_eq_ok (Linked.both_eq_ok linked).2)
  | skip name | null name =>
    obtain ⟨type, found, rfl⟩ := Linked.map_eq_ok h
    exact Directory.nodeRef_lt found
  | node name c =>
    obtain ⟨⟨n, type⟩, linked, rfl⟩ := Linked.map_eq_ok h
    exact Directory.nodeRef_lt (Linked.both_eq_ok linked).2
  | enum name alternative c =>
    obtain ⟨⟨n, type, i⟩, linked, rfl⟩ := Linked.map_eq_ok h
    exact Directory.alternative_lt (Linked.both_eq_ok linked).2
  | cut =>
    obtain rfl := Except.ok.inj h
    trivial
  | token | seq | choice | opt | group | list | sepList | protect =>
    obtain ⟨_, _, rfl⟩ := Linked.map_eq_ok h
    trivial

/-- All references of a program are into its tables. -/
structure Program.HandlesInTables (p : Program) : Prop where
  entry : p.entry.index < p.rules.size
  parts : ∀ m ∈ p.parts, m.InTables p.schema p.rules.size p.predicates.size
  linked : Matcher.Table.Linked p.listing
  bodies : List.Forall₂ (Matcher.ListedAt p.listing) (Matcher.handles 0 p.bodies) p.bodies

/-- Resolving a grammar establishes that no reference leads nowhere. -/
theorem Grammar.handlesInTables_of_resolve {g : Grammar} {names names' : Interner} {p : Program}
    (h : g.resolve names = .ok (p, names')) : p.HandlesInTables := by
  obtain ⟨linked, bodies⟩ := p.linked_listing
  obtain ⟨rfl, entry, rules, found, _, rfl⟩ := resolve_eq_ok h
  obtain ⟨start, linkedRules⟩ := Linked.both_eq_ok found
  have count : (g.directory (names.internAll g.texts)).rules.length = rules.length := by
    rw [linkRules_length linkedRules, Grammar.directory, List.length_map]
  refine ⟨?_, fun m part => ?_, linked, bodies⟩
  · have := Directory.ruleRef?_lt (Linked.ofOption_eq_ok start)
    rw [count] at this
    simpa using this
  · obtain ⟨_, among, inside⟩ := Program.mem_parts.mp part
    obtain ⟨rule, member, rfl⟩ := List.mem_map.mp (List.mem_toArray.mp among)
    obtain ⟨c, same, _⟩ := linkRules_parts linkedRules rule member m inside
    have tables := Combinator.inTables_of_link same
    rw [count] at tables
    simpa [Grammar.directory] using tables

end CombinatorGrammar
