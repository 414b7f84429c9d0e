import CombinatorGrammar.Proofs.Program.Defects
import CombinatorGrammar.Proofs.Token.Vocabulary

/-!
# Reading matchers back

A matcher refers to everything by number, and a directory has a name for every number. Reading a
matcher back puts these names in place of the numbers. What was linked in a directory reads back in
it to the combinator that it came from, with every token match given by the name of its kind. So the
rules of a program read back to those of its grammar.
-/

namespace CombinatorGrammar

/-- The name of an alternative of an enum type. -/
def Schema.alternativeName (s : Schema) (ref : EnumRef) (i : Nat) : String :=
  ((s.enum? ref).bind fun type => type.alternatives[i]?).getD "?"

namespace Directory

/-- The name of a rule. -/
def ruleName (d : Directory) (ref : RuleRef) : String := (d.rules[ref.index]?).getD "?"

/-- The name of a predicate. -/
def predicateName (d : Directory) (ref : PredicateRef) : String :=
  (d.predicates[ref.index]?).getD "?"

end Directory

namespace Matcher

mutual

/-- The combinator that has the names of a directory in place of the numbers of the matcher. -/
def unlink (d : Directory) : Matcher → Combinator
  | .token kind text keep => .token (.kind (d.vocabulary.name kind)) (text.map d.names.text) keep
  | .rule ref => .rule (d.ruleName ref)
  | .seq items => .seq (unlinkAll d items)
  | .choice alternatives => .choice (unlinkAll d alternatives)
  | .opt operand => .opt (operand.unlink d)
  | .group operand => .group (operand.unlink d)
  | .list repetition element => .list repetition (element.unlink d)
  | .sepList repetition element separator =>
    .sepList repetition (element.unlink d) (separator.unlink d)
  | .cut => .cut
  | .predicate ref operand => .predicate (d.predicateName ref) (operand.unlink d)
  | .skip errorType => .skip (d.schema.name errorType)
  | .protect operand guard => .protect (operand.unlink d) (guard.unlink d)
  | .null type => .null (d.schema.name type)
  | .node type _ operand => .node (d.schema.name type) (operand.unlink d)
  | .enum type alternative operand =>
    .enum (d.schema.enumName type) (d.schema.alternativeName type alternative) (operand.unlink d)

/-- The combinators that have the names of a directory in place of the numbers of the matchers. -/
def unlinkAll (d : Directory) : List Matcher → List Combinator
  | [] => []
  | m :: ms => m.unlink d :: unlinkAll d ms

end

end Matcher

/-- The token match by the name of the kind that it means. -/
def TokenName.byKind (v : Vocabulary) : TokenName → TokenName
  | kind name => kind name
  | literal text => kind (((v.literalKind? text).map v.name).getD "?")

namespace Combinator

mutual

/-- The combinator with every token match given by the name of its kind. -/
def byKind (v : Vocabulary) : Combinator → Combinator
  | .token t text keep => .token (t.byKind v) text keep
  | .rule name => .rule name
  | .seq items => .seq (byKindAll v items)
  | .choice alternatives => .choice (byKindAll v alternatives)
  | .opt operand => .opt (operand.byKind v)
  | .group operand => .group (operand.byKind v)
  | .list repetition element => .list repetition (element.byKind v)
  | .sepList repetition element separator =>
    .sepList repetition (element.byKind v) (separator.byKind v)
  | .cut => .cut
  | .predicate name operand => .predicate name (operand.byKind v)
  | .skip errorType => .skip errorType
  | .protect operand guard => .protect (operand.byKind v) (guard.byKind v)
  | .null type => .null type
  | .node type operand => .node type (operand.byKind v)
  | .enum type alternative operand => .enum type alternative (operand.byKind v)

/-- The combinators with every token match given by the name of its kind. -/
def byKindAll (v : Vocabulary) : List Combinator → List Combinator
  | [] => []
  | c :: cs => c.byKind v :: byKindAll v cs

end

end Combinator

section Lookups

/-- A type that is found under a name has that name. -/
theorem Schema.name_of_lookup? {s : Schema} {name : String} {ref : NodeRef}
    (h : s.lookup? name = some ref) : s.name ref = name := by
  obtain ⟨i, found, rfl⟩ := Option.map_eq_some_iff.mp h
  obtain ⟨inside, same, _⟩ := Array.findIdx?_eq_some_iff_getElem.mp found
  rw [Schema.name, Schema.node?, Array.getElem?_eq_getElem inside]
  exact eq_of_beq same

/-- An enumeration that is found under a name has that name. -/
theorem Schema.enumName_of_lookupEnum? {s : Schema} {name : String} {ref : EnumRef}
    (h : s.lookupEnum? name = some ref) : s.enumName ref = name := by
  obtain ⟨i, found, rfl⟩ := Option.map_eq_some_iff.mp h
  obtain ⟨inside, same, _⟩ := Array.findIdx?_eq_some_iff_getElem.mp found
  rw [Schema.enumName, Schema.enum?, Array.getElem?_eq_getElem inside]
  exact eq_of_beq same

/-- An alternative that is found under a name has that name. -/
theorem Schema.alternativeName_of_alternativeIndex? {s : Schema} {ref : EnumRef} {name : String}
    {i : Nat} (h : s.alternativeIndex? ref name = some i) : s.alternativeName ref i = name := by
  obtain ⟨type, declared, found⟩ := Option.bind_eq_some_iff.mp h
  obtain ⟨inside, same, _⟩ := List.findIdx?_eq_some_iff_getElem.mp found
  rw [Schema.alternativeName, declared, Option.bind_some, List.getElem?_eq_getElem inside]
  exact eq_of_beq same

/-- A rule that is found under a name has that name. -/
theorem Directory.ruleName_of_ruleRef? {d : Directory} {name : String} {ref : RuleRef}
    (h : d.ruleRef? name = some ref) : d.ruleName ref = name := by
  obtain ⟨i, found, rfl⟩ := Option.map_eq_some_iff.mp h
  obtain ⟨inside, same, _⟩ := List.findIdx?_eq_some_iff_getElem.mp found
  rw [Directory.ruleName, List.getElem?_eq_getElem inside]
  exact eq_of_beq same

/-- A predicate that is found under a name has that name. -/
theorem Directory.predicateName_of_predicateRef? {d : Directory} {name : String}
    {ref : PredicateRef} (h : d.predicateRef? name = some ref) : d.predicateName ref = name := by
  obtain ⟨i, found, rfl⟩ := Option.map_eq_some_iff.mp h
  obtain ⟨inside, same, _⟩ := List.findIdx?_eq_some_iff_getElem.mp found
  rw [Directory.predicateName, List.getElem?_eq_getElem inside]
  exact eq_of_beq same

/-- A token kind that is found reads back as the name it was found under, or as the name of its
kind. -/
theorem Directory.name_of_tokenKind {d : Directory} {rule : String} {t : TokenName}
    {kind : TokenKind} (h : d.tokenKind rule t = .ok kind) :
    TokenName.kind (d.vocabulary.name kind) = t.byKind d.vocabulary := by
  cases t with
  | kind name => exact congrArg TokenName.kind (Vocabulary.name_of_kind? (Linked.ofOption_eq_ok h))
  | literal text =>
    rw [TokenName.byKind, Linked.ofOption_eq_ok h, Option.map_some, Option.getD_some]

theorem Directory.name_of_nodeRef {d : Directory} {name : String} {ref : NodeRef}
    (h : d.nodeRef name = .ok ref) : d.schema.name ref = name :=
  Schema.name_of_lookup? (Linked.ofOption_eq_ok h)

/-- An alternative that is found under two names has those names. -/
theorem Directory.names_of_alternative {d : Directory} {type name : String} {ref : EnumRef}
    {i : Nat} (h : d.alternative type name = .ok (ref, i)) :
    d.schema.enumName ref = type ∧ d.schema.alternativeName ref i = name := by
  rw [Directory.alternative] at h
  split at h
  · cases h
  · next declared =>
    obtain ⟨j, found, same⟩ := Option.map_eq_some_iff.mp (Linked.ofOption_eq_ok h)
    cases same
    exact ⟨Schema.enumName_of_lookupEnum? declared,
      Schema.alternativeName_of_alternativeIndex? found⟩

end Lookups

namespace Combinator

variable {d : Directory} {rule : String}

mutual

/-- What a combinator is linked to reads back to it, if its texts have been interned. -/
theorem unlink_link :
    ∀ (c : Combinator) {m : Matcher}, c.link d rule = .ok m →
      (∀ text ∈ c.texts, d.names.text (d.names.intern text).1 = text) →
      m.unlink d = c.byKind d.vocabulary
  | .token t text keep, m, h, known => by
    obtain ⟨kind, found, rfl⟩ := Linked.map_eq_ok h
    have texts : (text.map fun text => (d.names.intern text).1).map d.names.text = text := by
      cases text with
      | none => rfl
      | some text => exact congrArg some (known text (List.mem_singleton_self text))
    rw [Matcher.unlink, byKind, Directory.name_of_tokenKind found, texts]
  | .rule name, m, h, _ => by
    obtain ⟨ref, found, rfl⟩ := Linked.map_eq_ok h
    rw [Matcher.unlink, byKind, Directory.ruleName_of_ruleRef? (Linked.ofOption_eq_ok found)]
  | .seq items, m, h, known => by
    obtain ⟨ms, linked, rfl⟩ := Linked.map_eq_ok h
    rw [Matcher.unlink, byKind, unlinkAll_linkAll items linked known]
  | .choice alternatives, m, h, known => by
    obtain ⟨ms, linked, rfl⟩ := Linked.map_eq_ok h
    rw [Matcher.unlink, byKind, unlinkAll_linkAll alternatives linked known]
  | .opt c, m, h, known => by
    obtain ⟨n, linked, rfl⟩ := Linked.map_eq_ok h
    rw [Matcher.unlink, byKind, unlink_link c linked known]
  | .group c, m, h, known => by
    obtain ⟨n, linked, rfl⟩ := Linked.map_eq_ok h
    rw [Matcher.unlink, byKind, unlink_link c linked known]
  | .list repetition c, m, h, known => by
    obtain ⟨n, linked, rfl⟩ := Linked.map_eq_ok h
    rw [Matcher.unlink, byKind, unlink_link c linked known]
  | .sepList repetition c separator, m, h, known => by
    obtain ⟨⟨n, k⟩, linked, rfl⟩ := Linked.map_eq_ok h
    obtain ⟨first, second⟩ := Linked.both_eq_ok linked
    obtain ⟨known, known'⟩ := List.forall_mem_append.mp known
    rw [Matcher.unlink, byKind, unlink_link c first known, unlink_link separator second known']
  | .cut, m, h, _ => by
    obtain rfl := Except.ok.inj h
    rfl
  | .predicate name c, m, h, known => by
    obtain ⟨⟨n, ref⟩, linked, rfl⟩ := Linked.map_eq_ok h
    obtain ⟨first, second⟩ := Linked.both_eq_ok linked
    rw [Matcher.unlink, byKind, unlink_link c first known,
      Directory.predicateName_of_predicateRef? (Linked.ofOption_eq_ok second)]
  | .skip errorType, m, h, _ => by
    obtain ⟨ref, found, rfl⟩ := Linked.map_eq_ok h
    rw [Matcher.unlink, byKind, Directory.name_of_nodeRef found]
  | .protect c guard, m, h, known => by
    obtain ⟨⟨n, k⟩, linked, rfl⟩ := Linked.map_eq_ok h
    obtain ⟨first, second⟩ := Linked.both_eq_ok linked
    obtain ⟨known, known'⟩ := List.forall_mem_append.mp known
    rw [Matcher.unlink, byKind, unlink_link c first known, unlink_link guard second known']
  | .null type, m, h, _ => by
    obtain ⟨ref, found, rfl⟩ := Linked.map_eq_ok h
    rw [Matcher.unlink, byKind, Directory.name_of_nodeRef found]
  | .node type c, m, h, known => by
    obtain ⟨⟨n, ref⟩, linked, rfl⟩ := Linked.map_eq_ok h
    obtain ⟨first, second⟩ := Linked.both_eq_ok linked
    rw [Matcher.unlink, byKind, unlink_link c first known, Directory.name_of_nodeRef second]
  | .enum type alternative c, m, h, known => by
    obtain ⟨⟨n, ref, i⟩, linked, rfl⟩ := Linked.map_eq_ok h
    obtain ⟨first, second⟩ := Linked.both_eq_ok linked
    obtain ⟨typeName, name⟩ := Directory.names_of_alternative second
    rw [Matcher.unlink, byKind, unlink_link c first known, typeName, name]

/-- Several combinators read back as they were, but for token kinds. -/
theorem unlinkAll_linkAll :
    ∀ (cs : List Combinator) {ms : List Matcher}, linkAll d rule cs = .ok ms →
      (∀ text ∈ textsOfAll cs, d.names.text (d.names.intern text).1 = text) →
      Matcher.unlinkAll d ms = byKindAll d.vocabulary cs
  | [], ms, h, _ => by
    obtain rfl := Except.ok.inj h
    rfl
  | c :: cs, ms, h, known => by
    obtain ⟨⟨n, ns⟩, linked, rfl⟩ := Linked.map_eq_ok h
    obtain ⟨first, others⟩ := Linked.both_eq_ok linked
    obtain ⟨known, known'⟩ := List.forall_mem_append.mp known
    rw [Matcher.unlinkAll, byKindAll, unlink_link c first known, unlinkAll_linkAll cs others known']

end

end Combinator

/-- Where the names of a program's numbers are. -/
def Program.directory (p : Program) (names : Interner) : Directory where
  vocabulary := p.vocabulary
  schema := p.schema
  rules := p.rules.toList.map Rule.name
  predicates := p.predicates.toList.map Predicate.name
  names := names

/-- The program's rule of the name yields so many values, and its body reads back to the
combinator. -/
def Program.HasRule (p : Program) (names : Interner) (name : String) (arity : Nat)
    (body : Combinator) : Prop :=
  ∃ ref rule, p.lookupRule? name = some ref ∧ p.rule? ref = some rule ∧
    p.arity rule.body = arity ∧ rule.body.unlink (p.directory names) = body

namespace Grammar

variable {g : Grammar} {names : Interner} {entry : RuleRef}

/-- The program of a grammar has its rules. -/
theorem hasRule_programOver (distinct : g.Distinct) (known : g.Known names)
    {rule : String × Combinator} (among : rule ∈ g.rules) :
    (g.programOver names entry).HasRule (names.internAll g.texts) rule.1
      ((g.programOver names entry).arity ((g.directoryOver names).body rule))
      (rule.2.byKind g.vocabulary) := by
  have directory : (g.programOver names entry).directory (names.internAll g.texts) =
      g.directoryOver names := by
    rw [Program.directory, programOver, List.toList_toArray, List.map_map]
    rfl
  obtain ⟨ref, found⟩ := ruleRef?_of_mem (names.internAll g.texts) among
  have lookup : (g.programOver names entry).lookupRule? rule.1 = some ref := by
    rw [← found, Program.lookupRule?, programOver, List.findIdx?_toArray, Directory.ruleRef?,
      Grammar.directory, List.findIdx?_map, List.findIdx?_map]
    rfl
  have listed : (g.programOver names entry).rule? ref =
      some ⟨rule.1, (g.directoryOver names).body rule⟩ := by
    rw [Program.rule?, programOver, List.getElem?_toArray, List.getElem?_map,
      getElem?_of_mem distinct among found, Option.map_some]
  refine ⟨ref, _, lookup, listed, rfl, ?_⟩
  rw [directory]
  exact Combinator.unlink_link rule.2 (known.link among) fun _ => texts_known among

end Grammar

end CombinatorGrammar
