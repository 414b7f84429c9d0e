import CombinatorGrammar.Proofs.Program.Defects

/-!
# Names that are mentioned

A combinator mentions names: of token kinds and their fixed texts, of rules, predicates and types.
Each occurrence of a name either belongs to something that the grammar has, or dangles. Linking
judges every occurrence by itself, those in operands before those of the combinator around them and
from left to right, so what it lists are the occurrences that dangle, no more and no fewer, and it
succeeds just where none does.
-/

namespace CombinatorGrammar

/-- An occurrence of a name in a combinator. -/
inductive Mention where
  | tokenKind (name : String)
  | literal (text : String)
  | rule (name : String)
  | predicate (name : String)
  | nodeType (name : String)
  /-- An alternative is mentioned together with its enum type, in which it is looked up. -/
  | alternative (type name : String)
  deriving DecidableEq

/-- The name by which a token match says what it matches. -/
def TokenName.mention : TokenName → Mention
  | kind name => .tokenKind name
  | literal text => .literal text

namespace Combinator

mutual

/-- The names that a combinator mentions: those in its operands, from left to right, and then those
of its own. -/
def mentions : Combinator → List Mention
  | .token t _ _ => [t.mention]
  | .rule name => [.rule name]
  | .seq items => mentionsOfAll items
  | .choice alternatives => mentionsOfAll alternatives
  | .opt operand => operand.mentions
  | .group operand => operand.mentions
  | .list _ element => element.mentions
  | .sepList _ element separator => element.mentions ++ separator.mentions
  | .cut => []
  | .predicate name operand => operand.mentions ++ [.predicate name]
  | .skip errorType => [.nodeType errorType]
  | .protect operand guard => operand.mentions ++ guard.mentions
  | .null type => [.nodeType type]
  | .node type operand => operand.mentions ++ [.nodeType type]
  | .enum type alternative operand => operand.mentions ++ [.alternative type alternative]

/-- The names that several combinators mention, from left to right. -/
def mentionsOfAll : List Combinator → List Mention
  | [] => []
  | c :: cs => c.mentions ++ mentionsOfAll cs

end

end Combinator

/-- The declaration of the enum type of a name. -/
def Schema.enumOfName? (s : Schema) (name : String) : Option EnumType :=
  s.enums.find? fun type => type.name == name

/-- It is the declaration of the type that the name is looked up to. -/
theorem Schema.enumOfName?_eq (s : Schema) (name : String) :
    s.enumOfName? name = (s.lookupEnum? name).bind s.enum? := by
  rw [enumOfName?, lookupEnum?]
  cases found : s.enums.findIdx? fun type => type.name == name with
  | none =>
    refine Array.find?_eq_none.mpr fun type among same => ?_
    rw [Array.findIdx?_eq_none_iff.mp found type among] at same
    cases same
  | some i =>
    obtain ⟨inside, same, first⟩ := Array.findIdx?_eq_some_iff_getElem.mp found
    rw [Option.map_some, Option.bind_some, enum?, Array.getElem?_eq_getElem inside,
      Array.find?_eq_some_iff_getElem]
    exact ⟨same, i, inside, rfl, fun j earlier => by simpa using first j earlier⟩

namespace Grammar

/-- The grammar has what is mentioned. -/
def Provides (g : Grammar) : Mention → Prop
  | .tokenKind name => name ∈ g.vocabulary.names.entries
  | .literal text => some text ∈ g.vocabulary.literals
  | .rule name => name ∈ g.rules.map Prod.fst
  | .predicate name => name ∈ g.predicates.map Predicate.name
  | .nodeType name => name ∈ g.schema.nodes.toList.map NodeType.name
  | .alternative type name =>
    name ∈ ((g.schema.enumOfName? type).map EnumType.alternatives).getD []

instance (g : Grammar) : DecidablePred g.Provides := fun m => by
  cases m <;> unfold Provides <;> infer_instance

/-- What is wrong with a name that dangles in the body of a rule. Of an alternative it is the type
that is unknown, if there is no such type. -/
def defectOf (g : Grammar) (rule : String) : Mention → Defect
  | .tokenKind name => .unknownTokenKind rule name
  | .literal text => .unknownLiteral rule text
  | .rule name => .undefinedRule rule name
  | .predicate name => .undefinedPredicate rule name
  | .nodeType name => .unknownNodeType name
  | .alternative type name =>
    if (g.schema.enumOfName? type).isSome then .unknownEnumAlternative type name
    else .unknownEnumType type

/-- One defect for every name among the mentioned ones that dangles, in their order. -/
def dangling (g : Grammar) (rule : String) (mentions : List Mention) : List Defect :=
  (mentions.filter fun m => ¬ g.Provides m).map (g.defectOf rule)

/-- The rule at which parsing starts exists, and so does all that the rules mention. -/
def Complete (g : Grammar) : Prop :=
  g.entry ∈ g.rules.map Prod.fst ∧ ∀ rule ∈ g.rules, ∀ m ∈ rule.2.mentions, g.Provides m

instance (g : Grammar) : Decidable g.Complete := inferInstanceAs (Decidable (_ ∧ _))

variable {g : Grammar} {rule : String}

/-- The dangling names among some mentions come before those among the next. -/
theorem dangling_append (ms more : List Mention) :
    g.dangling rule (ms ++ more) = g.dangling rule ms ++ g.dangling rule more := by
  simp only [dangling, List.filter_append, List.map_append]

/-- A mention dangles if the grammar does not provide it. -/
theorem dangling_singleton (m : Mention) :
    g.dangling rule [m] = if g.Provides m then [] else [g.defectOf rule m] := by
  by_cases h : g.Provides m <;> simp [dangling, h]

/-- Nothing dangles if the grammar provides all that is mentioned. -/
theorem dangling_eq_nil_iff {ms : List Mention} :
    g.dangling rule ms = [] ↔ ∀ m ∈ ms, g.Provides m := by
  simp [dangling, List.filter_eq_nil_iff]

end Grammar

namespace Linked

variable {α β : Type}

/-- There is a result if nothing is wrong, and otherwise the defects are the reasons. -/
def Lists (defects : List Defect) : Linked α → Prop
  | .ok _ => defects = []
  | .error reasons => reasons = defects ∧ defects ≠ []

variable {a : Linked α} {b : Linked β} {defects more : List Defect}

/-- A map does not change what dangles. -/
theorem Lists.map (h : a.Lists defects) (f : α → β) : Linked.Lists defects (a.map f) := by
  cases a <;> exact h

/-- The defects of both are those of the first and then those of the second. -/
theorem Lists.both (first : a.Lists defects) (second : b.Lists more) :
    (a.both b).Lists (defects ++ more) := by
  cases a with
  | ok a =>
    obtain rfl : defects = [] := first
    cases b <;> exact second
  | error reasons =>
    obtain ⟨rfl, some⟩ := first
    cases b with
    | ok b =>
      obtain rfl : more = [] := second
      rw [List.append_nil]
      exact ⟨rfl, some⟩
    | error reasons' =>
      obtain ⟨rfl, _⟩ := second
      exact ⟨rfl, List.append_ne_nil_of_left_ne_nil some _⟩

/-- What is linked without a defect is linked. -/
theorem Lists.isOk_iff (h : a.Lists defects) : a.isOk = true ↔ defects = [] := by
  cases a with
  | ok a => exact ⟨fun _ => h, fun _ => rfl⟩
  | error reasons => exact ⟨nofun, fun none => absurd none h.2⟩

end Linked

namespace Directory

variable {g : Grammar} {names : Interner} {rule : String} {α : Type}

/-- Looking up a name lists it just where it dangles. -/
theorem lists_ofOption {found : Option α} {m : Mention}
    (has : found.isSome = true ↔ g.Provides m) :
    (Linked.ofOption (g.defectOf rule m) found).Lists (g.dangling rule [m]) := by
  rw [Grammar.dangling_singleton]
  cases found with
  | none =>
    rw [if_neg fun here => Bool.false_ne_true (has.mpr here)]
    exact ⟨rfl, List.cons_ne_nil _ _⟩
  | some a => exact if_pos (has.mp rfl)

/-- A token kind is found under a name if it is one of the names. -/
theorem isSome_kind?_iff {v : Vocabulary} {name : String} :
    (v.kind? name).isSome = true ↔ name ∈ v.names.entries := by
  rw [Vocabulary.kind?, Option.isSome_map, Option.isSome_iff_exists, Array.mem_iff_getElem?]
  exact exists_congr fun i => v.names.find?_eq_some_iff name i

/-- A token kind is found by a fixed text if it is one of the fixed texts. -/
theorem isSome_literalKind?_iff {v : Vocabulary} {text : String} :
    (v.literalKind? text).isSome = true ↔ some text ∈ v.literals := by
  rw [Vocabulary.literalKind?_eq, Option.isSome_map, Array.findIdx?_isSome, Array.any_eq_true']
  simp

/-- A token kind dangles where its name is not found. -/
theorem lists_tokenKind (g : Grammar) (names : Interner) (rule : String) (t : TokenName) :
    ((g.directory names).tokenKind rule t).Lists (g.dangling rule [t.mention]) := by
  cases t with
  | kind name => exact lists_ofOption isSome_kind?_iff
  | literal text => exact lists_ofOption isSome_literalKind?_iff

/-- A text has a place in a list if it is in the list. -/
theorem isSome_findIdx?_iff {name : String} {listed : List String} :
    (listed.findIdx? (· == name)).isSome = true ↔ name ∈ listed := by
  simp [List.findIdx?_isSome]

/-- A rule dangles where its name is not found. -/
theorem lists_ruleRef (g : Grammar) (names : Interner) (rule name : String) :
    (Linked.ofOption (.undefinedRule rule name) ((g.directory names).ruleRef? name)).Lists
      (g.dangling rule [.rule name]) :=
  lists_ofOption (m := .rule name) (by
    rw [ruleRef?, Option.isSome_map]
    exact isSome_findIdx?_iff)

/-- A predicate dangles where its name is not found. -/
theorem lists_predicateRef (g : Grammar) (names : Interner) (rule name : String) :
    (Linked.ofOption (.undefinedPredicate rule name)
      ((g.directory names).predicateRef? name)).Lists (g.dangling rule [.predicate name]) :=
  lists_ofOption (m := .predicate name) (by
    rw [predicateRef?, Option.isSome_map]
    exact isSome_findIdx?_iff)

/-- A type is found under a name if it is the name of a type. -/
theorem isSome_lookup?_iff {s : Schema} {name : String} :
    (s.lookup? name).isSome = true ↔ name ∈ s.nodes.toList.map NodeType.name := by
  rw [Schema.lookup?, Option.isSome_map, Array.findIdx?_isSome, Array.any_eq_true']
  simp

/-- A type dangles where its name is not found. -/
theorem lists_nodeRef (g : Grammar) (names : Interner) (rule name : String) :
    ((g.directory names).nodeRef name).Lists (g.dangling rule [.nodeType name]) :=
  lists_ofOption (m := .nodeType name) isSome_lookup?_iff

/-- An enum type is looked up by its name, and an alternative in its type. -/
theorem lists_alternative (g : Grammar) (names : Interner) (rule type name : String) :
    ((g.directory names).alternative type name).Lists
      (g.dangling rule [.alternative type name]) := by
  have declared := g.schema.enumOfName?_eq type
  have schema : (g.directory names).schema = g.schema := rfl
  rw [alternative, schema]
  cases found : g.schema.lookupEnum? type with
  | none =>
    rw [found, Option.bind_none] at declared
    rw [Grammar.dangling_singleton]
    simp [Grammar.Provides, Grammar.defectOf, declared, Linked.Lists]
  | some ref =>
    have inside : ref.index < g.schema.enums.size := by
      obtain ⟨i, among, rfl⟩ := Option.map_eq_some_iff.mp found
      exact (Array.findIdx?_eq_some_iff_getElem.mp among).1
    rw [found, Option.bind_some, Schema.enum?, Array.getElem?_eq_getElem inside] at declared
    have defect : g.defectOf rule (.alternative type name) = .unknownEnumAlternative type name := by
      rw [Grammar.defectOf, declared]
      rfl
    rw [← defect]
    refine lists_ofOption ?_
    rw [Option.isSome_map, Schema.alternativeIndex?, Schema.enum?,
      Array.getElem?_eq_getElem inside, Option.bind_some, isSome_findIdx?_iff, Grammar.Provides,
      declared]
    rfl

end Directory

namespace Combinator

variable {g : Grammar} {names : Interner} (rule : String)

mutual

/-- Linking a combinator lists the names that dangle in it. -/
theorem lists_link : ∀ c : Combinator,
    (c.link (g.directory names) rule).Lists (g.dangling rule c.mentions)
  | .token t text keep => (Directory.lists_tokenKind g names rule t).map _
  | .rule name => (Directory.lists_ruleRef g names rule name).map _
  | .seq items => (lists_linkAll items).map _
  | .choice alternatives => (lists_linkAll alternatives).map _
  | .opt c => (lists_link c).map _
  | .group c => (lists_link c).map _
  | .list _ c => (lists_link c).map _
  | .sepList _ c separator => by
    rw [mentions, Grammar.dangling_append]
    exact ((lists_link c).both (lists_link separator)).map _
  | .cut => rfl
  | .predicate name c => by
    rw [mentions, Grammar.dangling_append]
    exact ((lists_link c).both (Directory.lists_predicateRef g names rule name)).map _
  | .skip errorType => (Directory.lists_nodeRef g names rule errorType).map _
  | .protect c guard => by
    rw [mentions, Grammar.dangling_append]
    exact ((lists_link c).both (lists_link guard)).map _
  | .null type => (Directory.lists_nodeRef g names rule type).map _
  | .node type c => by
    rw [mentions, Grammar.dangling_append]
    exact ((lists_link c).both (Directory.lists_nodeRef g names rule type)).map _
  | .enum type alternative c => by
    rw [mentions, Grammar.dangling_append]
    exact ((lists_link c).both (Directory.lists_alternative g names rule type alternative)).map _

/-- Several combinators list what dangles in each, in their order. -/
theorem lists_linkAll : ∀ cs : List Combinator,
    (linkAll (g.directory names) rule cs).Lists (g.dangling rule (mentionsOfAll cs))
  | [] => rfl
  | c :: cs => by
    rw [mentionsOfAll, Grammar.dangling_append]
    exact ((lists_link c).both (lists_linkAll cs)).map _

end

end Combinator

namespace Grammar

variable {g : Grammar} {names : Interner}

/-- The defects of the names in the body of a rule are those of the names that dangle in it. -/
theorem nameDefects_eq (g : Grammar) (names : Interner) (rule : String × Combinator) :
    (g.directory names).nameDefects rule = g.dangling rule.1 rule.2.mentions := by
  have listed : (rule.2.link (g.directory names) rule.1).Lists
      (g.dangling rule.1 rule.2.mentions) := Combinator.lists_link rule.1 rule.2
  rw [Directory.nameDefects]
  cases linked : rule.2.link (g.directory names) rule.1 with
  | ok m =>
    rw [linked] at listed
    exact listed.symm
  | error defects =>
    rw [linked] at listed
    exact listed.1

/-- The names of a rule are known if the grammar provides all that is mentioned. -/
theorem links_iff {rule : String × Combinator} :
    (g.directory names).links rule = true ↔ ∀ m ∈ rule.2.mentions, g.Provides m :=
  (Combinator.lists_link rule.1 rule.2).isOk_iff.trans dangling_eq_nil_iff

/-- A rule is found under a name if it is the name of a rule. -/
theorem ruleRef?_ne_none_iff {name : String} :
    (g.directory names).ruleRef? name ≠ none ↔ name ∈ g.rules.map Prod.fst := by
  rw [← Option.isSome_iff_ne_none, Directory.ruleRef?, Option.isSome_map]
  exact Directory.isSome_findIdx?_iff

/-- A grammar is linked, over whatever interner, just where it has all that it mentions. -/
theorem known_iff_complete : g.Known names ↔ g.Complete := by
  refine and_congr ruleRef?_ne_none_iff ?_
  rw [List.all_eq_true]
  exact forall₂_congr fun rule _ => links_iff

/-- The entry is missing if it is not the name of a rule. -/
theorem missingEntry_eq (g : Grammar) :
    g.missingEntry = if g.entry ∈ g.rules.map Prod.fst then [] else [.noEntryRule g.entry] := by
  have known : (g.directory .initial).ruleRef? g.entry ≠ none ↔ g.entry ∈ g.rules.map Prod.fst :=
    ruleRef?_ne_none_iff
  rw [missingEntry]
  split
  · next missing => rw [if_neg fun among => known.mpr among missing]
  · next found => rw [if_pos (known.mp found)]

/-- A grammar is linked if and only if it has the rule at which parsing starts and everything that
its rules mention. Otherwise resolving it fails with the names that dangle: first that of the entry
rule, if it is one, and then, rule by rule, one defect for each occurrence in the order of the
mentions. -/
theorem dangling_names_listed (g : Grammar) (names : Interner) :
    ((g.link (names.internAll g.texts)).isOk = true ↔
      g.entry ∈ g.rules.map Prod.fst ∧ ∀ rule ∈ g.rules, ∀ m ∈ rule.2.mentions, g.Provides m) ∧
    ((g.link (names.internAll g.texts)).isOk = false →
      g.resolve names = .error
        ((if g.entry ∈ g.rules.map Prod.fst then [] else [.noEntryRule g.entry]) ++
          g.rules.flatMap fun rule =>
            (rule.2.mentions.filter fun m => ¬ g.Provides m).map (g.defectOf rule.1))) := by
  have linked : (g.link (names.internAll g.texts)).isOk = true ↔ g.Complete :=
    known_iff.symm.trans known_iff_complete
  refine ⟨linked, fun failed => ?_⟩
  have unknown : ¬ g.Known names := fun known => by
    rw [known_iff.mp known] at failed
    cases failed
  rw [resolve_of_not_known unknown, missingEntry_eq]
  exact congrArg (fun listed => Except.error (_ ++ listed))
    (List.flatMap_congr fun rule _ => nameDefects_eq g _ rule)

/-- Rules that mention little that there is, and no rule at which parsing starts. -/
def adrift : Grammar :=
  ⟨letters, .empty,
    [("list", .enum "Kind" "one" (.seq [.kind "Number", .lit "=>", .node "List" (.lit "a")])),
      ("item", .choice [.rule "list", .rule "none", .predicate "odd" (.opt (.rule "none"))])],
    [], "main"⟩

/-- Each name is listed as often as it is mentioned, that of the enum type behind those in its
operand. -/
theorem dangling_names_listed_adrift :
    (adrift.link (Interner.initial.internAll adrift.texts)).isOk = false ∧
      adrift.resolve .initial = .error [.noEntryRule "main", .unknownTokenKind "list" "Number",
        .unknownLiteral "list" "=>", .unknownNodeType "List", .unknownEnumType "Kind",
        .undefinedRule "item" "none", .undefinedRule "item" "none",
        .undefinedPredicate "item" "odd"] := by
  have failed : (adrift.link (Interner.initial.internAll adrift.texts)).isOk = false := by
    decide +kernel
  refine ⟨failed, ((dangling_names_listed adrift .initial).2 failed).trans (congrArg _ ?_)⟩
  decide +kernel

end Grammar

end CombinatorGrammar
