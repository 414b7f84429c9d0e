import CombinatorGrammar.Proofs.Likeness.Texts
import CombinatorGrammar.Proofs.Text.Bytes
import CombinatorGrammar.Proofs.Text.Quoting
import CombinatorGrammar.Tree.Outline

/-!
# Outlines can be read back

Where types and kinds have names that are words, an outline tells the value but for its spans. The
first line of a value, up to where the letters end and what stands behind them, tells what the
value is; the type of a node then tells its fields, and a list goes on until a bracket stands
further to the left than an item could. So no outline begins another one.
-/

namespace CombinatorGrammar

open Text

/-- A name of letters that is not the word for what is absent. -/
def IsWord (name : String) : Prop := (∀ c ∈ name.toList, c.isAlpha = true) ∧ name ≠ "null"

instance (name : String) : Decidable (IsWord name) :=
  decidable_of_iff (name.toList.all Char.isAlpha = true ∧ name ≠ "null") <| by
    rw [IsWord, List.all_eq_true]

/-- The names of types are words and lead back to them. -/
structure Schema.Legible (s : Schema) : Prop where
  types : ∀ type : NodeRef, type.index < s.nodes.size →
    IsWord (s.name type) ∧ s.name type ≠ "Termination" ∧ s.lookup? (s.name type) = some type
  enums : ∀ (ref : EnumRef) (type : EnumType), s.enum? ref = some type →
    IsWord type.name ∧ s.lookupEnum? type.name = some ref ∧ type.alternatives.Nodup ∧
      ∀ alternative ∈ type.alternatives, '\n' ∉ alternative.toList

instance (s : Schema) : Decidable s.Legible :=
  decidable_of_iff
    ((∀ i : Fin s.nodes.size, IsWord (s.name ⟨i⟩) ∧ s.name ⟨i⟩ ≠ "Termination" ∧
        s.lookup? (s.name ⟨i⟩) = some ⟨i⟩) ∧
      ∀ i : Fin s.enums.size, ∀ type ∈ s.enum? ⟨i⟩, IsWord type.name ∧
        s.lookupEnum? type.name = some ⟨i⟩ ∧ type.alternatives.Nodup ∧
        ∀ alternative ∈ type.alternatives, '\n' ∉ alternative.toList) <| by
    constructor
    · rintro ⟨types, enums⟩
      refine ⟨fun type inside => types ⟨type.index, inside⟩, fun ref type found => ?_⟩
      exact enums ⟨ref.index, (Array.getElem?_eq_some_iff.mp found).1⟩ type found
    · intro legible
      exact ⟨fun i => legible.types ⟨i⟩ i.isLt, fun i => legible.enums ⟨i⟩⟩

/-- The names of kinds are words, and a fixed text leads back to its kind. -/
structure Vocabulary.Legible (v : Vocabulary) : Prop where
  kinds : ∀ (kind : TokenKind) (name : String), v.names.get? kind.index = some name → IsWord name
  literals : ∀ (kind : TokenKind) (text : String), v.literal? kind = some text →
    v.literalKind? text = some kind ∧ '\n' ∉ text.toList

instance (v : Vocabulary) : Decidable v.Legible :=
  decidable_of_iff
    ((∀ name ∈ v.names.entries, IsWord name) ∧ ∀ i : Fin v.literals.size,
      ∀ text ∈ v.literal? ⟨i⟩, v.literalKind? text = some ⟨i⟩ ∧ '\n' ∉ text.toList) <| by
    constructor
    · rintro ⟨kinds, literals⟩
      refine ⟨fun kind name named => kinds name (Array.mem_of_getElem? named),
        fun kind text fixed => ?_⟩
      have inside := (Array.getElem?_eq_some_iff.mp (Option.join_eq_some_iff.mp fixed)).1
      exact literals ⟨kind.index, inside⟩ text fixed
    · intro legible
      refine ⟨fun name among => ?_, fun i => legible.literals ⟨i⟩⟩
      obtain ⟨i, inside, rfl⟩ := Array.mem_iff_getElem.mp among
      exact legible.kinds ⟨i⟩ _ (Array.getElem?_eq_getElem inside)

/-- What outlines can be read with. -/
structure Legible (vocabulary : Vocabulary) (s : Schema) : Prop where
  schema : s.Legible
  vocabulary : vocabulary.Legible

/-- The token is of a kind of the vocabulary and has a text, which is that of its kind if there is
one. -/
structure Token.Spelled (vocabulary : Vocabulary) (names : Interner) (t : Token) : Prop where
  kind : ∃ name, vocabulary.names.get? t.kind.index = some name
  text : ∃ text, names.Gives t.text text ∧
    (∀ word, vocabulary.literal? t.kind = some word → text = word) ∧
    (t.kind.isTermination = true → text = "")

/-- All that the value is built from is declared, nodes have all their fields, and tokens have the
texts of their kinds. -/
inductive Value.Spelled (vocabulary : Vocabulary) (s : Schema) (names : Interner) : Value → Prop
  | token {t : Token} : t.Spelled vocabulary names → Spelled vocabulary s names (.token t)
  | node {type : NodeRef} {span : Span} {fields : List Value} : type.index < s.nodes.size →
      fields.length = (s.layout type).length → (∀ v ∈ fields, Spelled vocabulary s names v) →
      Spelled vocabulary s names (.node type span fields)
  | list {items : List Value} : (∀ v ∈ items, Spelled vocabulary s names v) →
      Spelled vocabulary s names (.list items)
  | enum {ref : EnumRef} {type : EnumType} {alternative : Nat} {span : Span} :
      s.enum? ref = some type → alternative < type.alternatives.length →
      Spelled vocabulary s names (.enum ref alternative span)
  | null : Spelled vocabulary s names .null
  | absent {type : NodeRef} : type.index < s.nodes.size → Spelled vocabulary s names (.absent type)

namespace OutlineContext

section Lines

variable (cx : OutlineContext)

/-- The first line of a value, behind its label. -/
def head : Value → String
  | .token t => cx.token t
  | .node type _ _ => cx.schema.name type ++ if cx.schema.isError type then " <error>" else ""
  | .list [] => "[]"
  | .list (_ :: _) => "["
  | .enum ref alternative _ => cx.enum ref alternative
  | .null => "null"
  | .absent type => "null " ++ cx.schema.name type

/-- The lines of a value behind the first one. -/
def body (indent : Nat) : Value → String
  | .node type _ fields => cx.fieldEntries (indent + 2) (cx.schema.layout type) fields
  | .list (item :: items) => cx.itemEntries (indent + 2) (item :: items) ++ line indent "]"
  | _ => ""

/-- The characters of a line are its indentation, its text and a line break. -/
theorem toList_line (indent : Nat) (text : String) :
    (line indent text).toList = List.replicate indent ' ' ++ (text.toList ++ ['\n']) := by
  rw [line, String.toList_append, String.toList_append, toList_pushn, List.append_assoc]
  rfl

/-- The characters of an entry are its first line and what stands below. -/
theorem toList_entry (indent : Nat) (label : String) (v : Value) :
    (cx.entry indent label v).toList = List.replicate indent ' ' ++
      (label.toList ++ ((cx.head v).toList ++ '\n' :: (cx.body indent v).toList)) := by
  cases v with
  | token t => simp [entry, head, body, toList_line]
  | node type span fields =>
    simp only [entry, head, body, toList_line, String.toList_append, List.append_assoc,
      List.singleton_append]
  | list items =>
    cases items <;> simp [entry, itemEntries, head, body, toList_line]
  | enum ref alternative span => simp [entry, head, body, toList_line]
  | null => simp [entry, head, body, toList_line]
  | absent type =>
    simp [entry, head, body, toList_line]
    rfl

/-- What follows an entry follows what stands below it. -/
theorem toList_entry_append (indent : Nat) (label : String) (v : Value) (rest : List Char) :
    (cx.entry indent label v).toList ++ rest = List.replicate indent ' ' ++ label.toList ++
      ((cx.head v).toList ++ '\n' :: ((cx.body indent v).toList ++ rest)) := by
  rw [toList_entry]
  simp only [List.append_assoc, List.cons_append]

end Lines

/-- What a value is, as far as its first line tells. -/
inductive Mark where
  | token
  | node
  | empty
  | items
  | enum
  | null
  | absent

def mark : Value → Mark
  | .token _ => .token
  | .node _ _ _ => .node
  | .list [] => .empty
  | .list (_ :: _) => .items
  | .enum _ _ _ => .enum
  | .null => .null
  | .absent _ => .absent

/-- Read off what a value is from the letters that its first line begins with and from what stands
behind them. -/
def readMark (word behind : List Char) : Mark :=
  if word = "null".toList then if behind = [] then .null else .absent
  else match behind with
    | [] => if word = "Termination".toList then .token else .node
    | '\'' :: _ => .token
    | '[' :: ']' :: _ => .empty
    | '[' :: _ => .items
    | '.' :: _ => .enum
    | ' ' :: '"' :: _ => .token
    | _ => .node

/-- The letters that the first line of a value begins with, and what stands behind them. -/
inductive Heads (cx : OutlineContext) : Value → List Char → List Char → Prop
  | fixed {t : Token} {text : String} : cx.vocabulary.literal? t.kind = some text →
      Heads cx (.token t) [] ('\'' :: (text.toList ++ ['\'']))
  | termination {t : Token} : t.kind = .termination →
      Heads cx (.token t) "Termination".toList []
  | spelled {t : Token} {name : String} : cx.vocabulary.literal? t.kind = none →
      t.kind.isTermination = false → cx.vocabulary.names.get? t.kind.index = some name →
      Heads cx (.token t) name.toList (' ' :: (quoted (cx.names.text t.text)).toList)
  | node {type : NodeRef} {span : Span} {fields : List Value} : type.index < cx.schema.nodes.size →
      Heads cx (.node type span fields) (cx.schema.name type).toList
        (if cx.schema.isError type then " <error>".toList else [])
  | empty : Heads cx (.list []) [] ['[', ']']
  | items {item : Value} {items : List Value} : Heads cx (.list (item :: items)) [] ['[']
  | enum {ref : EnumRef} {type : EnumType} {i : Nat} {alternative : String} {span : Span} :
      cx.schema.enum? ref = some type → type.alternatives[i]? = some alternative →
      Heads cx (.enum ref i span) type.name.toList ('.' :: alternative.toList)
  | null : Heads cx .null "null".toList []
  | absent {type : NodeRef} : type.index < cx.schema.nodes.size →
      Heads cx (.absent type) "null".toList (' ' :: (cx.schema.name type).toList)

section Heads

variable {cx : OutlineContext} {v w : Value} {word word' behind behind' : List Char}

/-- Every spelled value has a first line, with its first word and what stands behind. -/
theorem exists_heads (h : v.Spelled cx.vocabulary cx.schema cx.names) :
    ∃ word behind, Heads cx v word behind ∧ (cx.head v).toList = word ++ behind := by
  cases h with
  | @token t spelled =>
    obtain ⟨name, named⟩ := spelled.kind
    have called : cx.vocabulary.name t.kind = name := by
      rw [Vocabulary.name, named, Option.getD_some]
    cases fixed : cx.vocabulary.literal? t.kind with
    | some text =>
      refine ⟨_, _, .fixed fixed, ?_⟩
      simp [head, token, fixed]
      rfl
    | none =>
      cases last : t.kind.isTermination with
      | true =>
        refine ⟨_, _, .termination (eq_of_beq last), ?_⟩
        have first := cx.vocabulary.first.1
        rw [show 0 = t.kind.index by rw [eq_of_beq last]; rfl, named] at first
        simp [head, token, fixed, last, called, Option.some.inj first]
      | false =>
        refine ⟨_, _, .spelled fixed last named, ?_⟩
        simp [head, token, fixed, last, called]
        rfl
  | node declared _ _ =>
    refine ⟨_, _, .node declared, ?_⟩
    simp only [head, String.toList_append]
    split <;> rfl
  | @list items _ =>
    cases items with
    | nil => exact ⟨_, _, .empty, by simp [head]⟩
    | cons item items => exact ⟨_, _, .items, by simp [head]⟩
  | enum declared inside =>
    refine ⟨_, _, .enum declared (List.getElem?_eq_getElem inside), ?_⟩
    simp [head, OutlineContext.enum, Schema.enumName, declared, inside]
  | null => exact ⟨_, _, .null, by simp [head]⟩
  | absent declared =>
    refine ⟨_, _, .absent declared, ?_⟩
    simp [head]

/-- The letters in front and what is behind are where the letters end. -/
theorem Heads.span (legible : Legible cx.vocabulary cx.schema) (h : Heads cx v word behind) :
    (word ++ behind).takeWhile Char.isAlpha = word ∧
      (word ++ behind).dropWhile Char.isAlpha = behind := by
  have split (letters : ∀ c ∈ word, c.isAlpha = true)
      (ends : behind.takeWhile Char.isAlpha = [] ∧ behind.dropWhile Char.isAlpha = behind) :
      (word ++ behind).takeWhile Char.isAlpha = word ∧
        (word ++ behind).dropWhile Char.isAlpha = behind := by
    rw [List.takeWhile_append_of_pos letters, List.dropWhile_append_of_pos letters, ends.1, ends.2,
      List.append_nil]
    exact ⟨rfl, rfl⟩
  cases h with
  | fixed _ => exact split (List.forall_mem_nil _) ⟨rfl, rfl⟩
  | termination _ => exact split (List.all_eq_true.mp rfl) ⟨rfl, rfl⟩
  | spelled _ _ named => exact split (legible.vocabulary.kinds _ _ named).1 ⟨rfl, rfl⟩
  | node declared =>
    refine split (legible.schema.types _ declared).1.1 ?_
    split <;> exact ⟨rfl, rfl⟩
  | empty => exact split (List.forall_mem_nil _) ⟨rfl, rfl⟩
  | items => exact split (List.forall_mem_nil _) ⟨rfl, rfl⟩
  | enum declared _ => exact split (legible.schema.enums _ _ declared).1.1 ⟨rfl, rfl⟩
  | null => exact split (List.all_eq_true.mp rfl) ⟨rfl, rfl⟩
  | absent _ => exact split (List.all_eq_true.mp rfl) ⟨rfl, rfl⟩

/-- The first line of a value tells its mark. -/
theorem Heads.readMark_eq (legible : Legible cx.vocabulary cx.schema) (h : Heads cx v word behind) :
    readMark word behind = mark v := by
  have other {name : String} (h : IsWord name) : name.toList ≠ "null".toList :=
    fun same => h.2 (String.toList_inj.mp same)
  cases h with
  | fixed _ => rfl
  | termination _ => rfl
  | spelled _ _ named =>
    rw [readMark.eq_def, if_neg (other (legible.vocabulary.kinds _ _ named)), toList_quoted]
    rfl
  | @node type _ _ declared =>
    obtain ⟨isWord, notLast, _⟩ := legible.schema.types _ declared
    rw [readMark.eq_def, if_neg (other isWord)]
    cases cx.schema.isError type with
    | true => rfl
    | false => exact if_neg fun same => notLast (String.toList_inj.mp same)
  | empty => rfl
  | items => rfl
  | enum declared _ =>
    rw [readMark.eq_def, if_neg (other (legible.schema.enums _ _ declared).1)]
    rfl
  | null => rfl
  | absent _ => rfl

/-- Lines that are the same tell the same of the values that they begin. -/
theorem Heads.unique (legible : Legible cx.vocabulary cx.schema) {names : Interner}
    (h : Heads cx v word behind) (h' : Heads { cx with names := names } w word' behind')
    (same : word ++ behind = word' ++ behind') :
    mark v = mark w ∧ word = word' ∧ behind = behind' := by
  obtain ⟨word_eq, behind_eq⟩ := h.span legible
  have legible' : Legible { cx with names := names }.vocabulary { cx with names := names }.schema :=
    legible
  obtain ⟨word_eq', behind_eq'⟩ := h'.span legible'
  have words : word = word' := word_eq.symm.trans (same ▸ word_eq')
  have behinds : behind = behind' := behind_eq.symm.trans (same ▸ behind_eq')
  refine ⟨?_, words, behinds⟩
  rw [← h.readMark_eq legible, ← h'.readMark_eq legible', words, behinds]

/-- The first line of a value has no line break of its own. -/
theorem Heads.newline_not_mem (legible : Legible cx.vocabulary cx.schema)
    (h : Heads cx v word behind) : '\n' ∉ word ++ behind := by
  have plain {word : List Char} (letters : ∀ c ∈ word, c.isAlpha = true) : '\n' ∉ word :=
    fun among => absurd (letters _ among) (by decide)
  rw [List.mem_append, not_or]
  cases h with
  | fixed fixed =>
    have text := (legible.vocabulary.literals _ _ fixed).2
    exact ⟨List.not_mem_nil, by simpa using text⟩
  | termination _ => exact ⟨by decide, by decide⟩
  | spelled _ _ named =>
    exact ⟨plain (legible.vocabulary.kinds _ _ named).1, by simpa using newline_not_mem_quoted _⟩
  | @node type _ _ declared =>
    refine ⟨plain (legible.schema.types _ declared).1.1, ?_⟩
    split <;> decide
  | empty => exact ⟨by decide, by decide⟩
  | items => exact ⟨by decide, by decide⟩
  | enum declared inside =>
    obtain ⟨isWord, _, _, lines⟩ := legible.schema.enums _ _ declared
    have text := lines _ (List.mem_of_getElem? inside)
    exact ⟨plain isWord.1, by simpa using text⟩
  | null => exact ⟨by decide, by decide⟩
  | absent declared =>
    have text := plain (legible.schema.types _ declared).1.1
    exact ⟨by decide, by simpa using text⟩

end Heads

section Parts

variable {cx : OutlineContext} {names : Interner} {word word' behind behind' : List Char}

/-- Kinds of one name are the same. -/
theorem kind_eq_of_name {vocabulary : Vocabulary} {kind kind' : TokenKind} {name : String}
    (named : vocabulary.names.get? kind.index = some name)
    (named' : vocabulary.names.get? kind'.index = some name) : kind' = kind := by
  have found := (vocabulary.names.find?_eq_some_iff _ _).mpr named
  rw [(vocabulary.names.find?_eq_some_iff _ _).mpr named'] at found
  cases kind
  cases kind'
  exact congrArg TokenKind.mk (Option.some.inj found)

/-- Tokens that are shown alike have one kind and one text. -/
theorem like_of_heads_token (legible : Legible cx.vocabulary cx.schema) {t u : Token}
    (spelled : t.Spelled cx.vocabulary cx.names) (spelled' : u.Spelled cx.vocabulary names)
    (h : Heads cx (.token t) word behind)
    (h' : Heads { cx with names := names } (.token u) word' behind') (words : word = word')
    (behinds : behind = behind') : t.Like (.texts cx.names names fun _ _ => True) u := by
  obtain ⟨text, given, fixed, last⟩ := spelled.text
  obtain ⟨text', given', fixed', last'⟩ := spelled'.text
  have like (kinds : u.kind = t.kind) (texts : text = text') :
      t.Like (.texts cx.names names fun _ _ => True) u :=
    ⟨kinds, ⟨text, given, texts ▸ given'⟩, trivial⟩
  cases h with
  | fixed literal =>
    cases h' with
    | fixed literal' =>
      have same := String.toList_inj.mp (List.append_cancel_right (List.cons.inj behinds).2)
      have kind := (legible.vocabulary.literals _ _ literal).1
      have kind' := (legible.vocabulary.literals _ _ literal').1
      rw [← same, kind] at kind'
      apply like (Option.some.inj kind').symm
      rw [fixed _ literal, fixed' _ literal', same]
    | termination => cases behinds
    | spelled => exact absurd (List.cons.inj behinds).1 (by decide)
  | termination kind =>
    cases h' with
    | fixed => cases behinds
    | termination kind' =>
      apply like (kind'.trans kind.symm)
      rw [last (beq_iff_eq.mpr kind), last' (beq_iff_eq.mpr kind')]
    | spelled => cases behinds
  | spelled _ _ named =>
    cases h' with
    | fixed => exact absurd (List.cons.inj behinds).1 (by decide)
    | termination => cases behinds
    | spelled _ _ named' =>
      obtain rfl := String.toList_inj.mp words
      have texts := quoted_injective (String.toList_inj.mp (List.cons.inj behinds).2)
      apply like (kind_eq_of_name named named')
      rw [← Interner.text_of_gives given, texts]
      exact Interner.text_of_gives given'

/-- The first line of a node begins with the name of its type. -/
theorem Heads.word_node {type : NodeRef} {span : Span} {fields : List Value}
    (h : Heads cx (.node type span fields) word behind) :
    word = (cx.schema.name type).toList := by
  cases h
  rfl

theorem Heads.behind_absent {type : NodeRef} (h : Heads cx (.absent type) word behind) :
    behind = ' ' :: (cx.schema.name type).toList := by
  cases h
  rfl

/-- Types of one name are the same. -/
theorem type_eq_of_name (legible : Legible cx.vocabulary cx.schema) {type type' : NodeRef}
    (declared : type.index < cx.schema.nodes.size) (declared' : type'.index < cx.schema.nodes.size)
    (same : (cx.schema.name type).toList = (cx.schema.name type').toList) : type = type' := by
  have found := (legible.schema.types _ declared).2.2
  rw [String.toList_inj.mp same, (legible.schema.types _ declared').2.2] at found
  exact (Option.some.inj found).symm

/-- Enum values that are shown alike are the same alternative. -/
theorem enum_eq_of_heads (legible : Legible cx.vocabulary cx.schema) {ref ref' : EnumRef}
    {i i' : Nat} {span span' : Span} (h : Heads cx (.enum ref i span) word behind)
    (h' : Heads { cx with names := names } (.enum ref' i' span') word' behind')
    (words : word = word') (behinds : behind = behind') : ref = ref' ∧ i = i' := by
  cases h with
  | @enum _ type _ _ _ declared inside =>
    cases h' with
    | @enum _ type' _ _ _ declared' inside' =>
      obtain ⟨_, found, distinct, _⟩ := legible.schema.enums _ _ declared
      have found' := (legible.schema.enums _ _ declared').2.1
      rw [String.toList_inj.mp words, found'] at found
      obtain rfl := Option.some.inj found
      obtain rfl := Option.some.inj (declared.symm.trans declared')
      have alternatives := String.toList_inj.mp (List.cons.inj behinds).2
      rw [alternatives] at inside
      obtain ⟨bound, here⟩ := List.getElem?_eq_some_iff.mp inside
      obtain ⟨bound', here'⟩ := List.getElem?_eq_some_iff.mp inside'
      exact ⟨rfl, (List.getElem_inj distinct).mp (here.trans here'.symm)⟩

end Parts

section Entries

variable {cx : OutlineContext} {names : Interner} {v w : Value} {indent : Nat} {label : String}
  {rest rest' : List Char}

/-- Where two entries begin alike, their first lines are the same, and so are the other lines with
what follows. -/
theorem split_of_entry (legible : Legible cx.vocabulary cx.schema)
    (spelled : v.Spelled cx.vocabulary cx.schema cx.names)
    (spelled' : w.Spelled cx.vocabulary cx.schema names)
    (same : (cx.entry indent label v).toList ++ rest =
      (entry { cx with names := names } indent label w).toList ++ rest') :
    ∃ word behind, Heads cx v word behind ∧
      Heads { cx with names := names } w word behind ∧ mark v = mark w ∧
      (cx.body indent v).toList ++ rest =
        (body { cx with names := names } indent w).toList ++ rest' := by
  obtain ⟨word, behind, heads, line⟩ := exists_heads spelled
  obtain ⟨word', behind', heads', line'⟩ :
      ∃ word behind, Heads { cx with names := names } w word behind ∧
        (head { cx with names := names } w).toList = word ++ behind :=
    exists_heads spelled'
  have legible' : Legible { cx with names := names }.vocabulary { cx with names := names }.schema :=
    legible
  rw [toList_entry_append, toList_entry_append, line, line'] at same
  obtain ⟨lines, others⟩ := append_cons_inj_of_not_mem (heads.newline_not_mem legible)
    (heads'.newline_not_mem legible') (List.append_cancel_left same)
  obtain ⟨marks, rfl, rfl⟩ := heads.unique legible heads' lines
  exact ⟨word, behind, heads, heads', marks, others⟩

/-- The bracket that closes a list stands further to the left than an item. -/
theorem line_ne_item {item : Value} (names : Interner) :
    (line indent "]").toList ++ rest ≠
      (entry { cx with names := names } (indent + 2) "" item).toList ++ rest' := by
  intro same
  rw [toList_entry_append, toList_line, List.append_assoc, List.append_assoc, List.replicate_add,
    List.append_assoc, List.append_assoc] at same
  have bracket : ']' = ' ' := (List.cons.inj (List.append_cancel_left same)).1
  exact absurd bracket (by decide)

mutual

/-- No entry begins another one: entries that begin alike are entries of values that are alike, and
what follows them is the same. -/
theorem like_of_entry (legible : Legible cx.vocabulary cx.schema) :
    ∀ (v : Value) {w : Value}, v.Spelled cx.vocabulary cx.schema cx.names →
      w.Spelled cx.vocabulary cx.schema names → ∀ {indent : Nat} {label : String}
      {rest rest' : List Char}, (cx.entry indent label v).toList ++ rest =
        (entry { cx with names := names } indent label w).toList ++ rest' →
      v.Like (.texts cx.names names fun _ _ => True) w ∧ rest = rest'
  | .token t, w, spelled, spelled', indent, label, rest, rest', same => by
    obtain ⟨word, behind, heads, heads', marks, others⟩ :=
      split_of_entry legible spelled spelled' same
    cases w with
    | token u =>
      cases spelled with
      | token spelled =>
        cases spelled' with
        | token spelled' =>
          exact ⟨.token (like_of_heads_token legible spelled spelled' heads heads' rfl rfl), others⟩
    | list items => cases items <;> cases marks
    | _ => cases marks
  | .node type span fields, w, spelled, spelled', indent, label, rest, rest', same => by
    obtain ⟨word, behind, heads, heads', marks, others⟩ :=
      split_of_entry legible spelled spelled' same
    cases w with
    | node type' span' fields' =>
      cases spelled with
      | node declared whole fields_spelled =>
        cases spelled' with
        | node declared' whole' fields_spelled' =>
          obtain rfl := type_eq_of_name legible declared declared'
            (heads.word_node.symm.trans heads'.word_node)
          obtain ⟨alike, rests⟩ := like_of_fieldEntries legible fields fields_spelled
            fields_spelled' whole whole' others
          exact ⟨.node trivial alike, rests⟩
    | list items => cases items <;> cases marks
    | _ => cases marks
  | .list items, w, spelled, spelled', indent, label, rest, rest', same => by
    obtain ⟨word, behind, heads, heads', marks, others⟩ :=
      split_of_entry legible spelled spelled' same
    cases items with
    | nil =>
      cases w with
      | list items' =>
        cases items' with
        | nil => exact ⟨.list .nil, others⟩
        | cons => cases marks
      | _ => cases marks
    | cons item items =>
      cases w with
      | list items' =>
        cases items' with
        | nil => cases marks
        | cons item' items' =>
          cases spelled with
          | list items_spelled =>
            cases spelled' with
            | list items_spelled' =>
              obtain ⟨alike, rests⟩ := like_of_itemEntries legible (item :: items) items_spelled
                items_spelled' others
              exact ⟨.list alike, rests⟩
      | _ => cases marks
  | .enum ref i span, w, spelled, spelled', indent, label, rest, rest', same => by
    obtain ⟨word, behind, heads, heads', marks, others⟩ :=
      split_of_entry legible spelled spelled' same
    cases w with
    | enum ref' i' span' =>
      obtain ⟨rfl, rfl⟩ := enum_eq_of_heads legible heads heads' rfl rfl
      exact ⟨.enum trivial, others⟩
    | list items => cases items <;> cases marks
    | _ => cases marks
  | .null, w, spelled, spelled', indent, label, rest, rest', same => by
    obtain ⟨word, behind, heads, heads', marks, others⟩ :=
      split_of_entry legible spelled spelled' same
    cases w with
    | null => exact ⟨.null, others⟩
    | list items => cases items <;> cases marks
    | _ => cases marks
  | .absent type, w, spelled, spelled', indent, label, rest, rest', same => by
    obtain ⟨word, behind, heads, heads', marks, others⟩ :=
      split_of_entry legible spelled spelled' same
    cases w with
    | absent type' =>
      cases spelled with
      | absent declared =>
        cases spelled' with
        | absent declared' =>
          have names_eq := heads.behind_absent.symm.trans heads'.behind_absent
          obtain rfl := type_eq_of_name legible declared declared' (List.cons.inj names_eq).2
          exact ⟨.absent, others⟩
    | list items => cases items <;> cases marks
    | _ => cases marks

/-- Equal entries of fields are those of like values. -/
theorem like_of_fieldEntries (legible : Legible cx.vocabulary cx.schema) :
    ∀ (vs : List Value) {ws : List Value},
      (∀ v ∈ vs, v.Spelled cx.vocabulary cx.schema cx.names) →
      (∀ w ∈ ws, w.Spelled cx.vocabulary cx.schema names) → ∀ {fields : List Field},
      vs.length = fields.length → ws.length = fields.length → ∀ {indent : Nat}
      {rest rest' : List Char}, (cx.fieldEntries indent fields vs).toList ++ rest =
        (fieldEntries { cx with names := names } indent fields ws).toList ++ rest' →
      List.Forall₂ (Value.Like (.texts cx.names names fun _ _ => True)) vs ws ∧ rest = rest'
  | [], ws, _, _, fields, whole, whole', _, _, _, same => by
    obtain rfl := List.length_eq_zero_iff.mp whole.symm
    obtain rfl := List.length_eq_zero_iff.mp whole'
    simpa [fieldEntries] using same
  | v :: vs, ws, spelled, spelled', fields, whole, whole', indent, rest, rest', same => by
    cases fields with
    | nil => cases whole
    | cons field fields =>
      cases ws with
      | nil => cases whole'
      | cons w ws =>
        obtain ⟨first, others⟩ := List.forall_mem_cons.mp spelled
        obtain ⟨first', others'⟩ := List.forall_mem_cons.mp spelled'
        rw [fieldEntries, fieldEntries, String.toList_append, String.toList_append,
          List.append_assoc, List.append_assoc] at same
        obtain ⟨here, more⟩ := like_of_entry legible v first first' same
        obtain ⟨alike, rests⟩ := like_of_fieldEntries legible vs others others'
          (Nat.succ.inj whole) (Nat.succ.inj whole') more
        exact ⟨.cons here alike, rests⟩

/-- Equal entries of items are those of like values. -/
theorem like_of_itemEntries (legible : Legible cx.vocabulary cx.schema) :
    ∀ (vs : List Value) {ws : List Value},
      (∀ v ∈ vs, v.Spelled cx.vocabulary cx.schema cx.names) →
      (∀ w ∈ ws, w.Spelled cx.vocabulary cx.schema names) → ∀ {indent : Nat}
      {rest rest' : List Char},
      (cx.itemEntries (indent + 2) vs ++ line indent "]").toList ++ rest =
        (itemEntries { cx with names := names } (indent + 2) ws ++
          line indent "]").toList ++ rest' →
      List.Forall₂ (Value.Like (.texts cx.names names fun _ _ => True)) vs ws ∧ rest = rest'
  | [], ws, _, _, indent, rest, rest', same => by
    cases ws with
    | nil => exact ⟨.nil, List.append_cancel_left same⟩
    | cons w ws =>
      rw [itemEntries, itemEntries, String.empty_append, String.append_assoc,
        String.toList_append (s := entry _ _ _ _), List.append_assoc] at same
      exact absurd same (line_ne_item names)
  | v :: vs, ws, spelled, spelled', indent, rest, rest', same => by
    obtain ⟨first, others⟩ := List.forall_mem_cons.mp spelled
    cases ws with
    | nil =>
      rw [itemEntries, itemEntries, String.empty_append, String.append_assoc,
        String.toList_append (s := entry _ _ _ _), List.append_assoc] at same
      exact absurd same.symm (line_ne_item cx.names)
    | cons w ws =>
      obtain ⟨first', others'⟩ := List.forall_mem_cons.mp spelled'
      rw [itemEntries, itemEntries, String.append_assoc, String.append_assoc,
        String.toList_append (s := entry _ _ _ _), String.toList_append (s := entry _ _ _ w),
        List.append_assoc, List.append_assoc] at same
      obtain ⟨here, more⟩ := like_of_entry legible v first first' same
      obtain ⟨alike, rests⟩ := like_of_itemEntries legible vs others others' more
      exact ⟨.cons here alike, rests⟩

end

variable (cx) in
/-- Values with one outline are alike but for their spans. -/
theorem like_of_outline (legible : Legible cx.vocabulary cx.schema)
    (spelled : v.Spelled cx.vocabulary cx.schema cx.names)
    (spelled' : w.Spelled cx.vocabulary cx.schema names)
    (same : cx.outline v = outline { cx with names := names } w) :
    v.Like (.texts cx.names names fun _ _ => True) w := by
  have lists : (cx.entry 0 "" v).toList ++ [] =
      (entry { cx with names := names } 0 "" w).toList ++ [] :=
    congrArg (fun outline => outline.toList ++ []) same
  exact (like_of_entry legible v spelled spelled' lists).1

end Entries

end OutlineContext

end CombinatorGrammar
