import CombinatorGrammar.Proofs.Program.Settling
import CombinatorGrammar.Proofs.Schema.Extension

/-!
# Grammars over more node types

A schema that gets more node types gives the rules of a grammar the same signatures as before in
every round, since these name types only that the rules refer to, or ancestors of them. Only the
number of rounds after which inference is stopped depends on how many types there are. So where
inference settles in time, the grammar resolves over both schemas or over none.
-/

namespace CombinatorGrammar

/-- The shapes of the signature are declared. -/
def Signature.Declared (s : Schema) (signature : Signature) : Prop :=
  ∀ shape ∈ signature, shape.Declared s

namespace Signature

variable {s t : Schema}

/-- Declared shapes are joined to the same declared one. -/
theorem foldl_join_begins (begins : s.Begins t) {shapes : Signature} {first : Shape}
    (declared : first.Declared s) (others : shapes.Declared s) :
    shapes.foldl (Shape.join t) first = shapes.foldl (Shape.join s) first ∧
      (shapes.foldl (Shape.join s) first).Declared s := by
  induction shapes generalizing first with
  | nil => exact ⟨rfl, declared⟩
  | cons shape shapes ih =>
    obtain ⟨here, later⟩ := List.forall_mem_cons.mp others
    rw [List.foldl_cons, List.foldl_cons, Shape.join_begins begins declared here]
    exact ih (declared.join here) later

/-- Shapes of declared types are joined as before, and the join is of declared types. -/
theorem zipWith_join_begins (begins : s.Begins t) {a b : Signature} (first : a.Declared s)
    (second : b.Declared s) :
    List.zipWith (Shape.join t) a b = List.zipWith (Shape.join s) a b ∧
      Signature.Declared s (List.zipWith (Shape.join s) a b) := by
  induction a generalizing b with
  | nil => exact ⟨rfl, List.forall_mem_nil _⟩
  | cons x a ih =>
    cases b with
    | nil => exact ⟨rfl, List.forall_mem_nil _⟩
    | cons y b =>
      obtain ⟨here, later⟩ := List.forall_mem_cons.mp first
      obtain ⟨here', later'⟩ := List.forall_mem_cons.mp second
      obtain ⟨same, declared⟩ := ih later later'
      rw [List.zipWith_cons_cons, List.zipWith_cons_cons, Shape.join_begins begins here here', same]
      exact ⟨rfl, List.forall_mem_cons.mpr ⟨here.join here', declared⟩⟩

/-- Several signatures of declared types are joined as before, and the join is of declared types. -/
theorem foldl_zipWith_begins (begins : s.Begins t) {first : Signature} {others : List Signature}
    (declared : first.Declared s) (each : ∀ a ∈ others, a.Declared s) :
    others.foldl (fun joined a => List.zipWith (Shape.join t) joined a) first =
        others.foldl (fun joined a => List.zipWith (Shape.join s) joined a) first ∧
      Signature.Declared s
        (others.foldl (fun joined a => List.zipWith (Shape.join s) joined a) first) := by
  induction others generalizing first with
  | nil => exact ⟨rfl, declared⟩
  | cons a others ih =>
    obtain ⟨here, later⟩ := List.forall_mem_cons.mp each
    obtain ⟨same, joined⟩ := zipWith_join_begins begins declared here
    rw [List.foldl_cons, List.foldl_cons, same]
    exact ih joined later

/-- Declared signatures of alternatives give the choice the same declared one. -/
theorem alternatives_begins (begins : s.Begins t) {known : List (Option Signature)}
    (declared : ∀ signature, some signature ∈ known → signature.Declared s) :
    alternatives t known = alternatives s known ∧
      ∀ signature, alternatives s known = some signature → signature.Declared s := by
  have each : ∀ signature ∈ known.filterMap id, signature.Declared s := by
    intro signature among
    obtain ⟨_, member, rfl⟩ := List.mem_filterMap.mp among
    exact declared signature member
  rw [alternatives, alternatives]
  cases found : known.filterMap id with
  | nil =>
    refine ⟨rfl, fun signature h => ?_⟩
    cases h
  | cons first others =>
    rw [found] at each
    obtain ⟨here, later⟩ := List.forall_mem_cons.mp each
    obtain ⟨same, all⟩ := foldl_zipWith_begins begins here fun a among =>
      later a (List.mem_filter.mp among).1
    refine ⟨congrArg some same, fun signature h => ?_⟩
    obtain rfl := Option.some.inj h
    exact all

theorem declared_list {element : Shape} (declared : element.Declared s) :
    ∀ signature : Signature, some [Shape.list element] = some signature → signature.Declared s := by
  intro signature h
  obtain rfl := Option.some.inj h
  exact List.forall_mem_singleton.mpr declared

/-- The elements of a list are of declared types if its values are. -/
theorem declared_listElement {found : Option Signature}
    (declared : ∀ signature, found = some signature → signature.Declared s) :
    (listElement found).Declared s := by
  match found with
  | none => trivial
  | some [shape] => exact declared [shape] rfl shape (List.mem_singleton_self shape)
  | some [] | some (_ :: _ :: _) => trivial

/-- Values of declared types one after the other are of declared types. -/
theorem declared_concat {items : List (Option Signature)}
    (declared : ∀ signature, some signature ∈ items → signature.Declared s) {whole : Signature}
    (h : concat items = some whole) : whole.Declared s := by
  induction items generalizing whole with
  | nil =>
    obtain rfl := Option.some.inj h
    exact List.forall_mem_nil _
  | cons item items ih =>
    obtain ⟨first, rest, rfl, found, rfl⟩ := concat_cons_eq_some_iff.mp h
    exact List.forall_mem_append.mpr ⟨declared first List.mem_cons_self,
      ih (fun a among => declared a (List.mem_cons_of_mem _ among)) found⟩

end Signature

namespace Matcher

/-- The node type that the matcher itself refers to, if any, belongs to the schema. -/
def Declared (s : Schema) : Matcher → Prop
  | skip type | null type | node type _ _ => type.index < s.nodes.size
  | _ => True

/-- The node types that the parts of the matcher refer to belong to the schema. -/
def AllDeclared (s : Schema) (m : Matcher) : Prop := ∀ part ∈ m.parts, part.Declared s

variable {s t : Schema} {m n : Matcher} {rules : RuleRef → Option Signature}

/-- A matcher all of whose parts refer to declared types does so itself. -/
theorem AllDeclared.self (h : m.AllDeclared s) : m.Declared s := h m (mem_parts_self m)

/-- The operands of a matcher refer to declared types if all of its parts do. -/
theorem AllDeclared.operand (h : m.AllDeclared s) (among : n ∈ m.operands) : n.AllDeclared s :=
  fun part inside => h part (mem_parts_iff.mpr (Or.inr ⟨n, among, inside⟩))

/-- The signatures of the rules are declared. -/
def Declares (s : Schema) (rules : RuleRef → Option Signature) : Prop :=
  ∀ ref signature, rules ref = some signature → signature.Declared s

/-- A matcher has the same declared signature over both schemas. -/
theorem signature?_begins (begins : s.Begins t) (declares : Declares s rules)
    (declared : m.AllDeclared s) :
    m.signature? t rules = m.signature? s rules ∧
      ∀ signature, m.signature? s rules = some signature → signature.Declared s := by
  induction m with
  | rule ref => exact ⟨rfl, declares ref⟩
  | seq ms ih =>
    have each := fun m among => ih m among (declared.operand among)
    rw [signature?, signature?, signatures_eq_map, signatures_eq_map,
      List.map_congr_left fun m among => (each m among).1]
    refine ⟨rfl, fun signature h => Signature.declared_concat (fun a listed => ?_) h⟩
    obtain ⟨m, among, known⟩ := List.mem_map.mp listed
    exact (each m among).2 a known
  | choice ms ih =>
    have each := fun m among => ih m among (declared.operand among)
    rw [signature?, signature?, signatures_eq_map, signatures_eq_map,
      List.map_congr_left fun m among => (each m among).1]
    refine Signature.alternatives_begins begins fun a listed => ?_
    obtain ⟨m, among, known⟩ := List.mem_map.mp listed
    exact (each m among).2 a known
  | opt m ih | predicate _ m ih => exact ih (declared.operand (List.mem_singleton_self m))
  | protect m guard ih => exact ih (declared.operand List.mem_cons_self)
  | group m ih =>
    obtain ⟨same, shapes⟩ := ih (declared.operand (List.mem_singleton_self m))
    rw [signature?, signature?, same]
    cases known : m.signature? s rules with
    | none => exact ⟨rfl, Signature.declared_list (show Shape.Declared s .null from trivial)⟩
    | some signature =>
      obtain ⟨joined, all⟩ := Signature.foldl_join_begins begins
        (show Shape.Declared s .null from trivial) (shapes signature known)
      rw [Signature.groupElement, Signature.groupElement, joined]
      exact ⟨rfl, Signature.declared_list all⟩
  | list _ m ih =>
    obtain ⟨same, shapes⟩ := ih (declared.operand (List.mem_singleton_self m))
    rw [signature?, signature?, same]
    exact ⟨rfl, Signature.declared_list (Signature.declared_listElement shapes)⟩
  | sepList _ m _ ih =>
    obtain ⟨same, shapes⟩ := ih (declared.operand List.mem_cons_self)
    rw [signature?, signature?, same]
    exact ⟨rfl, Signature.declared_list (Signature.declared_listElement shapes)⟩
  | skip type | null type | node type =>
    refine ⟨rfl, fun signature h => ?_⟩
    obtain rfl := Option.some.inj h
    exact List.forall_mem_singleton.mpr declared.self
  | token kind text keep =>
    refine ⟨rfl, fun signature h => ?_⟩
    obtain rfl := Option.some.inj h
    cases keep
    · exact List.forall_mem_nil _
    · exact List.forall_mem_singleton.mpr trivial
  | cut =>
    refine ⟨rfl, fun signature h => ?_⟩
    obtain rfl := Option.some.inj h
    exact List.forall_mem_nil _
  | enum =>
    refine ⟨rfl, fun signature h => ?_⟩
    obtain rfl := Option.some.inj h
    exact List.forall_mem_singleton.mpr trivial

end Matcher

namespace RuleSignatures

variable {s t : Schema} {bodies : List Matcher}

/-- Every round gives the rules the same declared signatures over both schemas. -/
theorem after_begins (begins : s.Begins t) (declared : ∀ body ∈ bodies, body.AllDeclared s)
    (n : Nat) :
    after t bodies n = after s bodies n ∧ Matcher.Declares s (after s bodies n).get? := by
  induction n with
  | zero =>
    refine ⟨by rw [after, after, Function.iterate_zero_apply, Function.iterate_zero_apply],
      fun ref signature known => ?_⟩
    rw [get?_after_zero] at known
    cases known
  | succ n ih =>
    obtain ⟨same, declares⟩ := ih
    have each := fun body among => Matcher.signature?_begins begins declares (declared body among)
    constructor
    · rw [after_succ, after_succ, same, next, next]
      exact congrArg List.toArray (List.map_congr_left fun body among => (each body among).1)
    · intro ref signature known
      obtain ⟨body, found⟩ := exists_body known
      rw [get?_after_succ found] at known
      exact (each body (List.mem_of_getElem? found)).2 signature known

/-- Where inference settles in time, it finds the same over both schemas. -/
theorem infer_begins (begins : s.Begins t) (declared : ∀ body ∈ bodies, body.AllDeclared s)
    {n : Nat} (settled : after s bodies (n + 1) = after s bodies n)
    (enough : n < maxRounds s bodies) :
    infer t bodies = infer s bodies := by
  have same := fun n => (after_begins begins declared n).1
  have more : maxRounds s bodies ≤ maxRounds t bodies := by
    have size := begins.size_le
    rw [maxRounds, maxRounds]
    omega
  have settled' : after t bodies (n + 1) = after t bodies n := by rw [same, same, settled]
  rw [infer_eq_of_settled settled enough, infer_eq_of_settled settled' (enough.trans_le more), same]

end RuleSignatures

namespace Validation

variable {s t : Schema} {read : RuleSignatures} {rule : String} {m : Matcher}

/-- A node construction has no defect if its type is not abstract and its values, where they are
known, fit the layout of the type. -/
theorem nodeDefects_eq_nil_iff {v : Validation} {type : NodeRef} {layout : List FieldKind} :
    v.nodeDefects type layout m = [] ↔ v.schema.isAbstract type = false ∧
      ∀ shapes, v.signature? m = some shapes → shapes.length = layout.length ∧
        ∀ slot ∈ (shapes.zip layout).zip (v.schema.layout type),
          slot.1.1.fits v.schema slot.1.2 = true := by
  cases isAbstract : v.schema.isAbstract type with
  | true => simp [nodeDefects, isAbstract]
  | false =>
    cases known : v.signature? m with
    | none => simp [nodeDefects, isAbstract, known]
    | some shapes =>
      by_cases even : shapes.length = layout.length
      · simp [nodeDefects, isAbstract, known, even, List.filter_eq_nil_iff]
      · simp [nodeDefects, isAbstract, known, even]

section

variable (begins : s.Begins t) (declares : Matcher.Declares s read.get?)

include begins declares

/-- Adding types does not change how many values a matcher yields. -/
theorem arity?_begins (declared : m.AllDeclared s) :
    arity? ⟨t, read, rule⟩ m = arity? ⟨s, read, rule⟩ m :=
  congrArg (Option.map List.length) (Matcher.signature?_begins begins declares declared).1

/-- Adding types does not change the defects in the number of values. -/
theorem arityDefects_begins (declared : m.AllDeclared s) (place : ArityPlace) (required : Nat) :
    arityDefects ⟨t, read, rule⟩ place required m =
      arityDefects ⟨s, read, rule⟩ place required m := by
  rw [arityDefects, arityDefects, arity?_begins begins declares declared]

/-- Adding types does not change whether a node can be built. -/
theorem nodeDefects_begins (declared : m.AllDeclared s) {type : NodeRef} {layout : List FieldKind}
    (inside : type.index < s.nodes.size) :
    nodeDefects ⟨t, read, rule⟩ type layout m = [] ↔
      nodeDefects ⟨s, read, rule⟩ type layout m = [] := by
  obtain ⟨same, shapes⟩ := Matcher.signature?_begins begins declares declared
  simp only [nodeDefects_eq_nil_iff, signature?, same, begins.isAbstract_eq inside,
    begins.layout_eq inside]
  refine and_congr_right fun _ => forall₂_congr fun signature known => and_congr_right fun _ =>
    forall₂_congr fun slot among => ?_
  have listed : slot.1.1 ∈ signature := (List.of_mem_zip (List.of_mem_zip among).1).1
  rw [Shape.fits_begins begins (shapes signature known slot.1.1 listed)]

/-- A matcher has no defects over both schemas or over none. -/
theorem defects_begins (declared : m.AllDeclared s) :
    defects ⟨t, read, rule⟩ m = [] ↔ defects ⟨s, read, rule⟩ m = [] := by
  induction m with
  | seq ms ih =>
    rw [defects, defects, defectsOfAll_eq_nil_iff, defectsOfAll_eq_nil_iff]
    exact forall₂_congr fun m among => ih m among (declared.operand among)
  | choice ms ih =>
    have arities : ms.filterMap (arity? ⟨t, read, rule⟩) = ms.filterMap (arity? ⟨s, read, rule⟩) :=
      List.filterMap_congr fun m among =>
        arity?_begins begins declares (declared.operand among)
    rw [defects, defects, choiceDefects, choiceDefects, arities, List.append_eq_nil_iff,
      List.append_eq_nil_iff, defectsOfAll_eq_nil_iff, defectsOfAll_eq_nil_iff]
    exact and_congr_left fun _ => forall₂_congr fun m among => ih m among (declared.operand among)
  | opt m ih | group m ih => exact ih (declared.operand (List.mem_singleton_self m))
  | list _ m ih | predicate _ m ih | enum _ _ m ih =>
    have operand := declared.operand (List.mem_singleton_self m)
    rw [defects, defects, List.append_eq_nil_iff, List.append_eq_nil_iff, ih operand,
      arityDefects_begins begins declares operand]
  | sepList _ m separator ihm ihs =>
    have element := declared.operand List.mem_cons_self
    have other := declared.operand (List.mem_cons_of_mem _ (List.mem_singleton_self separator))
    simp only [defects, List.append_eq_nil_iff, ihm element, ihs other,
      arityDefects_begins begins declares element]
  | protect m guard ihm ihg =>
    have operand := declared.operand List.mem_cons_self
    have other := declared.operand (List.mem_cons_of_mem _ (List.mem_singleton_self guard))
    simp only [defects, List.append_eq_nil_iff, ihm operand, ihg other]
  | node type layout m ih =>
    have operand := declared.operand (List.mem_singleton_self m)
    rw [defects, defects, List.append_eq_nil_iff, List.append_eq_nil_iff, ih operand,
      nodeDefects_begins begins declares operand declared.self]
  | skip type =>
    rw [defects, defects, begins.isError_eq declared.self]
    split <;> simp
  | token | rule | cut | null => exact Iff.rfl

end

end Validation

namespace Combinator

variable {d : Directory} {t : Schema} {rule : String}

/-- A type is found under its name as before. -/
theorem nodeRef_begins (begins : d.schema.Begins t) {name : String} {ref : NodeRef}
    (found : d.nodeRef name = .ok ref) : { d with schema := t }.nodeRef name = .ok ref := by
  have known := Linked.ofOption_eq_ok found
  rw [Directory.nodeRef, begins.lookup?_eq known]
  rfl

/-- An alternative is found under its name as before. -/
theorem alternative_begins (begins : d.schema.Begins t) (type name : String) :
    { d with schema := t }.alternative type name = d.alternative type name := by
  simp only [Directory.alternative, begins.lookupEnum?_eq, begins.alternativeIndex?_eq]

mutual

/-- A combinator that is linked in a directory is linked to the same over a schema with more node
types. -/
theorem link_begins (begins : d.schema.Begins t) :
    ∀ (c : Combinator) {m : Matcher}, c.link d rule = .ok m →
      c.link { d with schema := t } rule = .ok m
  | .token .., _, h | .rule _, _, h | .cut, _, h => h
  | .seq items, m, h => by
    obtain ⟨ms, linked, rfl⟩ := Linked.map_eq_ok h
    rw [link, linkAll_begins begins items linked]
    rfl
  | .choice alternatives, m, h => by
    obtain ⟨ms, linked, rfl⟩ := Linked.map_eq_ok h
    rw [link, linkAll_begins begins alternatives linked]
    rfl
  | .opt c, m, h => by
    obtain ⟨n, linked, rfl⟩ := Linked.map_eq_ok h
    rw [link, link_begins begins c linked]
    rfl
  | .group c, m, h => by
    obtain ⟨n, linked, rfl⟩ := Linked.map_eq_ok h
    rw [link, link_begins begins c linked]
    rfl
  | .list repetition c, m, h => by
    obtain ⟨n, linked, rfl⟩ := Linked.map_eq_ok h
    rw [link, link_begins begins c linked]
    rfl
  | .sepList repetition c separator, m, h => by
    obtain ⟨⟨n, k⟩, linked, rfl⟩ := Linked.map_eq_ok h
    obtain ⟨first, second⟩ := Linked.both_eq_ok linked
    rw [link, link_begins begins c first, link_begins begins separator second]
    rfl
  | .predicate name c, m, h => by
    obtain ⟨⟨n, ref⟩, linked, rfl⟩ := Linked.map_eq_ok h
    obtain ⟨first, second⟩ := Linked.both_eq_ok linked
    rw [link, link_begins begins c first]
    exact congrArg (Except.map _) (congrArg (Linked.both (.ok n)) second)
  | .skip errorType, m, h => by
    obtain ⟨type, known, rfl⟩ := Linked.map_eq_ok h
    rw [link, nodeRef_begins begins known]
    rfl
  | .protect c guard, m, h => by
    obtain ⟨⟨n, k⟩, linked, rfl⟩ := Linked.map_eq_ok h
    obtain ⟨first, second⟩ := Linked.both_eq_ok linked
    rw [link, link_begins begins c first, link_begins begins guard second]
    rfl
  | .null name, m, h => by
    obtain ⟨type, known, rfl⟩ := Linked.map_eq_ok h
    rw [link, nodeRef_begins begins known]
    rfl
  | .node name c, m, h => by
    obtain ⟨⟨n, type⟩, linked, rfl⟩ := Linked.map_eq_ok h
    obtain ⟨first, known⟩ := Linked.both_eq_ok linked
    have same := begins.layout_eq (Schema.lookup?_lt (Linked.ofOption_eq_ok known))
    rw [link, link_begins begins c first, nodeRef_begins begins known]
    exact congrArg (fun layout => Except.ok (Matcher.node type (layout.map Field.kind) n)) same
  | .enum name alternative c, m, h => by
    obtain ⟨⟨n, type, i⟩, linked, rfl⟩ := Linked.map_eq_ok h
    obtain ⟨first, known⟩ := Linked.both_eq_ok linked
    rw [link, link_begins begins c first, alternative_begins begins, known]
    rfl

/-- Several combinators are linked as before. -/
theorem linkAll_begins (begins : d.schema.Begins t) :
    ∀ (cs : List Combinator) {ms : List Matcher}, linkAll d rule cs = .ok ms →
      linkAll { d with schema := t } rule cs = .ok ms
  | [], _, h => h
  | c :: cs, ms, h => by
    obtain ⟨⟨n, ns⟩, linked, rfl⟩ := Linked.map_eq_ok h
    obtain ⟨first, second⟩ := Linked.both_eq_ok linked
    rw [linkAll, link_begins begins c first, linkAll_begins begins cs second]
    rfl

end

/-- A combinator is linked to a matcher whose node type is declared. -/
theorem declared_of_link {c : Combinator} {m : Matcher} (h : c.link d rule = .ok m) :
    m.Declared d.schema := by
  cases c with
  | skip name | null name =>
    obtain ⟨type, known, rfl⟩ := Linked.map_eq_ok h
    exact Schema.lookup?_lt (Linked.ofOption_eq_ok known)
  | node name c =>
    obtain ⟨⟨n, type⟩, linked, rfl⟩ := Linked.map_eq_ok h
    exact Schema.lookup?_lt (Linked.ofOption_eq_ok (Linked.both_eq_ok linked).2)
  | cut =>
    obtain rfl := Except.ok.inj h
    trivial
  | token | rule | seq | choice | opt | group | list | sepList | predicate | protect | enum =>
    obtain ⟨_, _, rfl⟩ := Linked.map_eq_ok h
    trivial

end Combinator

namespace Grammar

variable {g : Grammar} {t : Schema} {names : Interner} {entry : RuleRef}
  {rules : List (String × Matcher)}

/-- The rules are linked as before. -/
theorem linkRules_begins {d : Directory} (begins : d.schema.Begins t)
    {rules : List (String × Combinator)} {linked : List (String × Matcher)}
    (h : linkRules d rules = .ok linked) : linkRules { d with schema := t } rules = .ok linked := by
  induction rules generalizing linked with
  | nil => exact h
  | cons rule rules ih =>
    obtain ⟨⟨m, ms⟩, both, rfl⟩ := Linked.map_eq_ok h
    obtain ⟨first, others⟩ := Linked.both_eq_ok both
    rw [linkRules, Combinator.link_begins begins rule.2 first, ih others]
    rfl

/-- The rules of a grammar are linked to the same matchers over a schema with more node types. -/
theorem link_schema_begins (begins : g.schema.Begins t)
    (linked : g.link names = .ok (entry, rules)) :
    { g with schema := t }.link names = .ok (entry, rules) := by
  obtain ⟨first, second⟩ := Linked.both_eq_ok linked
  have others : linkRules ({ g with schema := t }.directory names) g.rules = .ok rules :=
    linkRules_begins (d := g.directory names) begins second
  rw [link]
  simp only [others]
  exact congrArg (Linked.both · (.ok rules)) first

/-- What is linked refers to declared types only. -/
theorem allDeclared_of_link (linked : g.link names = .ok (entry, rules)) :
    ∀ body ∈ rules.map Prod.snd, body.AllDeclared g.schema := by
  intro body among part inside
  obtain ⟨rule, member, rfl⟩ := List.mem_map.mp among
  obtain ⟨c, same, _⟩ := linkRules_parts (Linked.both_eq_ok linked).2 rule member part inside
  exact Combinator.declared_of_link same

/-- A grammar whose names are known resolves if every rule has a signature and no defects. -/
theorem isOk_resolve_iff (linked : g.link (names.internAll g.texts) = .ok (entry, rules)) :
    (g.resolve names).isOk = true ↔
      ∀ rule ∈ rules, (rule.2.signature? g.schema
          (RuleSignatures.infer g.schema (rules.map Prod.snd)).1.get?).isSome = true ∧
        Validation.defects ⟨g.schema, (RuleSignatures.infer g.schema (rules.map Prod.snd)).1,
          rule.1⟩ rule.2 = [] := by
  have sound : ((rules.zip (RuleSignatures.infer g.schema (rules.map Prod.snd)).2.toList).flatMap
      fun rule => ruleDefects g.schema (RuleSignatures.infer g.schema (rules.map Prod.snd)).1 rule.2
        rule.1.1 rule.1.2).isEmpty = true ↔ (g.resolve names).isOk = true := by
    simp only [resolve, bind, Except.bind, linked]
    split
    · next none => exact iff_of_true none rfl
    · next some => exact iff_of_false some Bool.false_ne_true
  rw [← sound, List.isEmpty_iff, RuleSignatures.zip_infer, List.flatMap_eq_nil_iff,
    List.forall_mem_map]
  simp only [ruleDefects, List.append_eq_nil_iff, ite_eq_right_iff, List.cons_ne_nil, imp_false,
    Option.isNone_iff_eq_none, Option.isSome_iff_ne_none, ne_eq]

/-- Where inference settles in time, a grammar resolves over a schema with more node types if and
only if it does without them. -/
theorem isOk_resolve_begins (begins : g.schema.Begins t)
    (linked : g.link (names.internAll g.texts) = .ok (entry, rules)) {n : Nat}
    (settled : RuleSignatures.after g.schema (rules.map Prod.snd) (n + 1) =
      RuleSignatures.after g.schema (rules.map Prod.snd) n)
    (enough : n < RuleSignatures.maxRounds g.schema (rules.map Prod.snd)) :
    ({ g with schema := t }.resolve names).isOk = (g.resolve names).isOk := by
  have declared := allDeclared_of_link linked
  have same := RuleSignatures.infer_begins begins declared settled enough
  have declares : Matcher.Declares g.schema
      (RuleSignatures.infer g.schema (rules.map Prod.snd)).1.get? := by
    rw [RuleSignatures.infer_eq_of_settled settled enough]
    exact (RuleSignatures.after_begins begins declared n).2
  rw [Bool.eq_iff_iff, isOk_resolve_iff linked, isOk_resolve_iff (link_schema_begins begins linked),
    same]
  refine forall₂_congr fun rule among => and_congr ?_ ?_
  · rw [(Matcher.signature?_begins begins declares
      (declared _ (List.mem_map_of_mem among))).1]
  · exact Validation.defects_begins begins declares (declared _ (List.mem_map_of_mem among))

end Grammar

end CombinatorGrammar
