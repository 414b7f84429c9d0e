import CombinatorGrammar.Proofs.Program.Mentions
import CombinatorGrammar.Proofs.Renumbering.Reordering
import Mathlib.Logic.Relation

/-!
# What the defects of a rule depend on

The body of a rule is validated with the signatures of the rules that it mentions, and those are
inferred from the rules that these mention in turn. Whatever stands in other rules is never read, so
the rule has the same defects beside sound rules as beside broken ones. Only names come first: while
one dangles in any rule, no body is validated, and what is reported are the dangling names of all.
-/

namespace CombinatorGrammar

/-- The rule that a name in a combinator stands for, if it is that of one. -/
def Directory.mentionedRule? (d : Directory) : Mention → Option RuleRef
  | .rule name => d.ruleRef? name
  | _ => none

/-- The rule that the matcher refers to, if it is such a reference. -/
def Matcher.ref? : Matcher → Option RuleRef
  | .rule ref => some ref
  | _ => none

namespace Matcher

variable {schema : Schema} {rules rules' : RuleRef → Option Signature} {m n : Matcher}

/-- The rules to which parts of the matcher refer, from left to right. -/
def refs (m : Matcher) : List RuleRef := m.parts.filterMap ref?

/-- A matcher refers to the rules that its operands refer to. -/
theorem refs_of_operand (operand : n ∈ m.operands) : n.refs ⊆ m.refs := by
  intro ref among
  obtain ⟨part, below, refers⟩ := List.mem_filterMap.mp among
  exact List.mem_filterMap.mpr ⟨part, mem_parts_iff.mpr (Or.inr ⟨n, operand, below⟩), refers⟩

/-- The signature of a matcher depends on those of the rules to which it refers. -/
theorem signature?_congr (same : ∀ ref ∈ m.refs, rules ref = rules' ref) :
    m.signature? schema rules = m.signature? schema rules' := by
  induction m using operand_induction with
  | step m ih =>
    have each : ∀ n ∈ m.operands, n.signature? schema rules = n.signature? schema rules' :=
      fun n among => ih n among fun ref refers => same ref (refs_of_operand among refers)
    cases m with
    | rule ref => exact same ref (List.mem_singleton_self ref)
    | seq ms | choice ms =>
      have each : ms.map (signature? schema rules) = ms.map (signature? schema rules') :=
        List.map_congr_left each
      rw [signature?, signature?, signatures_eq_map, signatures_eq_map, each]
    | opt m | predicate _ m => exact each m (List.mem_singleton_self m)
    | protect m guard => exact each m (List.mem_cons_self ..)
    | group m | list _ m => rw [signature?, signature?, each m (List.mem_singleton_self m)]
    | sepList _ m separator => rw [signature?, signature?, each m (List.mem_cons_self ..)]
    | token | cut | skip | null | node | enum => rfl

end Matcher

namespace Validation

variable {schema : Schema} {read read' : RuleSignatures} {name : String} {m : Matcher}

/-- If each matcher has the same defects in both validations, they have the same defects together.
-/
theorem defectsOfAll_congr {v w : Validation} {ms : List Matcher}
    (each : ∀ m ∈ ms, v.defects m = w.defects m) : v.defectsOfAll ms = w.defectsOfAll ms := by
  rw [defectsOfAll_eq_flatMap, defectsOfAll_eq_flatMap]
  exact List.flatMap_congr each

/-- The defects of a matcher depend on the signatures of the rules to which it refers. -/
theorem defects_congr (same : ∀ ref ∈ m.refs, read.get? ref = read'.get? ref) :
    defects ⟨schema, read, name⟩ m = defects ⟨schema, read', name⟩ m := by
  induction m using Matcher.operand_induction with
  | step m ih =>
    have below : ∀ n ∈ m.operands, ∀ ref ∈ n.refs, read.get? ref = read'.get? ref :=
      fun n among ref refers => same ref (Matcher.refs_of_operand among refers)
    have each : ∀ n ∈ m.operands,
        defects ⟨schema, read, name⟩ n = defects ⟨schema, read', name⟩ n :=
      fun n among => ih n among (below n among)
    have signature : ∀ n ∈ m.operands,
        signature? ⟨schema, read, name⟩ n = signature? ⟨schema, read', name⟩ n :=
      fun n among => Matcher.signature?_congr (below n among)
    have arity : ∀ n ∈ m.operands,
        arity? ⟨schema, read, name⟩ n = arity? ⟨schema, read', name⟩ n :=
      fun n among => congrArg (Option.map List.length) (signature n among)
    cases m with
    | seq ms => exact defectsOfAll_congr each
    | choice ms =>
      have arities : ms.filterMap (arity? ⟨schema, read, name⟩) =
          ms.filterMap (arity? ⟨schema, read', name⟩) := List.filterMap_congr arity
      rw [defects, defects, choiceDefects, choiceDefects, arities]
      exact congrArg (· ++ _) (defectsOfAll_congr each)
    | opt m | group m => exact each m (List.mem_singleton_self m)
    | list _ m | predicate _ m | enum _ _ m =>
      rw [defects, defects, each m (List.mem_singleton_self m), arityDefects, arityDefects,
        arity m (List.mem_singleton_self m)]
    | sepList _ m separator =>
      rw [defects, defects, each m (List.mem_cons_self ..),
        each separator (List.mem_cons_of_mem _ (List.mem_singleton_self _)), arityDefects,
        arityDefects, arity m (List.mem_cons_self ..)]
    | protect m guard =>
      rw [defects, defects, each m (List.mem_cons_self ..),
        each guard (List.mem_cons_of_mem _ (List.mem_singleton_self _))]
    | node type layout m =>
      rw [defects, defects, each m (List.mem_singleton_self m), nodeDefects, nodeDefects,
        signature m (List.mem_singleton_self m)]
    | token | rule | cut | skip | null => rfl

end Validation

namespace RuleSignatures

variable {schema : Schema} {bodies bodies' : List Matcher} {within : RuleRef → Prop}

/-- Some rules, with all to which they refer, have the same bodies in both lists. -/
structure Shared (within : RuleRef → Prop) (bodies bodies' : List Matcher) : Prop where
  length_eq : bodies'.length = bodies.length
  body : ∀ ref, within ref → bodies'[ref.index]? = bodies[ref.index]?
  closed : ∀ ref body, within ref → bodies[ref.index]? = some body → ∀ r ∈ body.refs, within r

/-- Each round finds the same signatures of the shared rules. -/
theorem Shared.after (h : Shared within bodies bodies') (n : Nat) {ref : RuleRef}
    (shared : within ref) :
    (after schema bodies' n).get? ref = (after schema bodies n).get? ref := by
  induction n generalizing ref with
  | zero => rw [RuleSignatures.after, RuleSignatures.after, h.length_eq]; rfl
  | succ n ih =>
    rw [after_succ, after_succ, get?_next, get?_next, h.body ref shared]
    cases found : bodies[ref.index]? with
    | none => rfl
    | some body =>
      exact Matcher.signature?_congr fun r refers => ih (h.closed ref body shared found r refers)

/-- Rules that share all that they refer to are inferred alike. -/
theorem Shared.infer (h : Shared within bodies bodies') {ref : RuleRef} (shared : within ref) :
    (infer schema bodies').1.get? ref = (infer schema bodies).1.get? ref := by
  have limit : maxRounds schema bodies' = maxRounds schema bodies := by
    rw [maxRounds, maxRounds, h.length_eq]
  rw [infer_fst, infer_fst, limit]
  exact h.after _ shared

end RuleSignatures

namespace Combinator

variable {d : Directory} {rule : String}

mutual

/-- The matcher of a combinator refers to the rules that the combinator mentions. -/
theorem refs_link : ∀ (c : Combinator) {m : Matcher}, c.link d rule = .ok m →
    m.refs = c.mentions.filterMap d.mentionedRule?
  | .token t text keep, m, h => by
    obtain ⟨kind, _, rfl⟩ := Linked.map_eq_ok h
    cases t <;> rfl
  | .rule name, m, h => by
    obtain ⟨ref, found, rfl⟩ := Linked.map_eq_ok h
    rw [mentions, List.filterMap_cons, Directory.mentionedRule?, Linked.ofOption_eq_ok found]
    rfl
  | .seq items, m, h => by
    obtain ⟨ms, linked, rfl⟩ := Linked.map_eq_ok h
    exact refs_linkAll items linked
  | .choice alternatives, m, h => by
    obtain ⟨ms, linked, rfl⟩ := Linked.map_eq_ok h
    exact refs_linkAll alternatives linked
  | .opt c, m, h => by
    obtain ⟨n, linked, rfl⟩ := Linked.map_eq_ok h
    have below := refs_link c linked
    exact below
  | .group c, m, h => by
    obtain ⟨n, linked, rfl⟩ := Linked.map_eq_ok h
    have below := refs_link c linked
    exact below
  | .list repetition c, m, h => by
    obtain ⟨n, linked, rfl⟩ := Linked.map_eq_ok h
    have below := refs_link c linked
    exact below
  | .sepList repetition c separator, m, h => by
    obtain ⟨⟨n, k⟩, linked, rfl⟩ := Linked.map_eq_ok h
    obtain ⟨first, second⟩ := Linked.both_eq_ok linked
    rw [mentions, List.filterMap_append, ← refs_link c first, ← refs_link separator second]
    exact List.filterMap_append
  | .cut, m, h => by
    obtain rfl := Except.ok.inj h
    rfl
  | .predicate name c, m, h => by
    obtain ⟨⟨n, ref⟩, linked, rfl⟩ := Linked.map_eq_ok h
    rw [mentions, List.filterMap_append, ← refs_link c (Linked.both_eq_ok linked).1]
    exact (List.append_nil _).symm
  | .skip errorType, m, h => by
    obtain ⟨type, _, rfl⟩ := Linked.map_eq_ok h
    rfl
  | .protect c guard, m, h => by
    obtain ⟨⟨n, k⟩, linked, rfl⟩ := Linked.map_eq_ok h
    obtain ⟨first, second⟩ := Linked.both_eq_ok linked
    rw [mentions, List.filterMap_append, ← refs_link c first, ← refs_link guard second]
    exact List.filterMap_append
  | .null name, m, h => by
    obtain ⟨type, _, rfl⟩ := Linked.map_eq_ok h
    rfl
  | .node name c, m, h => by
    obtain ⟨⟨n, type⟩, linked, rfl⟩ := Linked.map_eq_ok h
    rw [mentions, List.filterMap_append, ← refs_link c (Linked.both_eq_ok linked).1]
    exact (List.append_nil _).symm
  | .enum name alternative c, m, h => by
    obtain ⟨⟨n, type, i⟩, linked, rfl⟩ := Linked.map_eq_ok h
    rw [mentions, List.filterMap_append, ← refs_link c (Linked.both_eq_ok linked).1]
    exact (List.append_nil _).symm

/-- Linking several combinators makes references to the rules that they mention. -/
theorem refs_linkAll : ∀ (cs : List Combinator) {ms : List Matcher}, linkAll d rule cs = .ok ms →
    (Matcher.partsOfAll ms).filterMap Matcher.ref? =
      (mentionsOfAll cs).filterMap d.mentionedRule?
  | [], ms, h => by
    obtain rfl := Except.ok.inj h
    rfl
  | c :: cs, ms, h => by
    obtain ⟨⟨n, ns⟩, linked, rfl⟩ := Linked.map_eq_ok h
    obtain ⟨first, second⟩ := Linked.both_eq_ok linked
    rw [mentionsOfAll, List.filterMap_append, ← refs_link c first, ← refs_linkAll cs second]
    exact List.filterMap_append

end

end Combinator

namespace Grammar

/-- The rule of the one name mentions that of the other. -/
def RefersTo (g : Grammar) (s t : String) : Prop :=
  ∃ body, (s, body) ∈ g.rules ∧ Mention.rule t ∈ body.mentions

/-- The rule of the one name is that of the other, or it refers to it, directly or indirectly. -/
def DependsOn (g : Grammar) : String → String → Prop := Relation.ReflTransGen g.RefersTo

/-- The second grammar is the first one with other bodies of rules on which the named one does not
depend. -/
structure ChangedApartFrom (s : String) (g h : Grammar) : Prop where
  vocabulary_eq : h.vocabulary = g.vocabulary
  schema_eq : h.schema = g.schema
  predicates_eq : h.predicates = g.predicates
  entry_eq : h.entry = g.entry
  names_eq : h.rules.map Prod.fst = g.rules.map Prod.fst
  kept : ∀ rule ∈ g.rules, g.DependsOn s rule.1 → rule ∈ h.rules

variable {g h : Grammar} {rule : String × Combinator} {names names' : Interner}

/-- What a rule depends on is among names that are closed under being mentioned. -/
theorem DependsOn.mem_of_closed {s t : String} {listed : List String} (start : s ∈ listed)
    (closed : ∀ rule ∈ g.rules, rule.1 ∈ listed → ∀ m ∈ rule.2.mentions, ∀ name,
      m = .rule name → name ∈ listed) (depends : g.DependsOn s t) : t ∈ listed := by
  induction depends with
  | refl => exact start
  | tail _ refers ih =>
    obtain ⟨body, among, mentioned⟩ := refers
    exact closed _ among ih _ mentioned _ rfl

namespace ChangedApartFrom

variable {s : String} (apart : ChangedApartFrom s g h)
include apart

/-- Grammars with the same names look names up alike. -/
theorem directory_eq (names : Interner) : h.directory names = g.directory names := by
  rw [directory, directory, apart.vocabulary_eq, apart.schema_eq, apart.names_eq,
    apart.predicates_eq]

/-- Rule names stay distinct. -/
theorem distinct (distinct : g.Distinct) : h.Distinct := by
  rw [Distinct, apart.names_eq]
  exact distinct

/-- A rule that the named one depends on stands where it stood. -/
theorem getElem?_eq (distinct : g.Distinct) {ref : RuleRef}
    (listed : g.rules[ref.index]? = some rule) (depends : g.DependsOn s rule.1) :
    h.rules[ref.index]? = some rule := by
  have found : (h.directory .initial).ruleRef? rule.1 = some ref := by
    rw [apart.directory_eq]
    exact ruleRef?_of_getElem? .initial distinct listed
  have among : rule ∈ h.rules := apart.kept rule (List.mem_of_getElem? listed) depends
  exact getElem?_of_mem (apart.distinct distinct) among found

/-- The rules on which the named one depends have the same matchers, and those refer to nothing
else. -/
theorem shared (distinct : g.Distinct) (d : Directory) (rules : d.rules = g.rules.map Prod.fst) :
    RuleSignatures.Shared
      (fun ref => ∃ rule, g.rules[ref.index]? = some rule ∧ g.DependsOn s rule.1)
      (g.rules.map d.body) (h.rules.map d.body) where
  length_eq := by
    have lengths := congrArg List.length apart.names_eq
    rwa [List.length_map, List.length_map] at lengths ⊢
  body := by
    rintro ref ⟨rule, listed, depends⟩
    rw [List.getElem?_map, List.getElem?_map, listed, apart.getElem?_eq distinct listed depends]
  closed := by
    rintro ref body ⟨rule, listed, depends⟩ found r refers
    rw [List.getElem?_map, listed] at found
    obtain rfl := Option.some.inj found
    cases linked : d.links rule with
    | false =>
      rw [Directory.body, Directory.link_of_not_links linked] at refers
      cases refers
    | true =>
      rw [Combinator.refs_link rule.2 (Directory.link_of_links linked)] at refers
      obtain ⟨m, mentioned, stands⟩ := List.mem_filterMap.mp refers
      cases m with
      | rule name =>
        have stands : (g.directory .initial).ruleRef? name = some r := by
          rw [← stands, Directory.mentionedRule?, Directory.ruleRef?, Directory.ruleRef?, rules]
          rfl
        obtain ⟨body, there⟩ := getElem?_of_ruleRef? stands
        exact ⟨_, there, depends.tail ⟨rule.2, List.mem_of_getElem? listed, mentioned⟩⟩
      | _ => cases stands

/-- Over an interner that knows the texts of both grammars the named rule has the same defects. -/
theorem ownDefects_eq_of_knows (distinct : g.Distinct) (among : rule ∈ g.rules)
    (depends : g.DependsOn s rule.1) {both : Interner} (first : both.internAll g.texts = both)
    (second : both.internAll h.texts = both) : h.ownDefects both rule = g.ownDefects both rule := by
  have shared := apart.shared distinct (g.directory both) rfl
  obtain ⟨i, inside, here⟩ := List.getElem_of_mem among
  have listed : g.rules[(⟨i⟩ : RuleRef).index]? = some rule :=
    List.getElem?_eq_some_iff.mpr ⟨inside, here⟩
  have body : (g.rules.map (g.directory both).body)[(⟨i⟩ : RuleRef).index]? =
      some ((g.directory both).body rule) := by
    rw [List.getElem?_map, listed, Option.map_some]
  have read : ∀ r ∈ ((g.directory both).body rule).refs,
      (RuleSignatures.infer g.schema (h.rules.map (g.directory both).body)).1.get? r =
        (RuleSignatures.infer g.schema (g.rules.map (g.directory both).body)).1.get? r :=
    fun r refers => shared.infer (shared.closed ⟨i⟩ _ ⟨rule, listed, depends⟩ body r refers)
  simp only [ownDefects, signaturesOver, directoryOver, first, second, apart.directory_eq,
    apart.schema_eq, ruleDefects]
  rw [Matcher.signature?_congr read, Validation.defects_congr read]

/-- The body of the named rule has the same defects. -/
theorem ownDefects_eq (distinct : g.Distinct) (among : rule ∈ g.rules)
    (depends : g.DependsOn s rule.1) (names names' : Interner) :
    h.ownDefects names' rule = g.ownDefects names rule := by
  let both := (Interner.initial.internAll g.texts).internAll h.texts
  have first : both.internAll g.texts = both := Interner.internAll_eq_self fun text required =>
    let ⟨n, given⟩ := Interner.initial.gives_internAll required
    ⟨n, Interner.Grows.internAll _ _ given⟩
  have second : both.internAll h.texts = both :=
    Interner.internAll_eq_self fun text required => Interner.gives_internAll _ required
  have after : rule ∈ h.rules := apart.kept rule among depends
  -- the interner makes no difference to either grammar
  have old : g.ownDefects names rule = g.ownDefects both rule :=
    ownDefects_reorder (List.Perm.refl g.rules) distinct among
  have new : h.ownDefects names' rule = h.ownDefects both rule :=
    ownDefects_reorder (List.Perm.refl h.rules) (apart.distinct distinct) after
  have same := apart.ownDefects_eq_of_knows distinct among depends first second
  exact new.trans (same.trans old.symm)

/-- The names that dangle in a rule are the same, as the named rule has the same body. -/
theorem nameDefects_eq (names names' : Interner) (rule : String × Combinator) :
    (h.directory names').nameDefects rule = (g.directory names).nameDefects rule := by
  rw [apart.directory_eq, Grammar.nameDefects_eq, Grammar.nameDefects_eq]

/-- The defects of the named rule are those that it had, unless names dangle where none did. -/
theorem defectsOf_eq (distinct : g.Distinct) (among : rule ∈ g.rules)
    (depends : g.DependsOn s rule.1) (both : g.Complete ↔ h.Complete) :
    h.defectsOf names' rule = g.defectsOf names rule := by
  have known : h.Known names' ↔ g.Known names :=
    known_iff_complete.trans (both.symm.trans known_iff_complete.symm)
  exact if_congr known (apart.ownDefects_eq distinct among depends names names')
    (apart.nameDefects_eq _ _ rule)

/-- Where names dangle in other rules only, the named rule has no defect. -/
theorem defectsOf_eq_nil (among : rule ∈ g.rules) (before : g.Complete) (after : ¬ h.Complete) :
    h.defectsOf names' rule = [] := by
  have unknown : ¬ h.Known names' := fun known => after (known_iff_complete.mp known)
  rw [defectsOf, if_neg unknown, apart.nameDefects_eq .initial, Grammar.nameDefects_eq]
  exact dangling_eq_nil_iff.mpr (before.2 rule among)

end ChangedApartFrom

/-- A sound grammar has no defects in its rules. -/
theorem defectsOf_of_sound (sound : g.Sound names) (among : rule ∈ g.rules) :
    g.defectsOf names rule = [] :=
  (if_pos sound.1).trans (sound.2 rule among)

/-- Where nothing is found, there is nothing wrong. -/
theorem sound_of_defects_eq_nil
    (none : g.missingEntry ++ g.rules.flatMap (g.defectsOf names) = []) : g.Sound names := by
  obtain ⟨entry, each⟩ := List.append_eq_nil_iff.mp none
  rw [List.flatMap_eq_nil_iff] at each
  have known : g.Known names := by
    by_contra unknown
    refine unknown (known_iff_complete.mpr ⟨?_, fun rule among => ?_⟩)
    · rw [missingEntry_eq] at entry
      by_contra missing
      rw [if_neg missing] at entry
      cases entry
    · have names := each rule among
      rw [defectsOf, if_neg unknown, nameDefects_eq] at names
      exact dangling_eq_nil_iff.mp names
  exact ⟨known, fun rule among => (if_pos known).symm.trans (each rule among)⟩

/-- Resolving fails with what is found of all rules, if that is anything. -/
theorem resolve_eq_error_iff {defects : List Defect} :
    g.resolve names = .error defects ↔
      defects ≠ [] ∧ defects = g.missingEntry ++ g.rules.flatMap (g.defectsOf names) := by
  by_cases sound : g.Sound names
  · have none : g.missingEntry ++ g.rules.flatMap (g.defectsOf names) = [] :=
      List.append_eq_nil_iff.mpr ⟨if_neg sound.1.1,
        List.flatMap_eq_nil_iff.mpr fun rule among => defectsOf_of_sound sound among⟩
    obtain ⟨entry, resolved⟩ := resolve_of_sound sound
    rw [none, resolved]
    exact ⟨nofun, fun ⟨found, empty⟩ => absurd empty found⟩
  · rw [resolve_of_not_sound sound, Except.error.injEq]
    constructor
    · rintro rfl
      exact ⟨fun none => sound (sound_of_defects_eq_nil none), rfl⟩
    · exact fun same => same.2.symm

/-- The defects that are found in a rule are reported. -/
theorem reports_of_mem (among : rule ∈ g.rules) {d : Defect} (found : d ∈ g.defectsOf names rule) :
    g.Reports names d := by
  have listed : d ∈ g.missingEntry ++ g.rules.flatMap (g.defectsOf names) :=
    List.mem_append_right _ (List.mem_flatMap_of_mem among found)
  exact ⟨_, resolve_eq_error_iff.mpr ⟨List.ne_nil_of_mem listed, rfl⟩, listed⟩

/-- Resolving fails with the defects of all rules, in the order of the rules. To these the defects
that a rule has whatever stands in rules on which it does not depend always belong, but for one
thing: while a name dangles somewhere, only the names that dangle are listed. -/
theorem defects_local {g h : Grammar} {rule : String × Combinator} (distinct : g.Distinct)
    (among : rule ∈ g.rules) (apart : ChangedApartFrom rule.1 g h) (names names' : Interner) :
    (∀ defects, g.resolve names = .error defects ↔
      defects ≠ [] ∧ defects = g.missingEntry ++ g.rules.flatMap (g.defectsOf names)) ∧
    (g.Complete ∨ ¬ h.Complete → ∀ d ∈ h.defectsOf names' rule,
      d ∈ g.defectsOf names rule ∧ g.Reports names d) := by
  refine ⟨fun defects => resolve_eq_error_iff, fun unhidden d found => ?_⟩
  have kept : d ∈ g.defectsOf names rule := by
    by_cases same : g.Complete ↔ h.Complete
    · rwa [← apart.defectsOf_eq distinct among .refl same]
    · have before : g.Complete ∧ ¬ h.Complete := by tauto
      rw [apart.defectsOf_eq_nil among before.1 before.2] at found
      cases found
  exact ⟨kept, reports_of_mem among kept⟩

/-- A list of nothing, which is a defect, as the first rule, and another rule beside it. -/
def beside (body : Combinator) : Grammar :=
  ⟨letters, .empty, [("main", .list .oneOrMore (.seq [])), ("other", body)], [], "main"⟩

/-- The first rule does not depend on the other one. -/
theorem changedApartFrom_beside (body body' : Combinator) :
    ChangedApartFrom "main" (beside body) (beside body') where
  vocabulary_eq := rfl
  schema_eq := rfl
  predicates_eq := rfl
  entry_eq := rfl
  names_eq := rfl
  kept rule among depends := by
    have first : rule.1 ∈ ["main"] := by
      refine depends.mem_of_closed (List.mem_singleton_self _)
        fun rule among first m mentioned => ?_
      rcases List.mem_cons.mp among with rfl | among
      · cases mentioned
      · obtain rfl := List.mem_singleton.mp among
        exact absurd first (by simp)
    rcases List.mem_cons.mp among with rfl | among
    · exact List.mem_cons_self ..
    · obtain rfl := List.mem_singleton.mp among
      exact absurd first (by simp)

/-- Beside another list of nothing the defect of the first rule is reported as well. -/
theorem defects_local_beside :
    (beside .cut).Reports .initial (.arityMismatch "main" .listElement 1 0) ∧
      (beside (.list .oneOrMore (.seq []))).resolve .initial = .error
        [.arityMismatch "main" .listElement 1 0, .arityMismatch "other" .listElement 1 0] ∧
      (beside (.list .oneOrMore (.seq []))).Reports .initial
        (.arityMismatch "main" .listElement 1 0) := by
  have distinct : (beside (.list .oneOrMore (.seq []))).Distinct := by decide
  obtain ⟨failed, kept⟩ := defects_local distinct (List.mem_cons_self ..)
    (changedApartFrom_beside _ .cut) .initial .initial
  refine ⟨by decide +kernel, (failed _).mpr (by decide +kernel), ?_⟩
  exact (kept (Or.inl (by decide +kernel)) _ (by decide +kernel)).2

/-- Beside a name that dangles it is not: that name is all that is reported. -/
theorem defects_hidden :
    ChangedApartFrom "main" (beside (.rule "missing")) (beside .cut) ∧
      (beside .cut).resolve .initial = .error [.arityMismatch "main" .listElement 1 0] ∧
      .arityMismatch "main" .listElement 1 0 ∈
        (beside .cut).defectsOf .initial ("main", .list .oneOrMore (.seq [])) ∧
      (beside (.rule "missing")).resolve .initial = .error [.undefinedRule "other" "missing"] ∧
      ¬ (beside (.rule "missing")).Reports .initial (.arityMismatch "main" .listElement 1 0) := by
  refine ⟨changedApartFrom_beside .., resolve_eq_error_iff.mpr ?_, ?_,
    resolve_eq_error_iff.mpr ?_, ?_⟩ <;> decide +kernel

end Grammar

end CombinatorGrammar
