import CombinatorGrammar.Proofs.Program.Unlinking
import CombinatorGrammar.Proofs.Renumbering.Inference

/-!
# Resolving a grammar in another order

The rules of a grammar can be added in any order. The numbers of the rules, the names of the texts
and the listing all depend on the order, and what is found of a rule does not: either each rule has
the same arity and the same body by names, or it has the same defects, which are listed where the
rule stands. Nothing needs to settle for this, so it holds also where inference is stopped.
-/

namespace CombinatorGrammar

namespace Grammar

/-- The number of a rule in another order of the rules. -/
def newNumber (g : Grammar) (order : List (String × Combinator)) (ref : RuleRef) : RuleRef :=
  ((g.rules[ref.index]?).bind fun rule =>
    ((g.reorder order).directory .initial).ruleRef? rule.1).getD ref

section Order

variable {g : Grammar} {order : List (String × Combinator)} {names names' : Interner}

/-- Rule names stay distinct in another order. -/
theorem Distinct.reorder (distinct : g.Distinct) (perm : order.Perm g.rules) :
    (g.reorder order).Distinct :=
  (perm.map Prod.fst).nodup_iff.mpr distinct

/-- A rule is found under its name in another order, by its new number. -/
theorem newNumber_of_ruleRef? (names' : Interner) (perm : order.Perm g.rules) {name : String}
    {ref : RuleRef} (found : (g.directory names).ruleRef? name = some ref) :
    ((g.reorder order).directory names').ruleRef? name = some (g.newNumber order ref) := by
  obtain ⟨body, listed⟩ := getElem?_of_ruleRef? found
  have among : (name, body) ∈ (g.reorder order).rules :=
    perm.mem_iff.mpr (List.mem_of_getElem? listed)
  obtain ⟨new, found'⟩ := ruleRef?_of_mem names' among
  have same : ((g.reorder order).directory .initial).ruleRef? name = some new := found'
  rw [newNumber, listed, Option.bind_some, same]
  exact found'

/-- The rule of a name is found among the reordered rules under its new number. -/
theorem ruleRef?_reorder (names names' : Interner) (perm : order.Perm g.rules) (name : String) :
    ((g.reorder order).directory names').ruleRef? name =
      ((g.directory names).ruleRef? name).map (g.newNumber order) := by
  cases found : (g.directory names).ruleRef? name with
  | some ref => exact newNumber_of_ruleRef? names' perm found
  | none =>
    refine Option.eq_none_iff_forall_ne_some.mpr fun new found' => ?_
    obtain ⟨body, listed⟩ := getElem?_of_ruleRef? found'
    obtain ⟨ref, old⟩ := ruleRef?_of_mem names (perm.mem_iff.mp (List.mem_of_getElem? listed))
    rw [found] at old
    cases old

/-- The reordered bodies, with the new numbers of the rules. -/
theorem reordered_bodies (perm : order.Perm g.rules) (distinct : g.Distinct)
    (body : String × Combinator → Matcher) :
    RuleSignatures.Reordered (g.newNumber order) (g.rules.map body)
      (order.map fun rule => (body rule).renumber (g.newNumber order)) where
  length_eq := by rw [List.length_map, List.length_map, perm.length_eq]
  body ref := by
    rw [List.getElem?_map, List.getElem?_map, Option.map_map]
    cases listed : g.rules[ref.index]? with
    | none =>
      have outside : order.length ≤ ref.index :=
        perm.length_eq.trans_le (List.getElem?_eq_none_iff.mp listed)
      rw [newNumber, listed, Option.bind_none, Option.getD_none, List.getElem?_eq_none outside]
      rfl
    | some rule =>
      have found := ruleRef?_of_getElem? .initial distinct listed
      have there : order[(g.newNumber order ref).index]? = some rule :=
        getElem?_of_mem (distinct.reorder perm) (perm.mem_iff.mpr (List.mem_of_getElem? listed))
          (newNumber_of_ruleRef? .initial perm found)
      rw [there]
      rfl
  onto ref inside := by
    rw [List.length_map, ← perm.length_eq] at inside
    have listed : (g.reorder order).rules[ref.index]? = some order[ref.index] :=
      List.getElem?_eq_getElem inside
    have new := ruleRef?_of_getElem? .initial (distinct.reorder perm) listed
    obtain ⟨old, found⟩ :=
      ruleRef?_of_mem .initial (perm.mem_iff.mp (List.getElem_mem inside))
    exact ⟨old, Option.some.inj ((newNumber_of_ruleRef? .initial perm found).symm.trans new)⟩

/-- The matcher with the new numbers of the rules and the names that texts have in another
interner. -/
def moved (g : Grammar) (order : List (String × Combinator)) (known known' : Interner)
    (m : Matcher) : Matcher :=
  (m.renumber (g.newNumber order)).rename fun n => (known'.intern (known.text n)).1

/-- A rule is linked in another order and over another interner to its matcher, moved there, or with
the same defects. -/
theorem link_reorder (names names' : Interner) (perm : order.Perm g.rules)
    {rule : String × Combinator} (among : rule ∈ g.rules) :
    rule.2.link ((g.reorder order).directory names') rule.1 =
      (rule.2.link (g.directoryOver names) rule.1).map
        (g.moved order (names.internAll g.texts) names') := by
  let ρ : Name → Name := fun n => (names'.intern ((names.internAll g.texts).text n)).1
  have same : ∀ text ∈ rule.2.texts,
      (names'.intern text).1 = ρ ((names.internAll g.texts).intern text).1 :=
    fun text required => congrArg (fun text => (names'.intern text).1)
      (texts_known among required).symm
  have renamed := Combinator.link_rename
    (d := (g.reorder order).directory (names.internAll g.texts)) rule.1 rule.2 same
  have numbers : ∀ name, { g.directoryOver names with
      rules := order.map Prod.fst }.ruleRef? name =
        ((g.directoryOver names).ruleRef? name).map (g.newNumber order) :=
    ruleRef?_reorder _ (names.internAll g.texts) perm
  have renumbered := Combinator.link_renumber rule.1 numbers rule.2
  exact renamed.trans ((congrArg (Except.map _) renumbered).trans (Linked.map_map _ _ _))

/-- The body of a rule in another order is the moved body. -/
theorem body_reorder (names names' : Interner) (perm : order.Perm g.rules)
    {rule : String × Combinator} (among : rule ∈ g.rules) :
    ((g.reorder order).directory names').body rule =
      g.moved order (names.internAll g.texts) names' ((g.directoryOver names).body rule) :=
  Directory.body_of_map (link_reorder names names' perm among) rfl

/-- The entry is missing in another order if it was missing. -/
theorem missingEntry_reorder (perm : order.Perm g.rules) :
    (g.reorder order).missingEntry = g.missingEntry := by
  have entry : ((g.reorder order).directory .initial).ruleRef? g.entry = none ↔
      (g.directory .initial).ruleRef? g.entry = none := by
    rw [ruleRef?_reorder .initial .initial perm, Option.map_eq_none_iff]
  simp only [missingEntry, ← entry]
  rfl

/-- The names of a rule are known in every order, or they have the same defects. -/
theorem nameDefects_reorder (names names' : Interner) (perm : order.Perm g.rules)
    {rule : String × Combinator} (among : rule ∈ g.rules) :
    ((g.reorder order).directory names').nameDefects rule =
      (g.directoryOver names).nameDefects rule :=
  Directory.nameDefects_of_map (link_reorder names names' perm among)

/-- All names are known in every order, or in none. -/
theorem known_reorder (perm : order.Perm g.rules) :
    (g.reorder order).Known names' ↔ g.Known names := by
  have entry := ruleRef?_reorder (names.internAll g.texts)
    (names'.internAll (g.reorder order).texts) perm g.entry
  have rules : order.all ((g.reorder order).directoryOver names').links =
      g.rules.all (g.directoryOver names).links := by
    rw [← perm.all_eq, Bool.eq_iff_iff, List.all_eq_true, List.all_eq_true]
    refine forall₂_congr fun rule among => ?_
    rw [Directory.links_of_map (link_reorder names _ perm (perm.mem_iff.mp among))]
  refine and_congr (not_congr ?_) (Bool.eq_iff_iff.mp rules)
  exact (Eq.congr_left entry).trans Option.map_eq_none_iff

/-- What the last round of inference reads is the same in every order. -/
theorem renumbered_reorder (names names' : Interner) (perm : order.Perm g.rules)
    (distinct : g.Distinct) :
    RuleSignatures.Renumbered (g.newNumber order) (g.signaturesOver names)
      ((g.reorder order).signaturesOver names') := by
  have bodies : order.map ((g.reorder order).directoryOver names').body =
      (order.map fun rule => ((g.directoryOver names).body rule).renumber
        (g.newNumber order)).map (Matcher.rename fun n =>
          ((names'.internAll (g.reorder order).texts).intern
            ((names.internAll g.texts).text n)).1) := by
    rw [List.map_map]
    exact List.map_congr_left fun rule among =>
      body_reorder names _ perm (perm.mem_iff.mp among)
  have read : (g.reorder order).signaturesOver names' = (RuleSignatures.infer g.schema
      (order.map ((g.reorder order).directoryOver names').body)).1 := rfl
  rw [read, bodies, RuleSignatures.infer_rename]
  exact RuleSignatures.renumbered_infer (reordered_bodies perm distinct _)

/-- A moved matcher has the signature that it had. -/
theorem signature?_moved {known known' : Interner} {read read' : RuleSignatures}
    (same : RuleSignatures.Renumbered (g.newNumber order) read read') (m : Matcher) :
    (g.moved order known known' m).signature? g.schema read'.get? =
      m.signature? g.schema read.get? := by
  rw [moved, Matcher.signature?_rename, Matcher.signature?_renumber]
  exact congrArg (m.signature? g.schema) (funext same)

/-- The body of a rule has the same defects in every order. -/
theorem ownDefects_reorder (perm : order.Perm g.rules) (distinct : g.Distinct)
    {rule : String × Combinator} (among : rule ∈ g.rules) :
    (g.reorder order).ownDefects names' rule = g.ownDefects names rule := by
  have same := renumbered_reorder names names' perm distinct
  simp only [ownDefects, body_reorder names _ perm among]
  rw [show (g.reorder order).schema = g.schema from rfl, signature?_moved same, moved,
    ruleDefects_rename, RuleSignatures.ruleDefects_renumber same]

/-- What is found of a rule is the same in every order. -/
theorem defectsOf_reorder (perm : order.Perm g.rules) (distinct : g.Distinct)
    {rule : String × Combinator} (among : rule ∈ g.rules) :
    (g.reorder order).defectsOf names' rule = g.defectsOf names rule :=
  if_congr (known_reorder perm) (ownDefects_reorder perm distinct among)
    (nameDefects_reorder names _ perm among)

/-- A grammar has defects in every order, or in none. -/
theorem sound_reorder (perm : order.Perm g.rules) (distinct : g.Distinct) :
    (g.reorder order).Sound names' ↔ g.Sound names := by
  refine and_congr (known_reorder perm) (forall_congr' fun rule => ?_)
  have listed : rule ∈ (g.reorder order).rules ↔ rule ∈ g.rules := perm.mem_iff
  exact imp_congr_ctx listed fun among => by
    rw [ownDefects_reorder perm distinct among]

/-- The body of a rule yields equally many values in every order. -/
theorem arity_reorder (perm : order.Perm g.rules) (distinct : g.Distinct)
    {rule : String × Combinator} (among : rule ∈ g.rules) {entry entry' : RuleRef} :
    ((g.reorder order).programOver names' entry').arity
        (((g.reorder order).directoryOver names').body rule) =
      (g.programOver names entry).arity ((g.directoryOver names).body rule) := by
  have same := renumbered_reorder names names' perm distinct
  rw [body_reorder names _ perm among, moved, Program.arity, Program.arity,
    Matcher.arity?_rename, Matcher.arity?_renumber]
  refine congrArg (fun rules => (Matcher.arity? rules _).getD 0) (funext fun ref => ?_)
  exact congrArg (Option.map List.length) (same ref)

end Order

/-- Resolving does not depend on the order of the rules, nor on what the interner knows. In every
order the grammar becomes a program, and then each of its rules has one arity and reads back to one
combinator, or it has the same defects: those of each rule, listed where the rule stands, and in
front of all that of a missing entry rule. -/
theorem resolve_reorder {g : Grammar} {order : List (String × Combinator)}
    (perm : order.Perm g.rules) (distinct : g.Distinct) (names names' : Interner) :
    (∃ p known q known', g.resolve names = .ok (p, known) ∧
      (g.reorder order).resolve names' = .ok (q, known') ∧
      ∀ rule ∈ g.rules, ∃ arity,
        p.HasRule known rule.1 arity (rule.2.byKind g.vocabulary) ∧
        q.HasRule known' rule.1 arity (rule.2.byKind g.vocabulary)) ∨
    (g.resolve names = .error (g.missingEntry ++ g.rules.flatMap (g.defectsOf names)) ∧
      (g.reorder order).resolve names' =
        .error (g.missingEntry ++ order.flatMap (g.defectsOf names))) := by
  by_cases sound : g.Sound names
  · have sound' : (g.reorder order).Sound names' := (sound_reorder perm distinct).mpr sound
    obtain ⟨entry, resolved⟩ := resolve_of_sound sound
    obtain ⟨entry', resolved'⟩ := resolve_of_sound sound'
    refine Or.inl ⟨_, _, _, _, resolved, resolved', fun rule among => ⟨_,
      hasRule_programOver distinct sound.1 among, ?_⟩⟩
    rw [← arity_reorder perm distinct among]
    exact hasRule_programOver (distinct.reorder perm) sound'.1 (perm.mem_iff.mpr among)
  · have unsound' : ¬ (g.reorder order).Sound names' :=
      fun sound' => sound ((sound_reorder perm distinct).mp sound')
    have found : order.flatMap ((g.reorder order).defectsOf names') =
        order.flatMap (g.defectsOf names) :=
      List.flatMap_congr fun rule among =>
        defectsOf_reorder perm distinct (perm.mem_iff.mp among)
    refine Or.inr ⟨resolve_of_not_sound sound, ?_⟩
    rw [resolve_of_not_sound unsound', missingEntry_reorder perm]
    exact congrArg (fun own => Except.error (g.missingEntry ++ own)) found

/-- Two rules that change places in every round of inference: either one has its first alternative
once the other one has a number of values. -/
def alternating : Grammar :=
  ⟨letters, .empty,
    [("main", .rule "even"), ("odd", .choice [.seq [.lit "a", .rule "even"], .rule "one"]),
      ("even", .choice [.seq [.lit "a", .rule "odd"], .rule "two"]), ("one", .lit "b"),
      ("two", .seq [.lit "b", .kind "id"])], [], "main"⟩

/-- Inference of the two rules is stopped before it settles, at the same point from the first rule
to the last as from the last to the first. -/
theorem resolve_reorder_alternating :
    ∃ p known q known', alternating.resolve .initial = .ok (p, known) ∧
      (alternating.reorder alternating.rules.reverse).resolve .initial = .ok (q, known') ∧
      RuleSignatures.next p.schema (p.rules.toList.map Rule.body) p.signatures ≠ p.signatures ∧
      ∀ rule ∈ alternating.rules, ∃ arity,
        p.HasRule known rule.1 arity (rule.2.byKind letters) ∧
        q.HasRule known' rule.1 arity (rule.2.byKind letters) := by
  have moving : (alternating.resolve .initial).toOption.any (fun made => decide
      (RuleSignatures.next made.1.schema (made.1.rules.toList.map Rule.body) made.1.signatures ≠
        made.1.signatures)) = true := by decide +kernel
  rcases resolve_reorder (List.reverse_perm alternating.rules) (by decide) .initial .initial with
    ⟨p, known, q, known', resolved, resolved', same⟩ | ⟨failed, _⟩
  · rw [resolved] at moving
    exact ⟨p, known, q, known', resolved, resolved', of_decide_eq_true moving, same⟩
  · rw [failed] at moving
    cases moving

end Grammar

end CombinatorGrammar
