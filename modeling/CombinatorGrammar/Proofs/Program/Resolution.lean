import CombinatorGrammar.Proofs.Program.Linking

/-!
# What resolving establishes

A grammar that is resolved becomes a program in which every rule has a signature, in which
validation finds no defect, in which no reference leads nowhere, and in which every node
construction carries the layout of its type. Signatures and defects are relative to the rule
signatures that the last round of inference read, which need not be the ones that it gave.
-/

namespace CombinatorGrammar

namespace Matcher

/-- What linking establishes for a matcher by itself: a reference to a rule is to one of so many
rules, and a node construction carries the layout of its type. -/
def Anchored (schema : Schema) (rules : Nat) : Matcher → Prop
  | rule ref => ref.index < rules
  | node type layout _ => layout = (schema.layout type).map Field.kind
  | _ => True

/-- All parts of the matcher are anchored. -/
def AllAnchored (schema : Schema) (rules : Nat) (m : Matcher) : Prop :=
  ∀ part ∈ m.parts, part.Anchored schema rules

end Matcher

/-- A rule that is found under its name is one of the rules. -/
theorem Directory.ruleRef?_lt {d : Directory} {name : String} {ref : RuleRef}
    (h : d.ruleRef? name = some ref) : ref.index < d.rules.length := by
  obtain ⟨i, found, rfl⟩ := Option.map_eq_some_iff.mp h
  exact (List.findIdx?_eq_some_iff_getElem.mp found).1

namespace Combinator

variable {d : Directory} {rule : String}

/-- What a combinator is linked to is anchored. -/
theorem anchored_of_link {c : Combinator} {m : Matcher} (h : c.link d rule = .ok m) :
    m.Anchored d.schema d.rules.length := by
  cases c with
  | rule name =>
    obtain ⟨ref, found, rfl⟩ := Linked.map_eq_ok h
    exact Directory.ruleRef?_lt (Linked.ofOption_eq_ok found)
  | node name c =>
    obtain ⟨⟨n, type⟩, _, rfl⟩ := Linked.map_eq_ok h
    rfl
  | cut =>
    obtain rfl := Except.ok.inj h
    trivial
  | token | seq | choice | opt | group | list | sepList | predicate | skip | protect | null
  | enum =>
    obtain ⟨_, _, rfl⟩ := Linked.map_eq_ok h
    trivial

end Combinator

/-- What the bodies of linked rules refer to is declared. -/
theorem Grammar.linkRules_anchored {d : Directory} {rules : List (String × Combinator)}
    {linked : List (String × Matcher)} (h : Grammar.linkRules d rules = .ok linked) :
    ∀ rule ∈ linked, rule.2.AllAnchored d.schema d.rules.length := by
  intro rule among part inside
  obtain ⟨c, same, _⟩ := linkRules_parts h rule among part inside
  exact Combinator.anchored_of_link same

namespace RuleSignatures

/-- What the last round gave is computed from what it read. -/
theorem rounds_snd {schema : Schema} {bodies : List Matcher} {n : Nat}
    {read given : RuleSignatures} (h : n ≠ 0 ∨ given = next schema bodies read) :
    (rounds schema bodies n read given).2 =
      next schema bodies (rounds schema bodies n read given).1 := by
  induction n generalizing read given with
  | zero => exact h.resolve_left (by simp)
  | succ n ih =>
    rw [rounds]
    split
    · next stable => exact stable.symm
    · exact ih (Or.inr rfl)

/-- Inference ends with one more round of what it has settled at. -/
theorem infer_snd (schema : Schema) (bodies : List Matcher) :
    (infer schema bodies).2 = next schema bodies (infer schema bodies).1 :=
  rounds_snd (Or.inl (by simp [maxRounds]))

/-- Every body stands beside the signature that the last round found for it. -/
theorem zip_infer (schema : Schema) (rules : List (String × Matcher)) :
    rules.zip (infer schema (rules.map Prod.snd)).2.toList =
      rules.map fun rule =>
        (rule, rule.2.signature? schema (infer schema (rules.map Prod.snd)).1.get?) := by
  have paired := List.zip_map' (f := id) (l := rules) (g := fun rule =>
    rule.2.signature? schema (infer schema (rules.map Prod.snd)).1.get?)
  rw [List.map_id] at paired
  rw [infer_snd, next, List.map_map]
  exact paired

end RuleSignatures

/-- What resolving a grammar establishes for its program. -/
structure Program.Checked (p : Program) : Prop where
  /-- Validation finds no defect in a rule body. -/
  valid : ∀ rule ∈ p.rules,
    Validation.defects ⟨p.schema, p.signatures, rule.name⟩ rule.body = []
  /-- Every rule body has a signature. -/
  productive : ∀ rule ∈ p.rules, (rule.body.signature? p.schema p.signatures.get?).isSome
  /-- References are to rules of the program, and node constructions carry the layouts of their
  types. -/
  anchored : ∀ rule ∈ p.rules, rule.body.AllAnchored p.schema p.rules.size

/-- A grammar resolves to a program of its own schema in which everything has been checked. -/
theorem Grammar.checked_of_resolve {g : Grammar} {names names' : Interner} {p : Program}
    (h : g.resolve names = .ok (p, names')) : p.schema = g.schema ∧ p.Checked := by
  obtain ⟨rfl, entry, rules, found, sound, rfl⟩ := resolve_eq_ok h
  have linked := (Linked.both_eq_ok found).2
  have anchored := linkRules_anchored linked
  rw [show (g.directory _).rules.length = rules.length by
    rw [linkRules_length linked, Grammar.directory, List.length_map]] at anchored
  rw [RuleSignatures.zip_infer, List.flatMap_eq_nil_iff] at sound
  have checked : ∀ rule ∈ rules, ruleDefects g.schema _ _ rule.1 rule.2 = [] :=
    fun rule among => sound _ (List.mem_map_of_mem among)
  simp only [ruleDefects, List.append_eq_nil_iff] at checked
  refine ⟨rfl, ?_, ?_, ?_⟩ <;> intro rule among <;>
    obtain ⟨source, member, rfl⟩ := List.mem_map.mp (List.mem_toArray.mp among)
  · exact (checked source member).2
  · simpa [Option.isSome_iff_ne_none] using (checked source member).1
  · simpa [Grammar.directory] using anchored source member

/-- The vocabulary of identifiers and two letters. -/
def letters : Vocabulary :=
  [("id", none), ("a", some "a"), ("b", some "b")].foldl
    (fun v kind => ((v.add kind.1 kind.2).map Prod.snd).getD v) .initial

/-- The tokens of the given kinds, all at one place. -/
def tokensOf (kinds : List Nat) : TokenStream :=
  .ofList (kinds.map fun kind => ⟨⟨kind⟩, .empty, .point 0⟩) 0

/-- Whether the grammar that starts at the rule `main`, over the declared types and with the given
rules, resolves to a program that passes a check. -/
def Grammar.passes (vocabulary : Vocabulary) (declarations : List Declaration)
    (rules : List (String × Combinator)) (check : Program → Bool) : Bool :=
  match Schema.ofDeclarations declarations with
  | .error _ => false
  | .ok schema =>
    match Grammar.resolve ⟨vocabulary, schema, rules, [], "main"⟩ .initial with
    | .error _ => false
    | .ok (p, _) => check p

/-- What passes a check resolves, and its program passes the check. -/
theorem Grammar.exists_of_passes {vocabulary : Vocabulary} {declarations : List Declaration}
    {rules : List (String × Combinator)} {check : Program → Bool}
    (h : Grammar.passes vocabulary declarations rules check = true) :
    ∃ g : Grammar, ∃ p names, g.rules = rules ∧
      Schema.ofDeclarations declarations = .ok g.schema ∧
      g.resolve .initial = .ok (p, names) ∧ check p = true := by
  unfold Grammar.passes at h
  split at h
  · cases h
  · next schema declared =>
    split at h
    · cases h
    · next p names resolved =>
      exact ⟨⟨vocabulary, schema, rules, [], "main"⟩, p, names, rfl, declared, resolved, h⟩

end CombinatorGrammar
