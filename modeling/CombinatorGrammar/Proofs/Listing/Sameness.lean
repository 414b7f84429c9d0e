import CombinatorGrammar.Proofs.Likeness.Words
import CombinatorGrammar.Proofs.Listing.ReadBack
import CombinatorGrammar.Proofs.Program.Resolution

/-!
# Programs with one listing

Programs are compared by their listings, and a listing has names where texts are asked for. So
programs that are the same are one program as far as runs go, but only names of one interner can be
compared: programs that were resolved over different interners may have the same listing and ask for
different texts. Where the names that are asked for are names of the same texts, programs that are
the same make the same of all words.
-/

namespace CombinatorGrammar

namespace Program

variable {p q : Program}

/-- The instructions of a program are those of the bodies of its rules, one after the other. -/
theorem listing_fst (p : Program) :
    p.instructions.map Prod.fst = Matcher.instructionsOfAll 0 p.bodies := by
  rw [instructions, List.map_map]
  rfl

/-- The rules are listed under their names. -/
theorem listedRules_name (p : Program) :
    p.listedRules.map ListedRule.name = p.rules.toList.map Rule.name := by
  have lengths : p.rules.toList.length ≤ (Matcher.handles 0 p.bodies).length := by
    rw [Matcher.length_handles, bodies, List.length_map]
  rw [listedRules, List.map_map]
  calc (p.rules.toList.zip (Matcher.handles 0 p.bodies)).map (Rule.name ∘ Prod.fst)
      = ((p.rules.toList.zip (Matcher.handles 0 p.bodies)).map Prod.fst).map Rule.name :=
        (List.map_map ..).symm
    _ = p.rules.toList.map Rule.name := by rw [List.map_fst_zip lengths]

/-- The signatures of the rules are those that inference finds for their bodies. -/
def HasOwnSignatures (p : Program) : Prop :=
  p.signatures = (RuleSignatures.infer p.schema p.bodies).1

/-- Rules are the same if they have the same names and bodies. -/
theorem rules_eq (names : p.rules.toList.map Rule.name = q.rules.toList.map Rule.name)
    (bodies : p.bodies = q.bodies) : p.rules = q.rules := by
  have paired (rules : List Rule) :
      List.zipWith Rule.mk (rules.map Rule.name) (rules.map Rule.body) = rules := by
    rw [List.zipWith_map, List.zipWith_self, List.map_id']
  rw [← Array.toList_inj, ← paired p.rules.toList, ← paired q.rules.toList, names]
  exact congrArg (List.zipWith Rule.mk _) bodies

/-- Programs of one vocabulary that are listed alike are one program, if they have no predicates. -/
theorem eq_of_same (signed : p.HasOwnSignatures) (signed' : q.HasOwnSignatures)
    (vocabulary : q.vocabulary = p.vocabulary) (noPredicates : p.predicates = #[])
    (same : p.same q = true) : q = p := by
  simp only [Program.same, Bool.and_eq_true, beq_iff_eq, noPredicates] at same
  obtain ⟨⟨⟨⟨instructions, rules⟩, entry⟩, schemas⟩, predicates⟩ := same
  have bodies : p.bodies = q.bodies := by
    refine Matcher.instructionsOfAll_injective 0 ?_
    rw [← listing_fst, ← listing_fst, instructions]
  have rules : p.rules = q.rules := by
    refine rules_eq ?_ bodies
    rw [← listedRules_name, ← listedRules_name, rules]
  have schema : p.schema = q.schema := by
    simp only [Schema.same, Bool.and_eq_true, beq_iff_eq] at schemas
    cases hp : p.schema
    cases hq : q.schema
    simp_all
  have signatures : p.signatures = q.signatures := by
    rw [signed, signed', bodies, schema]
  have none : q.predicates = #[] :=
    Array.map_eq_empty_iff.mp (predicates.symm.trans Array.map_empty)
  cases p
  cases q
  simp_all

end Program

namespace Grammar

variable {g : Grammar} {names known : Interner} {p : Program}

/-- A program that was resolved has the signatures that its own rules have. -/
theorem hasOwnSignatures_of_resolve (resolved : g.resolve names = .ok (p, known)) :
    p.HasOwnSignatures := by
  obtain ⟨_, entry, rules, _, _, rfl⟩ := resolve_eq_ok resolved
  rw [Program.HasOwnSignatures, Program.bodies, List.map_map]
  rfl

/-- Resolving keeps the vocabulary. -/
theorem vocabulary_of_resolve (resolved : g.resolve names = .ok (p, known)) :
    p.vocabulary = g.vocabulary := by
  obtain ⟨_, entry, rules, _, _, rfl⟩ := resolve_eq_ok resolved
  rfl

end Grammar

/-- Programs of grammars without predicates over one vocabulary that are the same, and in whose
interners the names that they ask for have the same texts, make the same of all words: the same
fault, or trees with the same outline and the same diagnostics. The texts of the words get names in
the interner of each program, in which others may have been interned before. -/
theorem Program.parseWords_eq_of_same {g h : Grammar}
    {names names' known known' later later' : Interner} {p q : Program}
    (resolved : g.resolve names = .ok (p, known)) (resolved' : h.resolve names' = .ok (q, known'))
    (vocabulary : h.vocabulary = g.vocabulary) (noPredicates : p.predicates = #[])
    (same : p.same q = true) (texts : ∀ n, p.AsksFor n → known'.text n = known.text n)
    (grows : known.Grows later) (grows' : known'.Grows later')
    (words : List (TokenKind × String × Span)) (stop : Nat) (config : ParseConfig) :
    q.parseWords later' words stop config = p.parseWords later words stop config := by
  have vocabularies : q.vocabulary = p.vocabulary := by
    rw [Grammar.vocabulary_of_resolve resolved', Grammar.vocabulary_of_resolve resolved, vocabulary]
  obtain rfl : q = p := eq_of_same (Grammar.hasOwnSignatures_of_resolve resolved)
    (Grammar.hasOwnSignatures_of_resolve resolved') vocabularies noPredicates same
  refine Program.parseWords_eq noPredicates (fun n among => ?_) words stop config
  obtain ⟨kind, keep, part⟩ := among
  obtain ⟨text, given⟩ := Grammar.gives_of_resolve resolved part
  obtain ⟨text', given'⟩ := Grammar.gives_of_resolve resolved' part
  have one : text' = text := by
    rw [← Interner.text_of_gives given, ← Interner.text_of_gives given', texts n ⟨kind, keep, part⟩]
  exact ⟨text, grows given, grows' (one ▸ given')⟩

/-- The grammar of one identifier with the given text. -/
def askingFor (text : String) : Grammar :=
  ⟨letters, .empty, [("main", .kindText "id" text)], [], "main"⟩

/-- The name that a matcher itself asks for. -/
def Matcher.asked? : Matcher → Option Name
  | .token _ text _ => text
  | _ => none

/-- Whether two grammars, resolved over two interners, have programs that pass a check. -/
def Grammar.passBoth (g h : Grammar) (names names' : Interner)
    (check : Program → Interner → Program → Interner → Bool) : Bool :=
  match g.resolve names, h.resolve names' with
  | .ok (p, known), .ok (q, known') => check p known q known'
  | _, _ => false

/-- Grammars that pass a check together resolve, and their programs pass it. -/
theorem Grammar.exists_of_passBoth {g h : Grammar} {names names' : Interner}
    {check : Program → Interner → Program → Interner → Bool}
    (passes : Grammar.passBoth g h names names' check = true) :
    ∃ p known q known', g.resolve names = .ok (p, known) ∧ h.resolve names' = .ok (q, known') ∧
      check p known q known' = true := by
  unfold passBoth at passes
  split at passes
  · exact ⟨_, _, _, _, ‹_›, ‹_›, passes⟩
  · cases passes

/-- A grammar resolved over a new interner and over one that knows another text already: a word
with a text of its own gets different names, and is reported alike. -/
theorem parseWords_eq_of_same_identifier :
    let names := Interner.initial.internAll ["x", "y"]
    ∃ p known q known', (askingFor "x").resolve .initial = .ok (p, known) ∧
      (askingFor "x").resolve names = .ok (q, known') ∧ p.predicates = #[] ∧
      p.same q = true ∧ (∀ n, p.AsksFor n → known'.text n = known.text n) ∧
      (known'.intern "z").1 ≠ (known.intern "z").1 ∧
      q.parseWords known' [(⟨1⟩, "z", .point 0)] 1 .standard =
        p.parseWords known [(⟨1⟩, "z", .point 0)] 1 .standard := by
  intro names
  have passes : Grammar.passBoth (askingFor "x") (askingFor "x") .initial names
      (fun p known q known' => decide (p.predicates.isEmpty = true ∧ p.same q = true ∧
        (p.parts.filterMap Matcher.asked?).all (fun n => known'.text n == known.text n) = true ∧
        (known'.intern "z").1 ≠ (known.intern "z").1)) = true := by
    decide +kernel
  obtain ⟨p, known, q, known', resolved, resolved', held⟩ := Grammar.exists_of_passBoth passes
  obtain ⟨noPredicates, same, asked, differ⟩ := of_decide_eq_true held
  have none : p.predicates = #[] := Array.isEmpty_iff.mp noPredicates
  have texts (n : Name) (among : p.AsksFor n) : known'.text n = known.text n := by
    obtain ⟨kind, keep, part⟩ := among
    exact eq_of_beq (List.all_eq_true.mp asked n (List.mem_filterMap.mpr ⟨_, part, rfl⟩))
  exact ⟨p, known, q, known', resolved, resolved', none, same, texts, differ,
    Program.parseWords_eq_of_same resolved resolved' rfl none same texts (.refl _) (.refl _) _ _ _⟩

/-- Grammars that ask for different texts are the same, as both texts have the first name of their
interners; but one of them has a tree for a word for which the other has none. -/
theorem same_asking_for_others :
    ∃ p known q known', (askingFor "x").resolve .initial = .ok (p, known) ∧
      (askingFor "y").resolve .initial = .ok (q, known') ∧ p.predicates = #[] ∧
      p.same q = true ∧
      q.parseWords known' [(⟨1⟩, "x", .point 0)] 1 .standard ≠
        p.parseWords known [(⟨1⟩, "x", .point 0)] 1 .standard := by
  have passes : Grammar.passBoth (askingFor "x") (askingFor "y") .initial .initial
      (fun p known q known' => decide (p.predicates.isEmpty = true ∧ p.same q = true ∧
        (p.parseWords known [(⟨1⟩, "x", .point 0)] 1 .standard).toOption.any
          (fun shown => shown.1.isSome) = true ∧
        (q.parseWords known' [(⟨1⟩, "x", .point 0)] 1 .standard).toOption.any
          (fun shown => shown.1.isSome) = false)) = true := by
    decide +kernel
  obtain ⟨p, known, q, known', resolved, resolved', held⟩ := Grammar.exists_of_passBoth passes
  obtain ⟨noPredicates, same, tree, none⟩ := of_decide_eq_true held
  refine ⟨p, known, q, known', resolved, resolved', Array.isEmpty_iff.mp noPredicates, same, ?_⟩
  intro equal
  rw [equal, tree] at none
  cases none

end CombinatorGrammar
