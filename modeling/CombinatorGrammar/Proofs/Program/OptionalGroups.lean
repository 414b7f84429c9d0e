import CombinatorGrammar.Proofs.Renaming.Resolution

/-!
# Optional groups

A grammar of grammars may have two ways to write what is optional: a mark in front of one
expression, and a mark in front of several ones in parentheses. Here stands what it means that a
program has both, where parentheses around expressions are an expression as well, and the function
that finds its parts.
-/

namespace CombinatorGrammar

/-- The rules, nodes and tokens of a program that has two ways to write what is optional. -/
structure OptionalGroups where
  question : TokenKind
  opening : TokenKind
  closing : TokenKind
  /-- The rule of both ways. -/
  opt : RuleRef
  expr : RuleRef
  /-- The rule of expressions without a suffix. -/
  primary : RuleRef
  /-- The rule of expressions in parentheses. -/
  pick : RuleRef
  /-- The node of a mark in front of one expression. -/
  single : NodeRef
  layout : List FieldKind
  /-- The node of a mark in front of several expressions in parentheses. -/
  group : NodeRef
  element : FieldKind

namespace OptionalGroups

variable (l : OptionalGroups)

/-- Expressions in parentheses. -/
def parenthesized (repetition : Repetition) : List Matcher :=
  [.token l.opening none false, .list repetition (.rule l.expr), .token l.closing none false]

/-- A mark in front of one expression. -/
def one : Matcher := .node l.single l.layout (.seq [.token l.question none false, .rule l.expr])

/-- A mark in front of several expressions in parentheses. -/
def several : Matcher :=
  .node l.group [.list l.element]
    (.seq (.token l.question none false :: l.parenthesized .zeroOrMore))

end OptionalGroups

namespace Matcher

/-- Whether the matcher is a choice that has the rule among its alternatives. -/
def offers (ref : RuleRef) : Matcher → Bool
  | choice alternatives => alternatives.any fun
    | rule other => other = ref
    | _ => false
  | _ => false

/-- A matcher that offers a rule is a choice with the rule among its alternatives. -/
theorem exists_choice_of_offers {ref : RuleRef} {m : Matcher} (h : m.offers ref = true) :
    ∃ alternatives, m = .choice alternatives ∧ .rule ref ∈ alternatives := by
  unfold offers at h
  split at h
  · next alternatives =>
    obtain ⟨n, among, isRule⟩ := List.any_eq_true.mp h
    cases n with
    | rule other => exact ⟨alternatives, rfl, of_decide_eq_true isRule ▸ among⟩
    | _ => cases isRule
  · cases h

/-- Whether the matcher itself builds a node of the type. -/
def builds (type : NodeRef) : Matcher → Bool
  | node other _ _ => other = type
  | skip other => other = type
  | _ => false

/-- Whether the matcher is neither a cut nor a reference to a rule outside the given ones. -/
def isUncut (uncut : RuleRef → Bool) : Matcher → Bool
  | cut => false
  | rule ref => uncut ref
  | _ => true

variable {ρ : Name → Name}

/-- Renaming texts does not change which nodes a matcher builds. -/
theorem builds_rename (type : NodeRef) (m : Matcher) :
    (m.rename ρ).builds type = m.builds type := by
  cases m <;> rfl

/-- Renaming texts does not change which matchers have no cut. -/
theorem isUncut_rename (uncut : RuleRef → Bool) (m : Matcher) :
    (m.rename ρ).isUncut uncut = m.isUncut uncut := by
  cases m <;> rfl

end Matcher

namespace Program

/-- Every part of every rule passes a check, which may look at the rule. -/
def PartsPass (p : Program) (check : RuleRef → Matcher → Bool) : Prop :=
  ∀ ref rule, p.rule? ref = some rule → ∀ m ∈ rule.body.parts, check ref m = true

instance (p : Program) (check : RuleRef → Matcher → Bool) : Decidable (p.PartsPass check) :=
  decidable_of_iff (∀ i : Fin p.rules.size,
      ((p.rule? ⟨i⟩).all fun rule => rule.body.parts.all (check ⟨i⟩)) = true) <| by
    simp only [Option.all_eq_true, List.all_eq_true]
    constructor
    · intro all ref rule found
      exact all ⟨ref.index, (Array.getElem?_eq_some_iff.mp found).1⟩ rule found
    · exact fun pass i => pass ⟨i⟩

/-- What passes a check that does not look at texts passes it under other names. -/
theorem PartsPass.rename {p : Program} {check : RuleRef → Matcher → Bool} (pass : p.PartsPass check)
    (ρ : Name → Name) (keeps : ∀ ref m, check ref (m.rename ρ) = check ref m) :
    (p.rename ρ).PartsPass check := by
  intro ref rule found m part
  rw [rule?_rename] at found
  obtain ⟨own, known, rfl⟩ := Option.map_eq_some_iff.mp found
  obtain ⟨k, inside, rfl⟩ := Matcher.exists_of_mem_parts_rename part
  rw [keeps]
  exact pass ref own known k inside

/-- The rules of which this holds come to no cut, neither in their bodies nor through references. -/
def Uncut (p : Program) (uncut : RuleRef → Bool) : Prop :=
  p.PartsPass fun ref m => !uncut ref || m.isUncut uncut

instance (p : Program) (uncut : RuleRef → Bool) : Decidable (p.Uncut uncut) :=
  inferInstanceAs (Decidable (p.PartsPass _))

end Program

namespace OptionalGroups

/-- The bodies of the rules, and that no other rule builds groups. -/
structure Rules (p : Program) (l : OptionalGroups) : Prop where
  opt : ∃ name, p.rule? l.opt = some ⟨name, .choice [l.one, l.several]⟩
  expr : ∃ name alternatives, p.rule? l.expr = some ⟨name, .choice alternatives⟩ ∧
    .rule l.primary ∈ alternatives
  primary : ∃ name alternatives, p.rule? l.primary = some ⟨name, .choice alternatives⟩ ∧
    .rule l.pick ∈ alternatives
  pick : ∃ name type layout,
    p.rule? l.pick = some ⟨name, .node type layout (.seq (l.parenthesized .oneOrMore))⟩
  apart : l.single ≠ l.group
  only : p.PartsPass fun ref m => ref = l.opt || !m.builds l.group

/-- A program has the rules of optional groups under other names of texts. -/
theorem Rules.rename {p : Program} {l : OptionalGroups} (rules : l.Rules p) (ρ : Name → Name) :
    l.Rules (p.rename ρ) where
  opt := by
    obtain ⟨name, found⟩ := rules.opt
    rw [Program.rule?_rename, found]
    exact ⟨name, rfl⟩
  expr := by
    obtain ⟨name, alternatives, found, among⟩ := rules.expr
    rw [Program.rule?_rename, found]
    refine ⟨name, _, rfl, ?_⟩
    rw [Matcher.renameAll_eq_map]
    exact List.mem_map_of_mem among
  primary := by
    obtain ⟨name, alternatives, found, among⟩ := rules.primary
    rw [Program.rule?_rename, found]
    refine ⟨name, _, rfl, ?_⟩
    rw [Matcher.renameAll_eq_map]
    exact List.mem_map_of_mem among
  pick := by
    obtain ⟨name, type, layout, found⟩ := rules.pick
    rw [Program.rule?_rename, found]
    exact ⟨name, type, layout, rfl⟩
  apart := rules.apart
  only := rules.only.rename ρ fun ref m => by rw [Matcher.builds_rename]

end OptionalGroups

/-- The ways to write what is optional that the rule `opt` offers, if it is of that form and `pick`
is the rule of expressions in parentheses. -/
def Program.optionalGroups? (p : Program) (opt primary pick : RuleRef) : Option OptionalGroups :=
  match p.rule? opt, p.rule? pick with
  | some ⟨_, .choice [.node single layout (.seq [.token question none false, .rule expr]),
        .node group [.list element] (.seq [.token question' none false, .token opening none false,
          .list .zeroOrMore (.rule expr'), .token closing none false])]⟩,
      some ⟨_, .node _ _ (.seq [.token opening' none false, .list .oneOrMore (.rule expr''),
        .token closing' none false])⟩ =>
    if question' = question ∧ opening' = opening ∧ closing' = closing ∧ expr' = expr ∧
        expr'' = expr then
      some ⟨question, opening, closing, opt, expr, primary, pick, single, layout, group, element⟩
    else none
  | _, _ => none

/-- Whether the rest of what makes the ways those of the program is so. -/
def OptionalGroups.fit (p : Program) (l : OptionalGroups) : Bool :=
  ((p.rule? l.expr).any fun rule => rule.body.offers l.primary) &&
    ((p.rule? l.primary).any fun rule => rule.body.offers l.pick) && decide (l.single ≠ l.group) &&
    decide (p.PartsPass fun ref m => ref = l.opt || !m.builds l.group)

/-- Optional groups that are found in a program and fit it have the rules that they tell. -/
theorem OptionalGroups.rules_of_optionalGroups? {p : Program} {opt primary pick : RuleRef}
    {l : OptionalGroups} (found : p.optionalGroups? opt primary pick = some l)
    (fit : l.fit p = true) : l.Rules p := by
  have offered {ref other : RuleRef}
      (h : ((p.rule? ref).any fun rule => rule.body.offers other) = true) :
      ∃ name alternatives, p.rule? ref = some ⟨name, .choice alternatives⟩ ∧
        .rule other ∈ alternatives := by
    obtain ⟨⟨name, body⟩, found, offers⟩ := Option.any_eq_true _ _ |>.mp h
    obtain ⟨alternatives, rfl, among⟩ := Matcher.exists_choice_of_offers offers
    exact ⟨name, alternatives, found, among⟩
  simp only [OptionalGroups.fit, Bool.and_eq_true, decide_eq_true_eq] at fit
  obtain ⟨⟨⟨expr, primary⟩, apart⟩, only⟩ := fit
  unfold Program.optionalGroups? at found
  split at found
  · next both inside =>
    split at found
    · next same =>
      obtain ⟨rfl, rfl, rfl, rfl, rfl⟩ := same
      obtain rfl := Option.some.inj found
      exact ⟨⟨_, both⟩, offered expr, offered primary, ⟨_, _, _, inside⟩, apart, only⟩
    · cases found
  · cases found

end CombinatorGrammar
