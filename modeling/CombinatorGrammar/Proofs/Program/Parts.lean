import CombinatorGrammar.Program.Basic

/-!
# What a program is made of

A matcher is made of its operands, of theirs, and so on. The parts of a program are those of its
rule bodies; they are closed under taking operands, so what validation and linking establish for
bodies can be had for every matcher that a run may meet.
-/

namespace CombinatorGrammar

namespace Matcher

/-- The matchers that a matcher is built from directly. -/
def operands : Matcher → List Matcher
  | seq items => items
  | choice alternatives => alternatives
  | opt m => [m]
  | group m => [m]
  | list _ element => [element]
  | sepList _ element separator => [element, separator]
  | predicate _ m => [m]
  | protect m guard => [m, guard]
  | node _ _ m => [m]
  | enum _ _ m => [m]
  | _ => []

/-- Induction on a matcher, with all operands alike. -/
theorem operand_induction {motive : Matcher → Prop}
    (step : ∀ m, (∀ n ∈ m.operands, motive n) → motive m) (m : Matcher) : motive m := by
  induction m with
  | seq items ih => exact step _ ih
  | choice alternatives ih => exact step _ ih
  | opt m ih => exact step _ (by simpa [operands] using ih)
  | group m ih => exact step _ (by simpa [operands] using ih)
  | list _ m ih => exact step _ (by simpa [operands] using ih)
  | sepList _ m n ihm ihn => exact step _ (by simpa [operands] using ⟨ihm, ihn⟩)
  | predicate _ m ih => exact step _ (by simpa [operands] using ih)
  | protect m n ihm ihn => exact step _ (by simpa [operands] using ⟨ihm, ihn⟩)
  | node _ _ m ih => exact step _ (by simpa [operands] using ih)
  | enum _ _ m ih => exact step _ (by simpa [operands] using ih)
  | token | rule | cut | skip | null => exact step _ (by simp [operands])

mutual

/-- The matcher itself and the parts of its operands. -/
def parts : Matcher → List Matcher
  | seq items => seq items :: partsOfAll items
  | choice alternatives => choice alternatives :: partsOfAll alternatives
  | opt m => opt m :: m.parts
  | group m => group m :: m.parts
  | list repetition element => list repetition element :: element.parts
  | sepList repetition element separator =>
    sepList repetition element separator :: (element.parts ++ separator.parts)
  | predicate ref m => predicate ref m :: m.parts
  | protect m guard => protect m guard :: (m.parts ++ guard.parts)
  | node type layout m => node type layout m :: m.parts
  | enum type alternative m => enum type alternative m :: m.parts
  | m => [m]

/-- The parts of several matchers. -/
def partsOfAll : List Matcher → List Matcher
  | [] => []
  | m :: ms => m.parts ++ partsOfAll ms

end

/-- A part of several matchers is a part of one of them. -/
theorem mem_partsOfAll {k : Matcher} {ms : List Matcher} :
    k ∈ partsOfAll ms ↔ ∃ m ∈ ms, k ∈ m.parts := by
  induction ms with
  | nil => simp [partsOfAll]
  | cons m ms ih => simp [partsOfAll, ih]

/-- A part of a matcher is the matcher itself or a part of an operand. -/
theorem mem_parts_iff {k m : Matcher} :
    k ∈ m.parts ↔ k = m ∨ ∃ n ∈ m.operands, k ∈ n.parts := by
  cases m <;> simp [parts, operands, mem_partsOfAll]

@[simp] theorem mem_parts_self (m : Matcher) : m ∈ m.parts := mem_parts_iff.mpr (Or.inl rfl)

/-- An operand of a part is a part. -/
theorem operand_mem_parts {k m n : Matcher} (part : m ∈ k.parts) (operand : n ∈ m.operands) :
    n ∈ k.parts := by
  induction k using operand_induction with
  | step k ih =>
    rw [mem_parts_iff]
    rcases mem_parts_iff.mp part with rfl | ⟨first, among, below⟩
    · exact Or.inr ⟨n, operand, mem_parts_self n⟩
    · exact Or.inr ⟨first, among, ih first among below⟩

/-- What passes from a matcher to its operands holds of all parts. -/
theorem forall_parts {P : Matcher → Prop} (down : ∀ m, P m → ∀ n ∈ m.operands, P n) {m : Matcher}
    (here : P m) : ∀ n ∈ m.parts, P n := by
  induction m using operand_induction with
  | step m ih =>
    intro n part
    rcases mem_parts_iff.mp part with rfl | ⟨first, among, below⟩
    · exact here
    · exact ih first among (down m here first among) n below

end Matcher

namespace Program

/-- The parts of all rule bodies. -/
def parts (p : Program) : List Matcher := p.rules.toList.flatMap fun rule => rule.body.parts

variable {p : Program} {m n : Matcher}

/-- A part of a program is a part of the body of a rule. -/
theorem mem_parts : m ∈ p.parts ↔ ∃ rule ∈ p.rules, m ∈ rule.body.parts := by
  simp [parts]

/-- The body of a rule is a part of the program. -/
theorem body_mem_parts {ref : RuleRef} {rule : Rule} (found : p.rule? ref = some rule) :
    rule.body ∈ p.parts :=
  mem_parts.mpr ⟨rule, Array.mem_of_getElem? found, Matcher.mem_parts_self _⟩

/-- An operand of a part of a program is a part of the program. -/
theorem operand_mem_parts (part : m ∈ p.parts) (operand : n ∈ m.operands) : n ∈ p.parts := by
  obtain ⟨rule, among, below⟩ := mem_parts.mp part
  exact mem_parts.mpr ⟨rule, among, Matcher.operand_mem_parts below operand⟩

/-- The operand at some place of a part is a part. -/
theorem operand_part (part : m ∈ p.parts) (i : Nat) (found : m.operands[i]? = some n) :
    n ∈ p.parts :=
  operand_mem_parts part (List.mem_of_getElem? found)

end Program

end CombinatorGrammar
