import CombinatorGrammar.Grammar.Basic
import Mathlib.Data.List.Nodup

/-!
# Assembling a grammar

Rules are added one by one and refused for a name that is taken. So a grammar is assembled of its
parts if the schema can be declared and no two rules have one name; it has the rules in the order in
which they are added, and no predicates but those that it is assembled with.
-/

namespace CombinatorGrammar

namespace Grammar

/-- No two rules have one name, as in every grammar that is assembled. -/
def Distinct (g : Grammar) : Prop := (g.rules.map Prod.fst).Nodup

instance (g : Grammar) : Decidable g.Distinct := inferInstanceAs (Decidable (List.Nodup _))

/-- The grammar with its rules in another order. -/
def reorder (g : Grammar) (order : List (String × Combinator)) : Grammar :=
  { g with rules := order }

/-- A rule is added behind the others if its name is new. -/
theorem addRule_eq_ok_iff {g h : Grammar} {name : String} {body : Combinator} :
    g.addRule name body = .ok h ↔
      name ∉ g.rules.map Prod.fst ∧ h = g.reorder (g.rules ++ [(name, body)]) := by
  have taken : (g.rules.any fun rule => rule.1 == name) = true ↔ name ∈ g.rules.map Prod.fst := by
    simp only [List.any_eq_true, beq_iff_eq, List.mem_map]
  rw [addRule]
  split
  · next found => exact ⟨nofun, fun fresh => absurd (taken.mp found) fresh.1⟩
  · next fresh =>
    exact ⟨fun same => ⟨fun found => fresh (taken.mpr found), (Except.ok.inj same).symm⟩,
      fun same => congrArg Except.ok same.2.symm⟩

/-- Rules are added to a grammar if and only if no two rules have one name in the end. -/
theorem addRules_eq_ok_iff {rules : List (String × Combinator)} {g h : Grammar}
    (distinct : g.Distinct) :
    rules.foldlM (fun g rule => g.addRule rule.1 rule.2) g = .ok h ↔
      (g.reorder (g.rules ++ rules)).Distinct ∧ h = g.reorder (g.rules ++ rules) := by
  induction rules generalizing g with
  | nil =>
    rw [List.append_nil]
    exact ⟨fun same => ⟨distinct, (Except.ok.inj same).symm⟩, fun same => congrArg _ same.2.symm⟩
  | cons rule rules ih =>
    have taken : g.rules ++ rule :: rules = g.rules ++ [rule] ++ rules := List.append_cons ..
    rw [List.foldlM_cons]
    cases added : g.addRule rule.1 rule.2 with
    | error defect =>
      refine ⟨nofun, fun ⟨all, _⟩ => ?_⟩
      rw [Distinct, reorder, List.map_append] at all
      have fresh : rule.1 ∉ g.rules.map Prod.fst := fun found =>
        List.disjoint_of_nodup_append all found (List.mem_cons_self ..)
      rw [addRule_eq_ok_iff.mpr ⟨fresh, rfl⟩] at added
      cases added
    | ok next =>
      obtain ⟨fresh, rfl⟩ := addRule_eq_ok_iff.mp added
      rw [taken]
      refine ih ?_
      rw [Distinct, reorder, List.map_append]
      exact List.Nodup.append distinct (List.nodup_singleton _)
        (List.disjoint_singleton.mpr fresh)

/-- Predicates are added whatever the order of the rules is. -/
theorem addPredicates_reorder (predicates : List Predicate) (g : Grammar)
    (order : List (String × Combinator)) :
    predicates.foldl addPredicate (g.reorder order) =
      (predicates.foldl addPredicate g).reorder order := by
  induction predicates generalizing g with
  | nil => rfl
  | cons p predicates ih =>
    have first : (g.reorder order).addPredicate p = (g.addPredicate p).reorder order := by
      by_cases taken : (g.predicates.any fun q => q.name == p.name) = true
      · rw [addPredicate, addPredicate, if_pos taken]
        exact if_pos taken
      · rw [addPredicate, addPredicate, if_neg taken]
        exact if_neg taken
    rw [List.foldl_cons, List.foldl_cons, first, ih]

/-- A predicate of the grammar was there before or is the one that was added. -/
theorem mem_addPredicate {g : Grammar} {p q : Predicate} (h : q ∈ (g.addPredicate p).predicates) :
    q = p ∨ q ∈ g.predicates := by
  rw [addPredicate] at h
  split at h
  · obtain ⟨r, among, rfl⟩ := List.mem_map.mp h
    split
    · exact Or.inl rfl
    · exact Or.inr among
  · rcases List.mem_append.mp h with before | last
    · exact Or.inr before
    · exact Or.inl (List.mem_singleton.mp last)

/-- A predicate of the grammar was there before or is among those that were added. -/
theorem mem_addPredicates {predicates : List Predicate} {g : Grammar} {q : Predicate}
    (h : q ∈ (predicates.foldl addPredicate g).predicates) : q ∈ predicates ∨ q ∈ g.predicates := by
  induction predicates generalizing g with
  | nil => exact Or.inr h
  | cons p predicates ih =>
    rcases ih h with later | here
    · exact Or.inl (List.mem_cons_of_mem _ later)
    · rcases mem_addPredicate here with rfl | before
      · exact Or.inl (List.mem_cons_self ..)
      · exact Or.inr before

section Assemble

variable {entry : String} {vocabulary : Vocabulary} {declarations : List Declaration}
  {rules : List (String × Combinator)} {predicates : List Predicate} {g : Grammar}

/-- A grammar is assembled if and only if its schema is declared and no two rules have one name. -/
theorem assemble_eq_ok_iff :
    assemble entry vocabulary declarations rules predicates = .ok g ↔
      ∃ schema, Schema.ofDeclarations declarations = .ok schema ∧ (rules.map Prod.fst).Nodup ∧
        g = (predicates.foldl addPredicate (empty entry vocabulary schema)).reorder rules := by
  have added (schema : Schema) {h : Grammar} :
      rules.foldlM (fun g rule => g.addRule rule.1 rule.2) (empty entry vocabulary schema) =
        .ok h ↔ (rules.map Prod.fst).Nodup ∧ h = (empty entry vocabulary schema).reorder rules :=
    addRules_eq_ok_iff List.nodup_nil
  simp only [assemble, bind, Except.bind]
  cases declared : Schema.ofDeclarations declarations with
  | error defect => exact ⟨nofun, nofun⟩
  | ok schema =>
    simp only [Except.ok.injEq, ↓existsAndEq, true_and, ← addPredicates_reorder]
    constructor
    · intro assembled
      split at assembled
      · cases assembled
      · next all =>
        obtain ⟨distinct, rfl⟩ := (added schema).mp all
        exact ⟨distinct, (Except.ok.inj assembled).symm⟩
    · rintro ⟨distinct, rfl⟩
      rw [(added schema).mpr ⟨distinct, rfl⟩]
      rfl

/-- A grammar that is assembled of its parts has rules with distinct names. -/
theorem distinct_of_assemble
    (h : assemble entry vocabulary declarations rules predicates = .ok g) : g.Distinct := by
  obtain ⟨schema, _, distinct, rfl⟩ := assemble_eq_ok_iff.mp h
  exact distinct

/-- The rules can be added in any order. -/
theorem assemble_reorder {order : List (String × Combinator)} (perm : order.Perm rules)
    (h : assemble entry vocabulary declarations rules predicates = .ok g) :
    assemble entry vocabulary declarations order predicates = .ok (g.reorder order) := by
  obtain ⟨schema, declared, distinct, rfl⟩ := assemble_eq_ok_iff.mp h
  exact assemble_eq_ok_iff.mpr
    ⟨schema, declared, (perm.map Prod.fst).nodup_iff.mpr distinct, rfl⟩

/-- A grammar has no predicates but those it is assembled with. -/
theorem mem_predicates_of_assemble
    (h : assemble entry vocabulary declarations rules predicates = .ok g) {q : Predicate}
    (among : q ∈ g.predicates) : q ∈ predicates := by
  obtain ⟨schema, _, _, rfl⟩ := assemble_eq_ok_iff.mp h
  exact (mem_addPredicates among).resolve_right List.not_mem_nil

end Assemble

end Grammar

end CombinatorGrammar
