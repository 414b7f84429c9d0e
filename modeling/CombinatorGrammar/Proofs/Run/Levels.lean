import CombinatorGrammar.Proofs.Run.Interpreter

/-!
# Calls of rules, level by level

A call that is not stopped runs the body of its rule one level further down, behind every rule in
progress. What holds of the runs of bodies, given that it holds of the calls in them, holds of the
calls on every level.
-/

namespace CombinatorGrammar

namespace Session

variable {x : Session} {call : Call} {ref : RuleRef} {active : List (RuleRef × Nat)}
  {guards : List Matcher} {s s' : State} {o : Outcome}

/-- A call ends where a level remains, the rule is not in progress here, and its body ends. -/
theorem call_eq_ok_iff {remaining depth : Nat} :
    x.call remaining depth ref active guards s = .ok (o, s') ↔
      ∃ rest, remaining = rest + 1 ∧ active.contains (ref, s.position) = false ∧
        x.enter (x.call rest (depth + 1)) ref active guards s = .ok (o, s') := by
  cases remaining with
  | zero =>
    rw [Session.call]
    split <;> simp
  | succ rest =>
    rw [Session.call]
    split
    · next inProgress => simp only [inProgress, reduceCtorEq, Bool.true_eq_false, false_and,
        and_false, exists_false]
    · next new =>
      rw [Bool.not_eq_true] at new
      simp only [new, true_and, Nat.add_right_cancel_iff]
      exact ⟨fun h => ⟨rest, rfl, h⟩, fun ⟨_, same, h⟩ => same ▸ h⟩

/-- Entering a rule runs its body; a rule that does not exist fails. -/
theorem enter_cases (h : x.enter call ref active guards s = .ok (o, s')) :
    (∃ rule, x.program.rule? ref = some rule ∧
      x.Runs call (.matcher rule.body) ⟨(ref, s.position) :: active, guards⟩ s o s') ∨
    (x.program.rule? ref = none ∧ o = .soft (.plain s.position) ∧
      s' = s.record (.plain s.position)) := by
  unfold enter at h
  split at h
  · next rule found =>
    exact Or.inl ⟨rule, found, runs_of_parser_eq h⟩
  · next missing =>
    simp only [State.fail, Except.ok.injEq, Prod.mk.injEq] at h
    exact Or.inr ⟨missing, h.1.symm, h.2.symm⟩

/-- A property of calls that passes from the calls in a body to the call of its rule. -/
theorem call_induction {Q : RuleRef → State → Outcome → State → Prop}
    (enters : ∀ call : Call,
      (∀ ref active guards s o s', call ref active guards s = .ok (o, s') → Q ref s o s') →
      ∀ ref active guards s o s',
        x.enter call ref active guards s = .ok (o, s') → Q ref s o s')
    {remaining depth : Nat} (h : x.call remaining depth ref active guards s = .ok (o, s')) :
    Q ref s o s' := by
  induction remaining generalizing depth ref active guards s o s' with
  | zero =>
    obtain ⟨rest, none, _⟩ := call_eq_ok_iff.mp h
    cases none
  | succ remaining ih =>
    obtain ⟨rest, same, _, entered⟩ := call_eq_ok_iff.mp h
    cases same
    exact enters _ (fun ref active guards s o s' h => ih h) ref active guards s o s' entered

end Session

end CombinatorGrammar
