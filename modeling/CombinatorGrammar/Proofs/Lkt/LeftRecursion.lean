import CombinatorGrammar.Proofs.Lkt.Chart
import CombinatorGrammar.Proofs.Run.Recursion

/-!
# No false alarm

A run that is stopped as left recursion has met it: the rule that the fault names is left-recursive
as it is written. The ranks of the LKT rules tell that none of them is.
-/

namespace CombinatorGrammar

/-- The guard against left recursion raises no false alarm. If it stops a parse or an attempt, then
the rule that it names lies on a cycle of rules that can start one another before the first token.
So it never stops those of a program without such a cycle, on any input and at any point of a run,
the attempts of guards included; and the program of LKT has none. -/
theorem no_false_alarm :
    (∀ (p : Program) names tokens config name position,
      p.StopsBy names tokens config (.leftRecursion name position) →
        ∃ ref rule, p.rule? ref = some rule ∧ rule.name = name ∧ p.LeftRecursive ref) ∧
    (∀ p : Program, (∀ ref, ¬ p.LeftRecursive ref) → ∀ names tokens config name position,
      ¬ p.StopsBy names tokens config (.leftRecursion name position)) ∧
    ∃ g : Grammar, ∃ p names, Lkt.grammar = .ok g ∧ g.resolve .initial = .ok (p, names) ∧
      ∀ ref, ¬ p.LeftRecursive ref := by
  have named : ∀ (p : Program) names tokens config name position,
      p.StopsBy names tokens config (.leftRecursion name position) →
        ∃ ref rule, p.rule? ref = some rule ∧ rule.name = name ∧ p.LeftRecursive ref := by
    intro p names tokens config name position stops
    obtain ⟨_, _, _, stopped⟩ := stops.exists_run
    exact Session.leftRecursive_of_run stopped
  refine ⟨named, fun p none names tokens config name position stops => ?_, ?_⟩
  · obtain ⟨ref, _, _, _, cycle⟩ := named p names tokens config name position stops
    exact none ref cycle
  · obtain ⟨f, made, charted⟩ := Lkt.exists_charted
    obtain ⟨g, assembled, resolved⟩ := Lkt.resolve_of_frontEnd made
    exact ⟨g, f.program, f.names, assembled, resolved,
      Program.not_leftRecursive_of_fits charted.idle⟩

/-- Letters separated by nothing, written with the recursion on the left and behind what may be left
out: the alarm is raised, and the rule lies on a cycle. -/
theorem no_false_alarm_letters :
    ∃ g : Grammar, ∃ p names, g.resolve .initial = .ok (p, names) ∧
      ∃ name position, p.attempt .initial (tokensOf [2]) ⟨16, true⟩ p.entry 0 =
          .error (.leftRecursion name position) ∧
        ∃ ref rule, p.rule? ref = some rule ∧ rule.name = name ∧ p.LeftRecursive ref := by
  have passes : Grammar.passes letters []
      [("main", .choice [.seq [.opt (.lit "b"), .rule "letters"], .lit "a"]),
        ("letters", .seq [.rule "main", .lit "a"])]
      (fun p => (p.recursion? (tokensOf [2]) 16).isSome) = true := by
    decide +kernel
  obtain ⟨g, p, names, _, _, resolved, held⟩ := Grammar.exists_of_passes passes
  obtain ⟨⟨name, position⟩, found⟩ := Option.isSome_iff_exists.mp held
  have stopped := Program.attempt_of_recursion? found
  exact ⟨g, p, names, resolved, name, position, stopped,
    no_false_alarm.1 p .initial (tokensOf [2]) ⟨16, true⟩ name position
      (Or.inr ⟨p.entry, 0, stopped⟩)⟩

end CombinatorGrammar
