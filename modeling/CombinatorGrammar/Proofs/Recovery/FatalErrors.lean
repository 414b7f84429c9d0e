import CombinatorGrammar.Proofs.Program.Resolution
import CombinatorGrammar.Proofs.Recovery.Reports
import CombinatorGrammar.Proofs.Semantics.Soundness

/-!
# A tree or one fatal error

While the entry rule runs, nothing is reported but skipped tokens and recovered failures. What tells
that the input did not match comes from the end of the parse alone: there it has a tree, and nothing
is added, or it has none, and one error is added behind all others. So whether a parse has a tree
can be read off its diagnostics.
-/

namespace CombinatorGrammar

/-- Whether a diagnostic of the code tells that the input as a whole did not match: E1001 and
E1002. -/
def Code.isFatal : Code → Bool
  | syntaxError | trailingInput => true
  | _ => false

/-- Only syntax errors and trailing input are fatal. -/
theorem Code.isFatal_iff {c : Code} :
    c.isFatal = true ↔ c = .syntaxError ∨ c = .trailingInput := by
  cases c <;> decide

namespace Diagnostic

/-- The diagnostics tell of one fatal error, at their end. -/
def EndInFatal (ds : List Diagnostic) : Prop :=
  ∃ before last, ds = before ++ [last] ∧ last.code.isFatal = true ∧
    ∀ d ∈ before, d.code.isFatal = false

/-- Nothing that a run reports is fatal. -/
theorem OfRun.isFatal_eq {ds : List Diagnostic} {d : Diagnostic} (reported : OfRun ds)
    (among : d ∈ ds) : d.code.isFatal = false := by
  rcases reported.code_eq among with code | code <;> rw [code] <;> rfl

end Diagnostic

namespace Program

open Diagnostic (EndInFatal OfRun)

variable {p : Program} {names : Interner} {tokens : TokenStream} {config : ParseConfig}
  {output : ParseOutput}

/-- A parse has a tree with what its run has reported, or it has no tree and one fatal error behind
that. -/
theorem parse_cases (ran : p.parse names tokens config = .ok output) :
    ∃ reported, OfRun reported ∧ (config.recovery = false → reported = []) ∧
      ((output.root.isSome = true ∧ output.diagnostics = reported) ∨
        ∃ d, d.code.isFatal = true ∧ output.root = none ∧
          output.diagnostics = reported ++ [d]) := by
  obtain ⟨o, s, called, rfl⟩ := exists_run_of_parse ran
  have quiet : config.recovery = false → s.diagnostics = [] := by
    intro strict
    have none : s.pending = [] := Session.call_quiet strict called
    rw [State.diagnostics, none, List.reverse_nil]
  refine ⟨s.diagnostics, Session.run_ofRun called, quiet, ?_⟩
  rcases (p.session names tokens config).finish_cases o s with
    ⟨values, _, _, answer⟩ | ⟨d, code, answer⟩
  · exact Or.inl (by rw [answer]; exact ⟨rfl, rfl⟩)
  · exact Or.inr ⟨d, Code.isFatal_iff.mpr code, by rw [answer]; exact ⟨rfl, rfl⟩⟩

/-- A parse that is not stopped has a tree exactly if none of its diagnostics is fatal. Without a
tree there is one fatal diagnostic, and it is the last one. All others are of skipped tokens and
recovered failures, and without recovery there are none of these. -/
theorem root_iff_no_fatal (ran : p.parse names tokens config = .ok output) :
    (output.root.isSome = true ↔ ∀ d ∈ output.diagnostics, d.code.isFatal = false) ∧
    (output.root = none → EndInFatal output.diagnostics) ∧
    (∀ d ∈ output.diagnostics, d.code.isFatal = true ∨ d.code = .skippedToken ∨
      d.code = .recoveredFailure) ∧
    (config.recovery = false →
      output.diagnostics.length ≤ 1 ∧ ∀ d ∈ output.diagnostics, d.code.isFatal = true) := by
  obtain ⟨reported, ofRun, strict, ⟨tree, same⟩ | ⟨last, fatal, none, same⟩⟩ := parse_cases ran
  · refine ⟨?_, ?_, ?_, ?_⟩
    · exact iff_of_true tree fun d among => ofRun.isFatal_eq (same ▸ among)
    · intro none
      rw [none] at tree
      cases tree
    · intro d among
      exact Or.inr (ofRun.code_eq (same ▸ among)).symm
    · intro off
      rw [same, strict off]
      exact ⟨Nat.zero_le 1, List.forall_mem_nil _⟩
  · refine ⟨?_, ?_, ?_, ?_⟩
    · refine iff_of_false (by rw [none]; exact Bool.false_ne_true) fun others => ?_
      have unlike := others last (same ▸ List.mem_concat_self)
      rw [fatal] at unlike
      cases unlike
    · exact fun _ => ⟨reported, last, same, fatal, fun d among => ofRun.isFatal_eq among⟩
    · intro d among
      rw [same] at among
      rcases List.mem_append.mp among with earlier | final
      · exact Or.inr (ofRun.code_eq earlier).symm
      · exact Or.inl (List.mem_singleton.mp final ▸ fatal)
    · intro off
      rw [same, strict off]
      exact ⟨Nat.le_refl 1, List.forall_mem_singleton.mpr fatal⟩

end Program

/-- The program of a token or a skip, a cut and another token. -/
def skipThenCut : Program where
  vocabulary := .initial
  schema := .empty
  rules := #[⟨"main", .seq [.choice [.token ⟨1⟩ none true, .skip ⟨0⟩], .cut,
    .token ⟨2⟩ none true]⟩]
  signatures := #[]
  predicates := #[]
  entry := ⟨0⟩

/-- Behind a skipped token the failure of the second one is fatal. -/
theorem root_iff_no_fatal_skipThenCut :
    ∃ output, skipThenCut.parse .initial (tokensOf [3, 3]) ⟨16, true⟩ = .ok output ∧
      output.diagnostics.map Diagnostic.code = [.skippedToken, .syntaxError] ∧
      output.root = none ∧ Diagnostic.EndInFatal output.diagnostics := by
  have ran : ∃ output, skipThenCut.parse .initial (tokensOf [3, 3]) ⟨16, true⟩ = .ok output ∧
      output.diagnostics.map Diagnostic.code = [.skippedToken, .syntaxError] ∧
      output.root = none := ⟨_, rfl, rfl, rfl⟩
  obtain ⟨output, ran, codes, none⟩ := ran
  exact ⟨output, ran, codes, none, (Program.root_iff_no_fatal ran).2.1 none⟩

end CombinatorGrammar
