import CombinatorGrammar.Proofs.Lkt.Chart
import CombinatorGrammar.Proofs.Recovery.Agreement

/-!
# Strict and recovering parses of LKT

Recovery changes nothing for input that is LKT as it stands: with recovery and without, the parse
answers the same tree, and neither reports anything.
-/

namespace CombinatorGrammar.Lkt

variable {f : FrontEnd} {names : Interner} {tokens : TokenStream} {maxDepth : Nat}

/-- A parse of LKT that answers a tree and reports nothing answers the same with recovery
switched. -/
theorem Charted.parse_agrees (charted : Charted f) {recovery : Bool} {root : Value}
    (ran : f.program.parse names tokens ⟨maxDepth, recovery⟩ = .ok ⟨some root, []⟩)
    (other : Bool) :
    f.program.parse names tokens ⟨maxDepth, other⟩ = .ok ⟨some root, []⟩ := by
  obtain ⟨l, declares⟩ := charted.declares
  obtain ⟨name, kind, entry⟩ := declares.rules.entry
  let x := f.program.session names tokens ⟨maxDepth, recovery⟩
  obtain ⟨o, s, called, finished⟩ := Program.exists_run_of_parse ran
  rcases x.finish_cases o s with ⟨values, rfl, ends, answer⟩ | ⟨d, _, answer⟩
  · rw [answer] at finished
    obtain ⟨tree, quiet⟩ := ParseOutput.mk.inj finished
    have clean : s.pending = [] := by simpa [State.diagnostics] using quiet.symm
    have same : (x.withRecovery other).run maxDepth f.program.entry (.initial 0) =
        .ok (.success values, s) :=
      Session.run_agrees (x := x) other charted.idle charted.classes entry declares.opens called
        clean
    have answer' : (x.withRecovery other).finish (.success values) s = ⟨some root, []⟩ := by
      rw [finished, ← answer]
      rfl
    rw [← answer']
    exact Program.parse_of_run same
  · rw [answer] at finished
    cases finished

/-- Without recovery a parse that answers a tree reports nothing. -/
theorem diagnostics_of_strict_parse {p : Program} {output : ParseOutput} {root : Value}
    (ran : p.parse names tokens ⟨maxDepth, false⟩ = .ok output) (found : output.root = some root) :
    output = ⟨some root, []⟩ := by
  obtain ⟨o, s, called, rfl⟩ := Program.exists_run_of_parse ran
  rcases (p.session names tokens ⟨maxDepth, false⟩).finish_cases o s with
    ⟨values, rfl, _, answer⟩ | ⟨d, _, answer⟩
  · rw [answer] at found ⊢
    have quiet : s.pending = [] := Session.call_quiet rfl called
    have tree : some (Session.rootOf values) = some root := found
    rw [tree, State.diagnostics, quiet, List.reverse_nil]
  · rw [answer] at found
    cases found

/-- A parse that reports nothing answers a tree. -/
theorem root_of_quiet_parse {p : Program} {config : ParseConfig} {output : ParseOutput}
    (ran : p.parse names tokens config = .ok output) (quiet : output.diagnostics = []) :
    ∃ root, output = ⟨some root, []⟩ := by
  obtain ⟨o, s, called, rfl⟩ := Program.exists_run_of_parse ran
  rcases (p.session names tokens config).finish_cases o s with
    ⟨values, rfl, _, answer⟩ | ⟨d, _, answer⟩
  · rw [answer] at quiet ⊢
    have none : s.diagnostics = [] := quiet
    exact ⟨_, by rw [none]⟩
  · rw [answer] at quiet
    cases List.append_ne_nil_of_right_ne_nil _ (List.cons_ne_nil d []) quiet

/-- Strict and recovering parses of LKT agree on valid input: if the strict parse answers a tree,
the recovering parse answers the same one and reports nothing; and if the recovering parse reports
nothing, both answer the same tree, and the strict parse reports nothing either. -/
theorem strict_and_recovering_agree :
    ∃ f, frontEnd = .ok f ∧ ∀ names tokens maxDepth,
      (∀ output root, f.program.parse names tokens ⟨maxDepth, false⟩ = .ok output →
        output.root = some root →
        f.program.parse names tokens ⟨maxDepth, true⟩ = .ok ⟨some root, []⟩) ∧
      (∀ output, f.program.parse names tokens ⟨maxDepth, true⟩ = .ok output →
        output.diagnostics = [] →
        ∃ root, output.root = some root ∧
          f.program.parse names tokens ⟨maxDepth, false⟩ = .ok ⟨some root, []⟩) := by
  obtain ⟨f, made, charted⟩ := exists_charted
  refine ⟨f, made, fun names tokens maxDepth => ⟨?_, ?_⟩⟩
  · intro output root ran found
    obtain rfl := diagnostics_of_strict_parse ran found
    exact charted.parse_agrees ran true
  · intro output ran quiet
    obtain ⟨root, rfl⟩ := root_of_quiet_parse ran quiet
    exact ⟨root, rfl, charted.parse_agrees ran false⟩

/-- A grammar declaration with one rule is read alike in both modes. -/
theorem strict_and_recovering_agree_grammar :
    ∃ f root, frontEnd = .ok f ∧
      f.program.parse f.names grammarTokens ⟨16, false⟩ = .ok ⟨some root, []⟩ ∧
      f.program.parse f.names grammarTokens ⟨16, true⟩ = .ok ⟨some root, []⟩ := by
  obtain ⟨f, made, agree⟩ := strict_and_recovering_agree
  obtain ⟨f', made', charted⟩ := exists_charted
  obtain rfl : f' = f := Except.ok.inj (made'.symm.trans made)
  obtain ⟨output, root, ran, found⟩ := charted.reads
  have recovering := (agree f'.names grammarTokens 16).1 output root ran found
  obtain ⟨root', same, strict⟩ := (agree f'.names grammarTokens 16).2 _ recovering rfl
  obtain rfl := Option.some.inj same
  exact ⟨f', root, made, strict, recovering⟩

end CombinatorGrammar.Lkt
