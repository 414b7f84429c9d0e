import CombinatorGrammar.Proofs.Lkt.Agreement
import CombinatorGrammar.Proofs.Recovery.Coverage
import CombinatorGrammar.Proofs.Run.Recursion

/-!
# Recovering parses of LKT

With recovery a parse of LKT answers a tree for any tokens, unless rules are nested too deeply. The
declarations of the tree, those that stand for skipped tokens among them, take all tokens of the
input, each at least one.
-/

namespace CombinatorGrammar.Lkt

variable {f : FrontEnd} {names : Interner} {tokens : TokenStream} {maxDepth : Nat}

/-- A parse of LKT, with recovery or without, is stopped only where rules are nested too deeply. -/
theorem Charted.parse_fault (charted : Charted f) {recovery : Bool} {fault : Fault}
    (stopped : f.program.parse names tokens ⟨maxDepth, recovery⟩ = .error fault) :
    ∃ position, fault = .nestingLimit maxDepth position := by
  simp only [Program.parse] at stopped
  split at stopped
  · next fault' ran =>
    obtain rfl := Except.error.inj stopped
    exact Session.run_fault charted.idle ran
  · cases stopped

/-- The codes of what runs report are not those with which a parse without a tree ends. -/
theorem code_ne_of_ofRun {ds : List Diagnostic} (reported : Diagnostic.OfRun ds) :
    ∀ d ∈ ds, d.code ≠ .syntaxError ∧ d.code ≠ .trailingInput := by
  intro d among
  rcases reported.code_eq among with code | code <;> rw [code] <;> decide

/-- A recovering parse of LKT is total and loses no input: it is stopped where rules are nested too
deeply, or it answers a root node over the items of a chain of runs of the element of the list of
declarations, and reports no syntax error and no trailing input. The chain takes all tokens before
the termination token; each item is a declaration or a skipped token, it takes at least one token,
and its span is that from its first token to its last. -/
theorem recovery_loses_nothing :
    ∃ (f : FrontEnd) (l : ItemList), frontEnd = .ok f ∧ l.Rules f.program ∧
      f.program.schema.name l.root = "LangkitRoot" ∧ f.program.schema.name l.node = "FullDecl" ∧
      f.program.schema.name l.error = "ErrorDecl" ∧ ∀ names tokens maxDepth,
      let x := f.program.session names tokens ⟨maxDepth, true⟩
      (∃ position, f.program.parse names tokens ⟨maxDepth, true⟩ =
        .error (.nestingLimit maxDepth position)) ∨
      ∃ rest span stretches s diagnostics, maxDepth = rest + 2 ∧
        f.program.parse names tokens ⟨maxDepth, true⟩ =
          .ok ⟨some (.node l.root span [.list (stretches.map Stretch.item)]), diagnostics⟩ ∧
        (∀ d ∈ diagnostics, d.code ≠ .syntaxError ∧ d.code ≠ .trailingInput) ∧
        x.Chain (x.call rest 2) l.element ⟨[(l.list, 0), (f.program.entry, 0)], []⟩ (.initial 0)
          stretches s ∧
        (stretches.map fun d => tokens.between d.start d.stop).flatten = tokens.body.toList ∧
        ∀ d ∈ stretches, ∃ type first last fields, (type = l.node ∨ type = l.error) ∧
          d.item = .node type (first.span.merge last.span) fields ∧
          (tokens.between d.start d.stop).head? = some first ∧
          (tokens.between d.start d.stop).getLast? = some last := by
  obtain ⟨f, made, charted⟩ := exists_charted
  obtain ⟨l, declares⟩ := charted.declares
  refine ⟨f, l, made, declares.rules, declares.root, declares.node, declares.error,
    fun names tokens maxDepth => ?_⟩
  intro x
  rcases ran : f.program.parse names tokens ⟨maxDepth, true⟩ with fault | output
  · obtain ⟨position, rfl⟩ := charted.parse_fault ran
    exact Or.inl ⟨position, rfl⟩
  · obtain ⟨o, s, called, rfl⟩ := Program.exists_run_of_parse ran
    obtain ⟨rest, span, stretches, s₁, limit, rfl, chain, last, ends⟩ :=
      Session.run_chain (x := x) rfl charted.idle declares.rules declares.not_idles
        declares.not_breaks called
    have answer : x.finish (.success [.node l.root span [.list (stretches.map Stretch.item)]]) s =
        ⟨some (.node l.root span [.list (stretches.map Stretch.item)]), s.diagnostics⟩ := by
      rw [Session.finish, if_pos ends]
      rfl
    refine Or.inr ⟨rest, span, stretches, s₁, s.diagnostics, limit, congrArg _ answer,
      code_ne_of_ofRun (Session.run_ofRun called), chain, ?_, ?_⟩
    · have whole := chain.flatten_between (x.callsSettle _ _)
      rw [last] at whole
      exact whole.trans TokenStream.between_zero_lastPosition
    · intro d among
      obtain ⟨inside, bound, type, fields, kind, item⟩ :=
        chain.covers charted.idle declares.rules declares.not_idles d among
      obtain ⟨first, final, spans⟩ := TokenStream.ends_of_between inside bound
      exact ⟨type, _, _, fields, kind, spans ▸ item, first, final⟩

/-- A grammar declaration is not stopped at sixteen levels, so its tokens are all in the tree. -/
theorem recovery_loses_nothing_grammar :
    ∃ f root diagnostics, ∃ stretches : List Stretch, frontEnd = .ok f ∧
      f.program.parse f.names grammarTokens ⟨16, true⟩ = .ok ⟨some root, diagnostics⟩ ∧
      (stretches.map fun d => grammarTokens.between d.start d.stop).flatten =
        grammarTokens.body.toList := by
  obtain ⟨f, l, made, _, _, _, _, answers⟩ := recovery_loses_nothing
  obtain ⟨f', made', charted⟩ := exists_charted
  obtain rfl : f' = f := Except.ok.inj (made'.symm.trans made)
  obtain ⟨output, root, ran, found⟩ := charted.reads
  obtain rfl := diagnostics_of_strict_parse ran found
  rcases answers f'.names grammarTokens 16 with
    ⟨position, stopped⟩ | ⟨_, _, stretches, _, diagnostics, _, answer, _, _, whole, _⟩
  · rw [charted.parse_agrees ran true] at stopped
    cases stopped
  · exact ⟨f', _, diagnostics, stretches, made, answer, whole⟩

end CombinatorGrammar.Lkt
