import CombinatorGrammar.Proofs.Recovery.Reports

/-!
# Diagnostics of tokens

A parse reports four things: that something else was expected, that input is left behind the entry
rule, that a failure behind a cut was recovered from, and that a token was skipped. Each of these is
about one token of the stream, and each but the last is an error.
-/

namespace CombinatorGrammar

namespace Diagnostic

/-- What a parse reports of a token of the stream. -/
inductive OfToken (tokens : TokenStream) : Diagnostic → Prop
  | syntaxError (position : Nat) (expected : List String) (found : String) :
      OfToken tokens (.syntaxError (tokens.token position).span expected found)
  | trailingInput (position : Nat) (found : String) :
      OfToken tokens (.trailingInput (tokens.token position).span found)
  | recoveredFailure (position : Nat) (expected : List String) (found : String) :
      OfToken tokens (.recoveredFailure (tokens.token position).span expected found)
  | skippedToken (position : Nat) (found : String) :
      OfToken tokens (.skippedToken (tokens.token position).span found)

/-- What a parse reports is an error unless a token was skipped. -/
theorem OfToken.isError_eq {tokens : TokenStream} {d : Diagnostic} (h : d.OfToken tokens) :
    d.isError = d.code.isSyntactic := by
  cases h <;> rfl

end Diagnostic

namespace State

/-- All that is pending is reported of tokens of the stream. -/
def OfTokens (tokens : TokenStream) (s : State) : Prop := ∀ d ∈ s.pending, d.OfToken tokens

variable {tokens : TokenStream} {s : State}

/-- Going back leaves reports of tokens only. -/
theorem OfTokens.rewind (h : s.OfTokens tokens) (m : Mark) : (s.rewind m).OfTokens tokens :=
  fun d among => h d (List.mem_of_mem_drop among)

/-- A report of a token leaves reports of tokens only. -/
theorem OfTokens.report {d : Diagnostic} (h : s.OfTokens tokens) (reported : d.OfToken tokens) :
    (s.report d).OfTokens tokens :=
  List.forall_mem_cons.mpr ⟨reported, h⟩

/-- All that is reported is about tokens. -/
theorem OfTokens.diagnostics (h : s.OfTokens tokens) : ∀ d ∈ s.diagnostics, d.OfToken tokens :=
  fun d among => h d (List.mem_reverse.mp among)

end State

namespace Session

variable {x : Session} {call : Call} {cx : Context} {s s' : State} {o : Outcome}

/-- Advancing leaves reports of tokens only. -/
theorem ofTokens_advance (h : s.OfTokens x.tokens) : (x.advance s).OfTokens x.tokens := by
  unfold advance
  split <;> exact h

/-- Every job reports of tokens if the calls of rules do. -/
theorem Runs.ofTokens {job : Job}
    (calls : ∀ ref active guards s o s', call ref active guards s = .ok (o, s') →
      s.OfTokens x.tokens → s'.OfTokens x.tokens)
    (run : x.Runs call job cx s o s') : s.OfTokens x.tokens → s'.OfTokens x.tokens := by
  induction run with
  | token _ => exact ofTokens_advance
  | rule called => exact calls _ _ _ _ _ _ called
  | @skip _ _ s s₁ _ _ _ _ ih =>
    intro before
    have probed : State.OfTokens x.tokens { s₁ with furthest := s.furthest } := ih before
    exact (ofTokens_advance probed).report (.skippedToken ..)
  | seq_soft _ ih | opt_soft _ ih | group_soft _ ih | predicate_rejects _ _ ih | turns_soft _ ih
  | turns_idle _ _ ih | probe_match _ ih => exact fun before => (ih before).rewind _
  | items_next _ _ _ ihm ihms | items_later _ _ _ _ ihm ihms => exact ihms ∘ ihm
  | alternatives_given_up => exact fun before => before.rewind _
  | alternatives_soft _ _ _ ihm ihms => exact fun before => ihms ((ihm before).rewind _)
  | alternatives_recover _ _ _ ihm ihms =>
    exact fun before => ihms (((ihm before).rewind _).report (.recoveredFailure ..))
  | repeated _ done ih =>
    intro before
    rcases finishList_cases done with ⟨_, _, rfl⟩ | ⟨_, _, rfl⟩
    · exact (ih before).rewind _
    · exact ih before
  | turn_next _ _ ihs ihe => exact ihe ∘ ihs
  | turns_next _ _ _ ih ihms | turns_later _ _ _ ih ihms => exact ihms ∘ ih
  | probe_next _ _ _ ihm ihms => exact fun before => ihms ((ihm before).rewind _)
  | token_fails _ | skip_refused _ | cut | null | items_nil | alternatives_nil | probe_nil =>
    exact id
  -- the others leave what their only operand leaves
  | _ => assumption

/-- A run from a state without diagnostics reports of tokens. -/
theorem run_ofTokens {maxDepth start : Nat} {ref : RuleRef}
    (ran : x.run maxDepth ref (.initial start) = .ok (o, s)) : s.OfTokens x.tokens := by
  refine call_induction (x := x)
    (Q := fun _ s _ s' => s.OfTokens x.tokens → s'.OfTokens x.tokens) ?_ ran nofun
  intro call calls ref active guards s o s' entered
  rcases enter_cases entered with ⟨rule, _, run⟩ | ⟨_, rfl, rfl⟩
  · exact run.ofTokens calls
  · exact id

/-- What is left over is reported at a token. -/
theorem ofToken_leftover (x : Session) (s : State) : (x.leftover s).OfToken x.tokens := by
  unfold leftover
  repeat' split
  all_goals first | exact .syntaxError .. | exact .trailingInput ..

end Session

/-- All that a parse reports is about tokens of its stream. -/
theorem Program.parse_ofToken {p : Program} {names : Interner} {tokens : TokenStream}
    {config : ParseConfig} {output : ParseOutput}
    (ran : p.parse names tokens config = .ok output) :
    ∀ d ∈ output.diagnostics, d.OfToken tokens := by
  obtain ⟨o, s, called, rfl⟩ := exists_run_of_parse ran
  have reported := Session.run_ofTokens called
  cases o with
  | success values =>
    rw [Session.finish]
    split
    · exact reported.diagnostics
    · exact (reported.report (Session.ofToken_leftover _ s)).diagnostics
  | soft f | hard f => exact (reported.report (.syntaxError ..)).diagnostics

end CombinatorGrammar
