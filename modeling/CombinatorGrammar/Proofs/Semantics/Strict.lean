import CombinatorGrammar.Parse.Basic
import CombinatorGrammar.Proofs.Semantics.Completeness
import CombinatorGrammar.Proofs.Semantics.Count

/-!
# Attempts without recovery

An attempt of a rule without recovery answers what the rule matches, and it is a fault exactly
where nothing is derived with rules nested as deeply as configured. A list counts its iterations
by their values, so this takes programs in which elements do not get on without a value where that
number matters.
-/

namespace CombinatorGrammar

/-- What an attempt answers that ended with the verdict: its diagnostics are none. -/
def Verdict.attempt (p : Program) (names : Interner) (start : Nat) : Verdict → RuleAttempt
  | success values stop => ⟨.ok values, stop, []⟩
  | soft f => ⟨.error ⟨f.position, false, f.describe p names⟩, start, []⟩
  | hard f stop => ⟨.error ⟨f.position, true, f.describe p names⟩, stop, []⟩

namespace Program

variable {p : Program} {names : Interner} {tokens : TokenStream} {config : ParseConfig}
  {ref : RuleRef} {start : Nat} {attempt : RuleAttempt}

/-- An attempt ends if its call does. -/
theorem exists_run_of_attempt (h : p.attempt names tokens config ref start = .ok attempt) :
    ∃ o s, (p.session names tokens config).run config.maxDepth ref
      (.initial (min start tokens.lastPosition)) = .ok (o, s) := by
  simp only [Program.attempt] at h
  split at h
  · cases h
  · next o s ran => exact ⟨o, s, ran⟩

/-- An attempt without recovery answers the verdict of its call. -/
theorem attempt_of_run {maxDepth : Nat} {o : Outcome} {s : State}
    (ran : (p.session names tokens ⟨maxDepth, false⟩).run maxDepth ref
      (.initial (min start tokens.lastPosition)) = .ok (o, s)) :
    p.attempt names tokens ⟨maxDepth, false⟩ ref start =
      .ok ((Verdict.ofRun s o).attempt p names (min start tokens.lastPosition)) := by
  have settled : o.Settles (.initial (min start tokens.lastPosition)) s := Session.call_settles ran
  have quiet : s.pending = [] := Session.call_quiet rfl ran
  simp only [Program.attempt, ran, State.diagnostics, quiet]
  cases o with
  | success values => rfl
  | soft f =>
    rw [settled.position_eq]
    rfl
  | hard f => rfl

end Program

/-- Whether an attempt of the entry rule on one level, without recovery, succeeds, unless it is a
fault. -/
def Program.strictSuccess? (p : Program) (tokens : TokenStream) : Option Bool :=
  match p.attempt .initial tokens ⟨1, false⟩ p.entry 0 with
  | .ok attempt => some attempt.result.isOk
  | .error _ => none

/-- A strict attempt that has stopped tells whether it succeeded. -/
theorem Program.attempt_of_strictSuccess? {p : Program} {tokens : TokenStream} {success : Bool}
    (h : p.strictSuccess? tokens = some success) :
    ∃ attempt, p.attempt .initial tokens ⟨1, false⟩ p.entry 0 = .ok attempt ∧
      attempt.result.isOk = success := by
  unfold strictSuccess? at h
  split at h
  · next attempt answers => exact ⟨attempt, answers, Option.some.inj h⟩
  · cases h

/-- The session of a program on some tokens, without recovery. -/
def Program.strict (p : Program) (names : Interner) (tokens : TokenStream) : Session :=
  ⟨p, names, tokens, false⟩

/-- Without recovery an attempt computes what the rule matches: if in lists that need an element or
have separators the elements do not get on without a value, then an attempt answers exactly the
verdicts of its rule at its start, with rules nested as deeply as configured, and is a fault where
there is none. So does every part of the program: a run that ends is a match and reports nothing,
and outside all rules every match is a run. -/
theorem Program.attempt_eq_ok_iff {p : Program} {names : Interner} {tokens : TokenStream}
    (yields : p.ElementsYield names tokens) :
    (∀ maxDepth ref start attempt,
      p.attempt names tokens ⟨maxDepth, false⟩ ref start = .ok attempt ↔
        ∃ r, p.Matches names tokens maxDepth (.matcher (.rule ref))
            (min start tokens.lastPosition) r ∧
          attempt = r.attempt p names (min start tokens.lastPosition)) ∧
    ∀ (x : Session) remaining depth m s, x = p.strict names tokens → m ∈ p.parts →
      (∀ (cx : Context) o s',
        x.parser (x.call remaining depth) m (cx.scope x (x.call remaining depth)) s =
          .ok (o, s') →
        p.Matches names tokens remaining (.matcher m) s.position (.ofRun s' o) ∧
          s'.pending = s.pending) ∧
      (∀ guards r, p.Matches names tokens remaining (.matcher m) s.position r →
        ∃ o s', x.parser (x.call remaining depth) m
          (Context.scope x (x.call remaining depth) ⟨[], guards⟩) s = .ok (o, s') ∧
          .ofRun s' o = r) := by
  refine ⟨?_, ?_⟩
  · intro maxDepth ref start attempt
    constructor
    · intro answers
      obtain ⟨o, s, ran⟩ := exists_run_of_attempt answers
      refine ⟨.ofRun s o, Session.call_agrees rfl yields ran, ?_⟩
      exact Except.ok.inj (answers.symm.trans (attempt_of_run ran))
    · rintro ⟨r, matched, rfl⟩
      have runnable : (p.strict names tokens).Runnable
          ((p.strict names tokens).call maxDepth 0) (.matcher (.rule ref)) .empty
          (.initial (min start tokens.lastPosition)) r :=
        Session.runnable_rule (fun k _ => Session.realizedWithin rfl yields k)
          (Nat.le_refl maxDepth) (fun _ _ _ none => nomatch none) matched
      obtain ⟨o, s, run, rfl⟩ := runnable
      cases run with
      | rule called => exact attempt_of_run called
  · rintro x remaining depth m s rfl part
    refine ⟨fun cx o s' ran => ⟨?_, ?_⟩, fun guards r matched => ?_⟩
    · exact (Session.runs_of_parser_eq ran).agrees rfl yields
        (fun _ _ _ _ _ _ => Session.call_settles)
        (fun _ _ _ _ _ _ => Session.call_agrees rfl yields) part
    · exact (Session.runs_of_parser_eq ran).quiet rfl fun _ _ _ _ _ _ => Session.call_quiet rfl
    · obtain ⟨o, s', run, same⟩ := Session.realizedWithin (x := p.strict names tokens) rfl yields
        remaining remaining depth (Nat.le_refl remaining) _ _ _ matched part ⟨[], guards⟩ s
        (fun _ _ _ none => nomatch none) rfl
      exact ⟨o, s', Session.parser_eq_ok_iff.mpr run, same⟩

/-- Identifiers separated by letters are matched as they are parsed. -/
theorem attempt_eq_ok_iff_separated :
    ∃ g : Grammar, ∃ p names, g.resolve .initial = .ok (p, names) ∧ p.Tallied ∧
      p.DefiniteElements ∧ ∃ attempt r,
        p.attempt .initial (tokensOf [1, 2, 1]) ⟨1, false⟩ p.entry 0 = .ok attempt ∧
        attempt.result.isOk = true ∧
        p.Matches .initial (tokensOf [1, 2, 1]) 1 (.matcher (.rule p.entry)) 0 r ∧
        attempt = r.attempt p .initial 0 := by
  have passes : Grammar.passes letters [] [("main", .sepList .oneOrMore (.kind "id") (.lit "a"))]
      (fun p => decide (p.Tallied ∧ p.DefiniteElements ∧
        p.strictSuccess? (tokensOf [1, 2, 1]) = some true)) = true := by
    decide +kernel
  obtain ⟨g, p, names, _, _, resolved, held⟩ := Grammar.exists_of_passes passes
  obtain ⟨tallied, elements, answers⟩ := of_decide_eq_true held
  obtain ⟨attempt, answers, succeeds⟩ := Program.attempt_of_strictSuccess? answers
  have checked := (Grammar.checked_of_resolve resolved).2
  obtain ⟨r, matched, same⟩ :=
    ((Program.attempt_eq_ok_iff (elements.elementsYield checked tallied)).1 _ _ _ _).mp answers
  exact ⟨g, p, names, resolved, tallied, elements, attempt, r, answers, succeeds, matched, same⟩

/-- Whether the entry rule is a list of the letters `a`, which have no value. -/
def Program.isSilent (p : Program) : Bool :=
  match p.rule? p.entry with
  | some ⟨_, .list .oneOrMore (.seq [.token kind none false, .opt (.choice [])])⟩ => kind == ⟨2⟩
  | _ => false

/-- One letter is a list of letters, of which there are no values. -/
theorem Program.matches_of_isSilent {p : Program} {names : Interner} (h : p.isSilent = true) :
    p.Matches names (tokensOf [2]) 1 (.matcher (.rule p.entry)) 0 (.success [.list []] 1) := by
  unfold isSilent at h
  split at h
  · next _ kind found =>
    obtain rfl := eq_of_beq h
    have first : p.Matches names (tokensOf [2]) 0 (.matcher (.token ⟨2⟩ none false)) 0
        (.success [] 1) := .token ⟨rfl, rfl⟩
    have passed : p.Matches names (tokensOf [2]) 0 (.matcher (.opt (.choice []))) 1
        (.success [] 1) := .opt .choice_empty
    have second : p.Matches names (tokensOf [2]) 0 (.matcher (.token ⟨2⟩ none false)) 1
        (.soft ⟨1, [.token ⟨2⟩ none]⟩) := .token_fails (by decide)
    have letter : p.Matches names (tokensOf [2]) 0
        (.matcher (.seq [.token ⟨2⟩ none false, .opt (.choice [])])) 0 (.success [] 1) :=
      .seq (.items_next rfl first (.items_next rfl passed .items_nil))
    have noLetter : p.Matches names (tokensOf [2]) 0
        (.matcher (.seq [.token ⟨2⟩ none false, .opt (.choice [])])) 1
        (.soft ⟨1, [.token ⟨2⟩ none]⟩) :=
      .seq (.items_fail rfl second rfl)
    exact .rule found (.list (.iterations_some letter Nat.zero_lt_one
      (.rest_none (.next_unseparated noLetter) rfl)))
  · cases h

/-- A list of letters without values: one letter is matched, but an attempt fails there, though the
numbers of values of rules can be relied on. -/
theorem not_strict_of_silent :
    ∃ g : Grammar, ∃ p names, g.resolve .initial = .ok (p, names) ∧ p.Tallied ∧
      ∃ attempt, p.attempt .initial (tokensOf [2]) ⟨1, false⟩ p.entry 0 = .ok attempt ∧
        attempt.result.isOk = false ∧
        p.Matches .initial (tokensOf [2]) 1 (.matcher (.rule p.entry)) 0
          (.success [.list []] 1) := by
  have passes : Grammar.passes letters []
      [("main", .list .oneOrMore (.seq [.lit "a", .opt (.choice [])]))]
      (fun p => decide (p.Tallied ∧ p.isSilent = true ∧
        p.strictSuccess? (tokensOf [2]) = some false)) = true := by
    decide +kernel
  obtain ⟨g, p, names, _, _, resolved, held⟩ := Grammar.exists_of_passes passes
  obtain ⟨tallied, silent, answers⟩ := of_decide_eq_true held
  obtain ⟨attempt, answers, fails⟩ := Program.attempt_of_strictSuccess? answers
  exact ⟨g, p, names, resolved, tallied, attempt, answers, fails,
    Program.matches_of_isSilent silent⟩

end CombinatorGrammar
