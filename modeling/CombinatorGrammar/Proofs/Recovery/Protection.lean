import CombinatorGrammar.Proofs.Machine.Simulation
import CombinatorGrammar.Proofs.Recovery.Agreement
import CombinatorGrammar.Proofs.Run.Independence

/-!
# What protects a token

Before a skip takes a token, it attempts the guards of the enclosing regions there, outside all
rules and regions. An attempt is a run like any other: it may take tokens, enter rules, pass cuts,
skip tokens and attempt the guards of regions of its own. The engine is as before when all attempts
are over, and the answer does not depend on their order: it is whether some guard matches.
-/

namespace CombinatorGrammar

namespace Engine

/-- Some guard of the engine matches where the engine is, run outside all rules and regions. -/
def Guarded (x : Session) (e : Engine) : Prop :=
  ∃ g ∈ e.guards, ∃ values s, e.clear.result x g = .ok (.success values, s)

/-- What the attempts of the engine's guards answer, and the state that they leave. -/
def protection (x : Session) (e : Engine) : Except Fault (Bool × State) :=
  Session.guarded e.state (e.guards.map (x.guard (e.call x)))

end Engine

namespace Session

variable {x : Session} {e e' : Engine} {call : Call} {cx : Context} {s s' t : State}
  {o o' : Outcome}
  {m : Matcher} {ms : List Matcher} {remaining depth : Nat} {protects : Bool}

/-- A matcher ends alike from all states at one position. -/
theorem Runs.elsewhere (run : x.Runs (x.call remaining depth) (.matcher m) cx s o s')
    (here : t.position = s.position) :
    ∃ t', x.Runs (x.call remaining depth) (.matcher m) cx t o t' := by
  have calls : CallsTransfer s.pending t.pending (x.call remaining depth)
      (x.call remaining depth) := callsTransfer x (Nat.le_refl remaining) depth depth
  obtain ⟨t', run', _⟩ :=
    run.transfers calls _ cx.active t rfl (List.Subset.refl _) (.refl here)
  exact ⟨t', run'⟩

/-- From one state a matcher ends in one way. -/
theorem Runs.outcome_unique (run : x.Runs call (.matcher m) cx s o s')
    (other : x.Runs call (.matcher m) cx s o' t) : o = o' := by
  have same := (parser_eq_ok_iff.mpr run).symm.trans (parser_eq_ok_iff.mpr other)
  exact (Prod.mk.inj (Except.ok.inj same)).1

/-- Attempts of guards that are not stopped succeed when one of the guards matches where they
began. -/
theorem Runs.probe_isSuccess_iff (run : x.Runs (x.call remaining depth) (.probe ms) cx s o s') :
    o.isSuccess = true ↔ ∃ m ∈ ms, ∃ values t,
      x.Runs (x.call remaining depth) (.matcher m) .empty s (.success values) t := by
  induction ms generalizing s with
  | nil =>
    cases run
    simp [Outcome.isSuccess]
  | cons m ms ih =>
    cases run with
    | probe_match first => exact ⟨fun _ => ⟨m, List.mem_cons_self, _, _, first⟩, fun _ => rfl⟩
    | probe_next first fails rest =>
      rw [ih rest]
      constructor
      · rintro ⟨n, among, values, t, later⟩
        obtain ⟨t', later⟩ := later.elsewhere (t := s) rfl
        exact ⟨n, List.mem_cons_of_mem _ among, values, t', later⟩
      · rintro ⟨n, among, values, t, matched⟩
        rcases List.mem_cons.mp among with rfl | later
        · -- this guard has just failed here
          have same := first.outcome_unique matched
          rw [same] at fails
          cases fails
        · obtain ⟨t', matched⟩ := matched.elsewhere (t := State.rewind _ s.mark) rfl
          exact ⟨n, later, values, t', matched⟩

/-- A guard of the engine matches by the rules of runs. -/
theorem guarded_iff_runs : e.Guarded x ↔ ∃ g ∈ e.guards, ∃ values s,
    x.Runs (e.call x) (.matcher g) .empty { e.state with furthest := none }
      (.success values) s := by
  have result_iff (g : Matcher) (values : List Value) (s : State) :
      e.clear.result x g = .ok (.success values, s) ↔ x.Runs (e.call x) (.matcher g) .empty
        { e.state with furthest := none } (.success values) s :=
    parser_eq_ok_iff
  simp only [Engine.Guarded, result_iff]

/-- Whether an engine is guarded depends on its position, its guards and its levels. -/
theorem guarded_of_position_eq (guarded : e.Guarded x) (guards : e'.guards = e.guards)
    (levels : e'.nesting = e.nesting) (here : e'.state.position = e.state.position) :
    e'.Guarded x := by
  obtain ⟨g, among, values, s, matched⟩ := guarded_iff_runs.mp guarded
  have calls : e'.call x = e.call x := by rw [Engine.call, levels, Engine.call]
  obtain ⟨t, matched⟩ := matched.elsewhere (t := { e'.state with furthest := none }) here
  refine guarded_iff_runs.mpr ⟨g, guards ▸ among, values, t, ?_⟩
  rw [calls]
  exact matched

/-- The attempts that a skip makes in an engine answer whether the engine is guarded. -/
theorem Runs.probe_guards_iff
    (run : x.Runs (e.call x) (.probe e.guards) cx { e.state with furthest := none } o s') :
    o.isSuccess = true ↔ e.Guarded x := by
  rw [guarded_iff_runs]
  exact run.probe_isSuccess_iff

/-- The attempts of the guards give back the state in which they began, and answer whether the
engine is guarded. -/
theorem protection_eq_ok (answered : e.protection x = .ok (protects, s)) :
    s = e.state ∧ (protects = true ↔ e.Guarded x) := by
  unfold Engine.protection Session.guarded at answered
  split at answered
  · cases answered
  · next answer s₁ probed =>
    simp only [Except.ok.injEq, Prod.mk.injEq] at answered
    obtain ⟨rfl, rfl⟩ := answered
    have asked := runs_of_probe e.context
      (fun m _ _ _ _ (ran : x.parser (e.call x) m (Context.empty.scope x (e.call x)) _ = _) =>
        runs_of_parser_eq ran) probed
    obtain ⟨o, run, same⟩ : ∃ o, x.Runs (e.call x) (.probe e.guards) e.context
        { e.state with furthest := none } o s₁ ∧ o.isSuccess = answer := by
      cases answer with
      | true => exact asked.elim fun values run => ⟨.success values, run, rfl⟩
      | false => exact asked.elim fun f run => ⟨.soft f, run, rfl⟩
    have unmoved := run.unmoved_of_probe (x.callsSettle _ _)
    refine ⟨unmoved.eq rfl, ?_⟩
    rw [← same]
    exact run.probe_guards_iff

/-- What a skip does where its guards have been attempted. -/
theorem result_skip_of_protection (answered : e.protection x = .ok (protects, s))
    (recovers : x.recovery = true) (inside : x.atEnd e.state = false) (errorType : NodeRef) :
    e.result x (.skip errorType) =
      if protects then e.state.fail (.plain e.state.position)
      else ((x.advance e.state).report (.skippedToken (x.current e.state).span
        (x.describeFound (x.current e.state)))).yield
          [.node errorType (x.current e.state).span []] := by
  obtain ⟨rfl, -⟩ := protection_eq_ok answered
  have answered : guarded e.state (e.guards.map (x.guard (e.call x))) = .ok (protects, e.state) :=
    answered
  simp only [Engine.result, parser, skipToken, Engine.context, Context.scope, recovers, inside,
    Bool.not_true, Bool.or_self, Bool.false_eq_true, if_false, answered]
  cases protects <;> rfl

/-- A skip that ends: it has taken one token, which is not the last one and at which no guard
matches, or it has failed softly where it stands. -/
theorem skip_cases {errorType : NodeRef} (ended : e.result x (.skip errorType) = .ok (o, s)) :
    (o.isSuccess = true ∧ x.atEnd e.state = false ∧ s.position = e.state.position + 1 ∧
      ¬ e.Guarded x) ∨
    (∃ f, o = .soft f) ∧ s.position = e.state.position := by
  have run : x.Runs (e.call x) (.matcher (.skip errorType)) e.context e.state o s :=
    runs_of_parser_eq ended
  have settled := x.callsSettle e.nesting.remaining e.nesting.depth
  cases o with
  | success values =>
    obtain ⟨inside, _, next, _⟩ := run.skip_takes settled
    refine Or.inl ⟨rfl, inside, next, ?_⟩
    cases run with
    | skip _ _ probed => exact fun guarded => nomatch probed.probe_guards_iff.mpr guarded
  | soft f =>
    obtain ⟨_, rfl⟩ := run.skip_soft settled
    exact Or.inr ⟨⟨f, rfl⟩, rfl⟩
  | hard f => exact absurd run Runs.skip_not_hard

/-- The attempts of the guards, begun on the stack of frames, lead to what the skip then does in the
engine in which they were begun. -/
theorem leadsTo_of_protection (answered : e.protection x = .ok (protects, s))
    (recovers : x.recovery = true) (inside : x.atEnd e.state = false) (errorType : NodeRef)
    (frames : List Frame) :
    x.LeadsTo (x.nextGuard errorType e.aside e.guards e.clear frames)
      (if protects then .ofStep e frames (e.state.fail (.plain e.state.position))
        else x.takeToken errorType e frames) := by
  have attempts : ∀ g ∈ e.guards, x.Performs e.clear g :=
    fun g _ => performs_of_calls (e := e.clear) (x.performsCalls e.nesting) g
  have landed : x.Lands (x.nextGuard errorType e.aside e.guards e.clear frames) e frames _ :=
    lands_guards attempts (s := { e.state with furthest := none })
  have result := result_skip_of_protection answered recovers inside errorType
  have allowed : (!x.recovery || x.atEnd e.state) = false := by rw [recovers, inside]; rfl
  rw [Engine.result, parser, skipToken_eq, allowed, if_neg Bool.false_ne_true] at result
  have same : probe { e.state with furthest := none } (e.context.scope x (e.call x)).guards =
      probe { e.state with furthest := none } (e.guards.map (x.guard (e.call x))) := rfl
  rw [same] at result
  rw [Engine.aside] at landed ⊢
  rw [result] at landed
  cases protects with
  | true => exact landed
  | false => exact landed

end Session

/-- The attempts of guards leave no trace and are exact. In whatever engine they are begun, if they
are not stopped, they give back the state, and they answer whether some guard of the engine matches
where it is, run outside all rules and regions. On the stack of frames, the skip then goes on in the
very engine in which its attempts began: it is refused, or it takes a token. So a skip that succeeds
has taken one token, not the termination token and not one at which a guard matches, and a skip that
does not succeed has taken none. -/
theorem Engine.protection_exact (x : Session) (e : Engine) :
    (∀ protects s, e.protection x = .ok (protects, s) →
      s = e.state ∧ (protects = true ↔ e.Guarded x) ∧
      ∀ errorType frames, x.recovery = true → x.atEnd e.state = false →
        x.LeadsTo (x.nextGuard errorType e.aside e.guards e.clear frames)
          (if protects then .ofStep e frames (e.state.fail (.plain e.state.position))
            else x.takeToken errorType e frames)) ∧
    ∀ errorType o s, e.result x (.skip errorType) = .ok (o, s) →
      if o.isSuccess then
        x.atEnd e.state = false ∧ s.position = e.state.position + 1 ∧ ¬ e.Guarded x
      else s.position = e.state.position := by
  refine ⟨fun protects s answered => ?_, fun errorType o s ended => ?_⟩
  · obtain ⟨same, exact⟩ := Session.protection_eq_ok answered
    exact ⟨same, exact, fun errorType frames recovers inside =>
      Session.leadsTo_of_protection answered recovers inside errorType frames⟩
  · rcases Session.skip_cases ended with ⟨taken, took⟩ | ⟨⟨f, rfl⟩, here⟩
    · rw [if_pos taken]
      exact took
    · exact here

/-- On two tokens, of which a guard matches the first one: an attempt that takes this token and then
fails behind a cut comes before, and leaves no trace. The skip is refused there, and takes the
second token. -/
theorem protection_exact_twoTokens :
    let x := twoTokens.session .initial (tokensOf [1, 2]) ⟨16, true⟩
    let token := Matcher.token ⟨1⟩ none true
    let e (position : Nat) : Engine :=
      ⟨⟨position, [], none⟩, .ofLimit 16, [(⟨0⟩, 0)], [.seq [.cut, token, token], .rule ⟨1⟩]⟩
    (e 0).protection x = .ok (true, (e 0).state) ∧ (e 0).Guarded x ∧
      x.LeadsTo (x.nextGuard ⟨0⟩ (e 0).aside (e 0).guards (e 0).clear [])
        (.ofStep (e 0) [] ((e 0).state.fail (.plain 0))) ∧
      ∃ o s, (e 1).result x (.skip ⟨0⟩) = .ok (o, s) ∧ s.position = 2 ∧ ¬ (e 1).Guarded x := by
  intro x token e
  have answered : (e 0).protection x = .ok (true, (e 0).state) := rfl
  obtain ⟨exact, _⟩ := Engine.protection_exact x (e 0)
  obtain ⟨_, guarded, leads⟩ := exact true _ answered
  obtain ⟨_, takes⟩ := Engine.protection_exact x (e 1)
  obtain ⟨values, s, ended⟩ :
      ∃ values s, (e 1).result x (.skip ⟨0⟩) = .ok (.success values, s) := ⟨_, _, rfl⟩
  obtain ⟨_, next, unguarded⟩ := takes ⟨0⟩ _ _ ended
  exact ⟨answered, guarded.mp rfl, leads ⟨0⟩ [] rfl rfl, _, s, ended, next, unguarded⟩

end CombinatorGrammar
