import CombinatorGrammar.Proofs.Recovery.Coverage
import CombinatorGrammar.Proofs.Recovery.Protection

/-!
# Where recovery stops

A choice with a skip among its alternatives tries the skip where it began, whatever has failed
before and however: a soft failure goes on to the next alternative, and a failure behind a cut
passes over all but the skips. So the choice fails only where the skip is refused, which is at the
end of the input and at guarded tokens. A list over such a choice takes turn after turn until it
comes to such a place.
-/

namespace CombinatorGrammar

/-- Turns of a list of the element, each of which takes a token: from the first state to the second
one, with the items that they add. -/
inductive Engine.Turns (x : Session) (e : Engine) (element : Matcher) :
    State → List Value → State → Prop
  | nil {s : State} : Turns x e element s [] s
  | cons {s s₁ s' : State} {values items : List Value} :
      Engine.result x { e with state := s } element = .ok (.success values, s₁) →
      s.position < s₁.position → Turns x e element s₁ items s' →
      Turns x e element s (values ++ items) s'

/-- How a list that began at the mark ends behind its last turn, which began in the state `s` with
so many items before it and failed. -/
inductive Session.ListEnds (repetition : Repetition) (start : Mark) (items : List Value)
    (s : State) : Outcome × State → Outcome × State → Prop
  | soft {f : Failure} {s₁ s' : State} {o : Outcome} :
      Session.finishList repetition start items (some f) (s₁.rewind s.mark) = .ok (o, s') →
      ListEnds repetition start items s (.soft f, s₁) (o, s')
  | hard {f : Failure} {s₁ : State} :
      ListEnds repetition start items s (.hard f, s₁) (.hard f, s₁)

namespace Session

variable {x : Session} {e : Engine} {call : Call} {cx : Context} {s s' : State} {o : Outcome}
  {m : Matcher} {ms : List Matcher} {start : Mark} {best committed : Option Failure}
  {recovers : Bool}

/-- A choice that succeeds has run one of its alternatives where it began, with success. -/
theorem Runs.alternatives_success_cases {values : List Value}
    (run : x.Runs call (.alternatives recovers start best committed ms) cx s (.success values) s')
    (here : s.position = start.position) :
    ∃ m ∈ ms, ∃ t, t.position = start.position ∧
      x.Runs call (.matcher m) cx t (.success values) s' := by
  induction ms generalizing best committed s with
  | nil => cases run
  | cons m ms ih =>
    have later {best committed t}
        (rest : x.Runs call (.alternatives recovers start best committed ms) cx t
          (.success values) s') (there : t.position = start.position) :
        ∃ n ∈ m :: ms, ∃ t, t.position = start.position ∧
          x.Runs call (.matcher n) cx t (.success values) s' := by
      obtain ⟨n, among, found⟩ := ih rest there
      exact ⟨n, List.mem_cons_of_mem _ among, found⟩
    cases run with
    | alternatives_passed _ rest => exact later rest here
    | alternatives_success _ matched => exact ⟨m, List.mem_cons_self, s, here, matched⟩
    | alternatives_soft _ _ rest => exact later rest rfl
    | alternatives_recover _ _ rest => exact later rest rfl

/-- A recovering choice that fails with a skip among the alternatives that remain has tried the skip
where it began, in vain. -/
theorem Runs.alternatives_skip_refused
    (run : x.Runs call (.alternatives true start best committed ms) cx s o s')
    (here : s.position = start.position) (skips : Matcher.recovers ms = true)
    (fails : o.isSuccess = false) :
    ∃ errorType f t t', t.position = start.position ∧
      x.Runs call (.matcher (.skip errorType)) cx t (.soft f) t' := by
  induction ms generalizing best committed s with
  | nil => cases skips
  | cons m ms ih =>
    by_cases isSkip : m.isSkip = true
    · cases m with
      | skip errorType =>
        -- a skip is tried in any case, and it does not fail behind a cut
        cases run with
        | alternatives_passed passed _ =>
          rw [isSkip, Bool.not_true, Bool.and_false] at passed
          cases passed
        | alternatives_success => cases fails
        | alternatives_soft _ refused _ => exact ⟨errorType, _, s, _, here, refused⟩
        | alternatives_recover _ refused _ => exact absurd refused Runs.skip_not_hard
      | _ => cases isSkip
    · have others : Matcher.recovers ms = true := by
        rw [Bool.not_eq_true] at isSkip
        rw [Matcher.recovers, List.any_cons, isSkip, Bool.false_or] at skips
        exact skips
      cases run with
      | alternatives_passed _ rest => exact ih rest here others
      | alternatives_success => cases fails
      | alternatives_soft _ _ rest => exact ih rest rfl others
      | alternatives_recover _ _ rest => exact ih rest rfl others

/-- A skip that may take tokens is refused at the end and where the engine is guarded. -/
theorem Runs.skip_soft_cases {errorType : NodeRef} {f : Failure} (recovers : x.recovery = true)
    (run : x.Runs (e.call x) (.matcher (.skip errorType)) e.context s (.soft f) s') :
    x.atEnd s = true ∨ Engine.Guarded x { e with state := s } := by
  cases run with
  | skip_guarded _ _ probed =>
    exact Or.inr ((Runs.probe_guards_iff (e := { e with state := s }) probed).mp rfl)
  | skip_refused refused =>
    rcases refused with strict | ends
    · rw [recovers] at strict
      cases strict
    · exact Or.inl ends

/-- A choice with a skip among its alternatives fails at the end and where the engine is guarded
only. -/
theorem choice_fails_cases {alternatives : List Matcher} (recovers : x.recovery = true)
    (skips : Matcher.recovers alternatives = true)
    (ended : e.result x (.choice alternatives) = .ok (o, s)) (fails : o.isSuccess = false) :
    x.atEnd e.state = true ∨ e.Guarded x := by
  have run : x.Runs (e.call x) (.matcher (.choice alternatives)) e.context e.state o s :=
    runs_of_parser_eq ended
  cases run with
  | choice run =>
    rw [skips, recovers, Bool.and_self] at run
    obtain ⟨errorType, f, t, t', here, refused⟩ :=
      run.alternatives_skip_refused rfl skips fails
    rcases refused.skip_soft_cases recovers with ends | guarded
    · rw [atEnd_of_position_eq here] at ends
      exact Or.inl ends
    · exact Or.inr (guarded_of_position_eq guarded rfl rfl here.symm)

/-- A choice of alternatives that all take a token where they match takes one where it matches. -/
theorem choice_moves {alternatives : List Matcher} {values : List Value}
    (takes : ∀ m ∈ alternatives, ∀ s values s',
      Engine.result x { e with state := s } m = .ok (.success values, s') →
        s.position < s'.position)
    (ended : Engine.result x { e with state := s } (.choice alternatives) =
      .ok (.success values, s')) : s.position < s'.position := by
  have run : x.Runs (e.call x) (.matcher (.choice alternatives)) e.context s (.success values) s' :=
    runs_of_parser_eq ended
  cases run with
  | choice run =>
    obtain ⟨m, among, t, here, matched⟩ := run.alternatives_success_cases rfl
    have moved := takes m among t values s' (parser_eq_ok_iff.mpr matched)
    have same : t.position = s.position := here
    omega

/-- The turns of a list whose element takes a token where it matches, up to the one that fails. -/
theorem Runs.turns_cases {element : Matcher} (takes : ∀ s values s',
      Engine.result x { e with state := s } element = .ok (.success values, s') →
        s.position < s'.position) {job : Job} (run : x.Runs (e.call x) job cx s o s') :
    cx = e.context → ∀ hasItems last, job = .turns element none hasItems last →
      ∃ items t o₁ s₁, e.Turns x element s items t ∧
        Engine.result x { e with state := t } element = .ok (o₁, s₁) ∧
        ((∃ f, o₁ = .soft f ∧ last = some f ∧ o = .success items ∧ s' = s₁.rewind t.mark) ∨
          ∃ f, o₁ = .hard f ∧ o = .hard f ∧ s' = s₁) := by
  have ends {s o s'} (turn : x.Runs (e.call x) (.matcher element) e.context s o s') :
      Engine.result x { e with state := s } element = .ok (o, s') := parser_eq_ok_iff.mpr turn
  induction run with
  | turns_next turn moved _ _ ih =>
    rintro rfl _ _ ⟨⟩
    obtain ⟨items, t, o₁, s₁, turns, last, ⟨f, rfl, rfl, ⟨⟩, rfl⟩ | ⟨f, _, none, _⟩⟩ :=
      ih rfl _ _ rfl
    · exact ⟨_, t, _, s₁, .cons (ends turn.turn_unseparated) moved.1 turns, last,
        Or.inl ⟨f, rfl, rfl, rfl, rfl⟩⟩
    · cases none
  | turns_later turn moved _ _ ih =>
    rintro rfl _ _ ⟨⟩
    obtain ⟨items, t, o₁, s₁, turns, last, ⟨f, _, _, none, _⟩ | stopped⟩ := ih rfl _ _ rfl
    · cases none
    · exact ⟨_, t, o₁, s₁, .cons (ends turn.turn_unseparated) moved.1 turns, last,
        Or.inr stopped⟩
  | turns_hard turn _ =>
    rintro rfl _ _ ⟨⟩
    exact ⟨[], _, _, _, .nil, ends turn.turn_unseparated, Or.inr ⟨_, rfl, rfl, rfl⟩⟩
  | turns_soft turn _ =>
    rintro rfl _ _ ⟨⟩
    exact ⟨[], _, _, _, .nil, ends turn.turn_unseparated, Or.inl ⟨_, rfl, rfl, rfl, rfl⟩⟩
  | turns_idle turn idle _ =>
    rintro rfl _ _ ⟨⟩
    have element := turn.turn_unseparated
    have moved := takes _ _ _ (ends element)
    exact absurd ⟨moved, element.position_le_last moved⟩ idle
  | _ =>
    intro _ _ _ other
    cases other

/-- A list whose element takes a token where it matches takes turns up to one that fails, and ends
as this one does. -/
theorem list_cases {element : Matcher} {repetition : Repetition} (takes : ∀ s values s',
      Engine.result x { e with state := s } element = .ok (.success values, s') →
        s.position < s'.position)
    (ended : e.result x (.list repetition element) = .ok (o, s)) :
    ∃ items t o₁ s₁, e.Turns x element e.state items t ∧
      Engine.result x { e with state := t } element = .ok (o₁, s₁) ∧ o₁.isSuccess = false ∧
      ListEnds repetition e.state.mark items t (o₁, s₁) (o, s) := by
  have run : x.Runs (e.call x) (.matcher (.list repetition element)) e.context e.state o s :=
    runs_of_parser_eq ended
  cases run with
  | list run =>
    cases run with
    | repeated turns done =>
      obtain ⟨items, t, _, s₁, taken, last, ⟨f, rfl, rfl, ⟨⟩, rfl⟩ | ⟨f, _, none, _⟩⟩ :=
        turns.turns_cases takes rfl _ _ rfl
      · exact ⟨_, t, _, s₁, taken, last, rfl, .soft done⟩
      · cases none
    | repeated_hard turns =>
      obtain ⟨items, t, _, s₁, taken, last, ⟨f, _, _, none, _⟩ | ⟨f, rfl, ⟨⟩, rfl⟩⟩ :=
        turns.turns_cases takes rfl _ _ rfl
      · cases none
      · exact ⟨_, t, _, _, taken, last, rfl, .hard⟩

end Session

/-- Recovery is complete up to guarded tokens. With recovery, in whatever engine it is run, a choice
with a skip among its alternatives fails, softly or behind a cut, only at the end of the input or
where a guard of the engine matches. So a list over such a choice whose alternatives all take a
token where they match gets past everything else: however it ends, its last turn began at the end
of the input or where a guard matches, behind turns that have each taken a token. -/
theorem Engine.recovery_complete {x : Session} (recovers : x.recovery = true) (e : Engine)
    {alternatives : List Matcher} (skips : Matcher.recovers alternatives = true) :
    (∀ o s, e.result x (.choice alternatives) = .ok (o, s) → o.isSuccess = false →
      x.atEnd e.state = true ∨ e.Guarded x) ∧
    ((∀ m ∈ alternatives, ∀ s values s',
        Engine.result x { e with state := s } m = .ok (.success values, s') →
          s.position < s'.position) →
      ∀ repetition o s, e.result x (.list repetition (.choice alternatives)) = .ok (o, s) →
        ∃ items t last, e.Turns x (.choice alternatives) e.state items t ∧
          Engine.result x { e with state := t } (.choice alternatives) = .ok last ∧
          Session.ListEnds repetition e.state.mark items t last (o, s) ∧
          (x.atEnd t = true ∨ Engine.Guarded x { e with state := t })) := by
  refine ⟨fun o s => Session.choice_fails_cases recovers skips, ?_⟩
  intro takes repetition o s ended
  have moves : ∀ s values s',
      Engine.result x { e with state := s } (.choice alternatives) = .ok (.success values, s') →
        s.position < s'.position :=
    fun s values s' => Session.choice_moves takes
  obtain ⟨items, t, o₁, s₁, turns, last, fails, ends⟩ := Session.list_cases moves ended
  have stops := Session.choice_fails_cases (e := { e with state := t }) recovers skips last fails
  exact ⟨items, t, _, turns, last, ends, stops⟩

/-- A token that matches no alternative is skipped, and so is one behind which a cut commits to
something else; the list stops at the third token, which a guard matches. -/
theorem recovery_complete_twoTokens :
    let x := twoTokens.session .initial (tokensOf [2, 1, 3]) ⟨16, true⟩
    let token := Matcher.token ⟨1⟩ none true
    let alternatives := [.seq [token, .cut, token], .skip ⟨0⟩]
    let element := Matcher.choice alternatives
    let e : Engine := ⟨.initial 0, .ofLimit 16, [(⟨0⟩, 0)], [.token ⟨3⟩ none true]⟩
    ∃ items s, e.result x (.list .zeroOrMore element) = .ok (.success [.list items], s) ∧
      items.length = 2 ∧ s.position = 2 ∧ ∃ items t last, e.Turns x element e.state items t ∧
        Engine.result x { e with state := t } element = .ok last ∧
        (x.atEnd t = true ∨ Engine.Guarded x { e with state := t }) := by
  intro x token alternatives element e
  have takes : ∀ m ∈ alternatives, ∀ s values s',
      Engine.result x { e with state := s } m = .ok (.success values, s') →
        s.position < s'.position := by
    let k : IdleFacts := ⟨fun _ => true, fun _ => true, fun _ => 0⟩
    have idle : ∀ m ∈ alternatives, m.idles k = false := by decide
    have fits : k.Fits x.program := by decide
    intro m among s values s' ended
    have run : x.Runs (e.call x) (.matcher m) e.context s (.success values) s' :=
      Session.runs_of_parser_eq ended
    exact run.position_lt fits (idle m among)
  obtain ⟨items, s, ended, count, stops⟩ : ∃ items s,
      e.result x (.list .zeroOrMore element) = .ok (.success [.list items], s) ∧
        items.length = 2 ∧ s.position = 2 := by
    rw [Engine.result, Session.parser, Session.repeated_success rfl (by decide),
      Session.repeated_success rfl (by decide), Session.repeated_soft rfl]
    exact ⟨_, _, rfl, rfl, rfl⟩
  have recovers : x.recovery = true := rfl
  have skips : Matcher.recovers alternatives = true := rfl
  obtain ⟨_, lists⟩ := Engine.recovery_complete recovers e skips
  obtain ⟨turned, t, last, turns, ran, _, there⟩ := lists takes _ _ _ ended
  exact ⟨items, s, ended, count, stops, turned, t, last, turns, ran, there⟩

end CombinatorGrammar
