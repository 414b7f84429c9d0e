import CombinatorGrammar.Parse.Basic
import CombinatorGrammar.Proofs.Run.Idle

/-!
# What a run reports

A run reports two kinds of diagnostics: that a token was skipped, and that a failure behind a cut
was recovered from. The second kind is only ever reported by a choice that then tries its skips,
and a choice in which no skip takes a token withdraws its report. So in what a run leaves behind,
every recovered failure is followed at once by a skipped token.
-/

namespace CombinatorGrammar

namespace Diagnostic

/-- Every recovered failure in the list is followed at once by a skipped token. -/
def Answered (ds : List Diagnostic) : Prop :=
  ∀ i d, ds[i]? = some d → d.code = .recoveredFailure →
    ∃ e, ds[i + 1]? = some e ∧ e.code = .skippedToken

theorem answered_nil : Answered [] := by
  intro i d found
  simp at found

/-- Another diagnostic at the end changes nothing for the recovered failures before it. -/
theorem Answered.concat {ds : List Diagnostic} {d : Diagnostic} (h : Answered ds)
    (other : d.code ≠ .recoveredFailure) : Answered (ds ++ [d]) := by
  intro i e found recovered
  rw [List.getElem?_append] at found
  split at found
  · next inside =>
    obtain ⟨answer, next, skipped⟩ := h i e found recovered
    have inside' : i + 1 < ds.length := (List.getElem?_eq_some_iff.mp next).1
    exact ⟨answer, by rwa [List.getElem?_append_left inside'], skipped⟩
  · next behind =>
    have last : e = d := by simpa using List.mem_of_getElem? found
    rw [last] at recovered
    exact absurd recovered other

/-- A recovered failure at the end is answered by a skipped token behind it. -/
theorem Answered.concat_pair {ds : List Diagnostic} {d e : Diagnostic} (h : Answered ds)
    (skipped : e.code = .skippedToken) : Answered (ds ++ [d, e]) := by
  intro i f found recovered
  rw [List.getElem?_append] at found
  split at found
  · next inside =>
    obtain ⟨answer, next, same⟩ := h i f found recovered
    have inside' : i + 1 < ds.length := (List.getElem?_eq_some_iff.mp next).1
    exact ⟨answer, by rwa [List.getElem?_append_left inside'], same⟩
  · next behind =>
    have position : i = ds.length ∨ i = ds.length + 1 := by
      have bound := (List.getElem?_eq_some_iff.mp found).1
      simp only [List.length_cons, List.length_nil] at bound
      omega
    rcases position with rfl | rfl
    · exact ⟨e, by simp, skipped⟩
    · have last : f = e := by simpa using found.symm
      rw [last, skipped] at recovered
      cases recovered

/-- What runs report: skipped tokens, and recovered failures that are each answered by a skipped
token. -/
inductive OfRun : List Diagnostic → Prop
  | nil : OfRun []
  | skipped {ds : List Diagnostic} {d : Diagnostic} :
      OfRun ds → d.code = .skippedToken → OfRun (ds ++ [d])
  | recovered {ds : List Diagnostic} {d e : Diagnostic} :
      OfRun ds → d.code = .recoveredFailure → e.code = .skippedToken → OfRun (ds ++ [d, e])

namespace OfRun

variable {ds : List Diagnostic} {d : Diagnostic}

/-- Every recovered failure that a run reports is answered. -/
theorem answered (h : OfRun ds) : Answered ds := by
  induction h with
  | nil => exact answered_nil
  | skipped _ same ih => exact ih.concat (by rw [same]; decide)
  | recovered _ _ same ih => exact ih.concat_pair same

/-- A run reports recovered failures and skipped tokens only. -/
theorem code_eq (h : OfRun ds) (among : d ∈ ds) :
    d.code = .recoveredFailure ∨ d.code = .skippedToken := by
  induction h with
  | nil => cases among
  | skipped _ same ih =>
    rcases List.mem_append.mp among with earlier | last
    · exact ih earlier
    · obtain rfl := List.mem_singleton.mp last
      exact Or.inr same
  | recovered _ first second ih =>
    rcases List.mem_append.mp among with earlier | last
    · exact ih earlier
    · simp only [List.mem_cons, List.not_mem_nil, or_false] at last
      rcases last with rfl | rfl
      · exact Or.inl first
      · exact Or.inr second

end OfRun

end Diagnostic

namespace State

/-- What is reported comes behind what was reported before. -/
theorem diagnostics_report (s : State) (d : Diagnostic) :
    (s.report d).diagnostics = s.diagnostics ++ [d] := by
  simp only [diagnostics, report, List.reverse_cons]

end State

namespace Session

open Diagnostic (Answered OfRun)

variable {x : Session} {call : Call} {cx : Context} {s s' : State} {o : Outcome}

/-- Advancing reports nothing. -/
theorem diagnostics_advance (x : Session) (s : State) :
    (x.advance s).diagnostics = s.diagnostics := by
  unfold advance
  split <;> rfl

/-- What the attempts of guards leave behind, once the furthest failure of before is put back. -/
theorem Runs.unmoved_of_probe {guards : List Matcher} (settled : CallsSettle call)
    (run : x.Runs call (.probe guards) cx { s with furthest := none } o s') :
    s.Unmoved { s' with furthest := s.furthest } := by
  have probed : State.Unmoved { s with furthest := none } s' := run.settles settled
  exact ⟨probed.position_eq, probed.pending_eq⟩

/-- A skip that takes a token yields one error node at the place of the token, and reports the
place as skipped. -/
theorem Runs.skip_success {errorType : NodeRef} {values : List Value}
    (settled : CallsSettle call)
    (run : x.Runs call (.matcher (.skip errorType)) cx s (.success values) s') :
    ∃ span found, values = [.node errorType span []] ∧
      s'.diagnostics = s.diagnostics ++ [.skippedToken span found] := by
  cases run with
  | @skip _ _ _ s₁ f recovery inside probed =>
    refine ⟨(x.current s₁).span, x.describeFound (x.current s₁), rfl, ?_⟩
    rw [State.diagnostics_report, diagnostics_advance,
      (probed.unmoved_of_probe settled).diagnostics_eq]
    rfl

/-- A skip never fails behind a cut. -/
theorem Runs.skip_not_hard {errorType : NodeRef} {f : Failure} :
    ¬ x.Runs call (.matcher (.skip errorType)) cx s (.hard f) s' := by
  intro run
  cases run

/-- How the diagnostics of a state come from those of the state where a choice began: they are the
same, or the choice has reported a failure that is still to be answered. -/
def Awaits (committed : Option Failure) (s₀ s : State) : Prop :=
  s.diagnostics = s₀.diagnostics ∨
    committed.isSome = true ∧
      ∃ d, d.code = .recoveredFailure ∧ s.diagnostics = s₀.diagnostics ++ [d]

/-- Where a choice has reported a failure, it tries nothing but skips. -/
theorem Awaits.cases {committed : Option Failure} {m : Matcher} {s₀ : State}
    (h : Awaits committed s₀ s) (tried : (committed.isSome && !m.isSkip) = false) :
    s.diagnostics = s₀.diagnostics ∨
      (∃ errorType, m = .skip errorType) ∧
        ∃ d, d.code = .recoveredFailure ∧ s.diagnostics = s₀.diagnostics ++ [d] := by
  rcases h with same | ⟨reported, d, code, more⟩
  · exact Or.inl same
  · have isSkip : m.isSkip = true := by simpa [reported] using tried
    cases m with
    | skip errorType => exact Or.inr ⟨⟨errorType, rfl⟩, d, code, more⟩
    | _ => cases isSkip

/-- Each job leaves diagnostics as runs report them, if it began with such. A choice that has
reported a failure began with such at its mark. -/
def KeepsOfRun : Job → State → State → Prop
  | .alternatives _ start _ committed _, s, s' => ∀ s₀ : State, s₀.mark = start →
    s₀.Onward s → Awaits committed s₀ s → OfRun s₀.diagnostics → OfRun s'.diagnostics
  | _, s, s' => OfRun s.diagnostics → OfRun s'.diagnostics

/-- A state that has not moved has reported what runs report, as it had before. -/
theorem ofRun_of_unmoved (h : s.Unmoved s') (before : OfRun s.diagnostics) :
    OfRun s'.diagnostics := by
  rw [h.diagnostics_eq]
  exact before

/-- What is undone leaves the diagnostics as they were. -/
theorem ofRun_of_rewind {s₁ : State} (h : s.Onward s₁) (before : OfRun s.diagnostics) :
    OfRun (s₁.rewind s.mark).diagnostics :=
  ofRun_of_unmoved h.rewind_mark before

/-- Every job reports as runs do, if the calls of rules do. -/
theorem Runs.keepsOfRun {job : Job} (settled : CallsSettle call)
    (calls : ∀ ref active guards s o s', call ref active guards s = .ok (o, s') →
      OfRun s.diagnostics → OfRun s'.diagnostics)
    (run : x.Runs call job cx s o s') : KeepsOfRun job s s' := by
  induction run with
  | token _ => exact fun before => (diagnostics_advance x _).symm ▸ before
  | token_fails _ | skip_refused _ => exact ofRun_of_unmoved (State.unmoved_record _ _)
  | rule called => exact calls _ _ _ _ _ _ called
  | seq_soft run _ => exact ofRun_of_rewind (run.settles settled)
  | @choice _ _ s _ _ _ ih => exact ih s rfl (.refl s) (Or.inl rfl)
  | opt_soft run _ | group_soft run _ => exact ofRun_of_rewind (run.onward settled)
  | predicate_rejects run _ _ =>
    exact ofRun_of_unmoved ((run.onward settled).rewind_mark.trans (State.unmoved_record _ _))
  | skip recovery inside probed _ =>
    intro before
    rw [State.diagnostics_report, diagnostics_advance,
      (probed.unmoved_of_probe settled).diagnostics_eq]
    exact before.skipped rfl
  | skip_guarded _ _ probed _ =>
    exact ofRun_of_unmoved ((probed.unmoved_of_probe settled).trans (State.unmoved_record _ _))
  | items_next _ _ _ ihm ihms | items_later _ _ _ _ ihm ihms => exact ihms ∘ ihm
  | alternatives_nil =>
    intro s₀ _ _ awaits before
    rcases awaits with same | ⟨none, _⟩
    · rw [same]
      exact before
    · cases none
  | alternatives_given_up =>
    rintro s₀ rfl behind _ before
    exact ofRun_of_rewind behind before
  | alternatives_success tried run ih =>
    intro s₀ _ _ awaits before
    rcases awaits.cases tried with same | ⟨⟨errorType, rfl⟩, d, code, reported⟩
    · exact ih (same ▸ before)
    · -- the skip answers the failure that the choice has reported
      obtain ⟨span, found, _, more⟩ := run.skip_success settled
      rw [more, reported, List.append_assoc]
      exact before.recovered code rfl
  | alternatives_soft _ run _ _ ihms =>
    rintro s₀ rfl behind _ before
    have undone := (behind.trans (run.onward settled)).rewind_mark
    exact ihms s₀ rfl undone.onward (Or.inl undone.diagnostics_eq) before
  | alternatives_recover _ run _ _ ihms =>
    rintro s₀ rfl behind _ before
    have undone := (behind.trans (run.onward settled)).rewind_mark
    refine ihms s₀ rfl (undone.onward.trans (State.onward_report _ _)) (Or.inr ⟨rfl, ?_⟩) before
    exact ⟨_, rfl, (State.diagnostics_report _ _).trans (by rw [undone.diagnostics_eq])⟩
  | alternatives_hard tried run ih =>
    intro s₀ _ _ awaits before
    rcases awaits.cases tried with same | ⟨⟨errorType, rfl⟩, _⟩
    · exact ih (same ▸ before)
    · exact absurd run Runs.skip_not_hard
  | repeated run done ih =>
    intro before
    rcases finishList_cases done with ⟨_, _, rfl⟩ | ⟨_, _, rfl⟩
    · exact ofRun_of_rewind (run.settles settled) before
    · exact ih before
  | turn_next _ _ ihs ihe => exact ihe ∘ ihs
  | turns_next _ _ _ ih ihms | turns_later _ _ _ ih ihms => exact ihms ∘ ih
  | turns_soft run _ | turns_idle run _ _ => exact ofRun_of_rewind (run.settles settled)
  | probe_match run _ => exact ofRun_of_rewind (run.onward settled)
  | probe_next run _ _ _ ihms =>
    exact fun before => ihms (ofRun_of_rewind (run.onward settled) before)
  | cut | null | items_nil | probe_nil => exact id
  -- the others leave what their only operand leaves
  | _ => assumption

/-- Every call of a rule reports as runs do. -/
theorem call_ofRun {remaining depth : Nat} {ref : RuleRef} {active : List (RuleRef × Nat)}
    {guards : List Matcher} (h : x.call remaining depth ref active guards s = .ok (o, s'))
    (before : OfRun s.diagnostics) : OfRun s'.diagnostics := by
  refine (call_induction (Q := fun _ s o s' => o.Settles s s' ∧
    (OfRun s.diagnostics → OfRun s'.diagnostics)) ?_ h).2 before
  intro call calls ref active guards s o s' entered
  have settled : CallsSettle call :=
    fun ref active guards s o s' called => (calls ref active guards s o s' called).1
  rcases enter_cases entered with ⟨rule, _, run⟩ | ⟨_, rfl, rfl⟩
  · refine ⟨run.settles settled, run.keepsOfRun settled fun ref active guards s o s' called => ?_⟩
    exact (calls ref active guards s o s' called).2
  · exact ⟨State.unmoved_record _ _, ofRun_of_unmoved (State.unmoved_record _ _)⟩

/-- A run from a state without diagnostics leaves such as runs report. -/
theorem run_ofRun {maxDepth start : Nat} {ref : RuleRef}
    (ran : x.run maxDepth ref (.initial start) = .ok (o, s)) : OfRun s.diagnostics :=
  call_ofRun ran .nil

/-- What is left over is reported as a syntax error or as trailing input. -/
theorem code_leftover (x : Session) (s : State) :
    (x.leftover s).code = .syntaxError ∨ (x.leftover s).code = .trailingInput := by
  unfold leftover
  repeat' split
  all_goals first | exact Or.inl rfl | exact Or.inr rfl

/-- A parse adds nothing to what its run reports if it has a tree, and otherwise one diagnostic
that no run reports. -/
theorem finish_cases (x : Session) (o : Outcome) (s : State) :
    (∃ values, o = .success values ∧ x.atEnd s = true ∧
      x.finish o s = ⟨some (rootOf values), s.diagnostics⟩) ∨
    ∃ d, (d.code = .syntaxError ∨ d.code = .trailingInput) ∧
      x.finish o s = ⟨none, s.diagnostics ++ [d]⟩ := by
  cases o with
  | success values =>
    by_cases ends : x.atEnd s = true
    · exact Or.inl ⟨values, rfl, ends, by rw [finish, if_pos ends]⟩
    · refine Or.inr ⟨_, x.code_leftover s, ?_⟩
      rw [finish, if_neg ends, State.diagnostics_report]
  | soft f | hard f =>
    exact Or.inr ⟨_, Or.inl rfl, by rw [finish, State.diagnostics_report]⟩

end Session

namespace Program

open Diagnostic (Answered OfRun)

variable {p : Program} {names : Interner} {tokens : TokenStream} {config : ParseConfig}

/-- An attempt leaves what its run reports. -/
theorem attempt_ofRun {ref : RuleRef} {start : Nat} {attempt : RuleAttempt}
    (ran : p.attempt names tokens config ref start = .ok attempt) :
    OfRun attempt.diagnostics := by
  simp only [Program.attempt] at ran
  split at ran
  · cases ran
  · next o s called =>
    obtain rfl := Except.ok.inj ran
    exact Session.run_ofRun called

/-- A parse that is not stopped finishes the run of the entry rule. -/
theorem exists_run_of_parse {output : ParseOutput}
    (ran : p.parse names tokens config = .ok output) :
    ∃ o s, (p.session names tokens config).run config.maxDepth p.entry (.initial 0) = .ok (o, s) ∧
      output = (p.session names tokens config).finish o s := by
  simp only [Program.parse] at ran
  split at ran
  · cases ran
  · next o s called => exact ⟨o, s, called, (Except.ok.inj ran).symm⟩

/-- A parse ends as the run of the entry rule ends. -/
theorem parse_of_run {o : Outcome} {s : State}
    (ran : (p.session names tokens config).run config.maxDepth p.entry (.initial 0) = .ok (o, s)) :
    p.parse names tokens config = .ok ((p.session names tokens config).finish o s) := by
  simp only [Program.parse, ran]

/-- In what a parse leaves, every recovered failure is answered by a skipped token. -/
theorem parse_answered {output : ParseOutput} (ran : p.parse names tokens config = .ok output) :
    Answered output.diagnostics := by
  obtain ⟨o, s, called, rfl⟩ := exists_run_of_parse ran
  have answered := (Session.run_ofRun called).answered
  rcases (p.session names tokens config).finish_cases o s with
    ⟨values, _, _, same⟩ | ⟨d, code, same⟩
  · rw [same]
    exact answered
  · rw [same]
    refine answered.concat ?_
    rcases code with code | code <;> rw [code] <;> decide

end Program

end CombinatorGrammar
