import CombinatorGrammar.Proofs.Recovery.Reports
import CombinatorGrammar.Proofs.Recovery.Skipless

/-!
# Runs with recovery and without

Where skips stand in open lists only, and each such list is closed by the token that it protects or
by the end of the input, recovery makes no difference to input that is matched without it. A skip
behind the last element of such a list is refused in both modes: without recovery in any case, and
with recovery because what closes the list is next.

All of this is said of a session and the same session with recovery switched to whatever is
wanted, so that each statement can be read in both directions.
-/

namespace CombinatorGrammar

namespace State

theorem Unmoved.eq {s s' : State} (h : s.Unmoved s') (furthest : s'.furthest = s.furthest) :
    s' = s := by
  obtain ⟨position, pending⟩ := h
  cases s
  cases s'
  simp_all

end State

namespace Session

variable {x : Session} {recovery : Bool} {remaining depth : Nat} {call : Call} {cx : Context}
  {s s' : State} {o : Outcome} {m : Matcher} {ms : List Matcher} {committed : Bool}

/-- A run that leaves no reports: it succeeds and has reported nothing, or it fails softly. -/
def Clean (s s' : State) : Outcome → Prop
  | .success _ => s'.pending = s.pending
  | .soft _ => True
  | .hard _ => False

/-- On the given level, clean runs of the job go the same way with recovery switched. -/
def JobAgrees (x : Session) (recovery : Bool) (remaining depth : Nat) (job : Job) : Prop :=
  ∀ cx s o s', x.Runs (x.call remaining depth) job cx s o s' → Clean s s' o →
    (x.withRecovery recovery).Runs ((x.withRecovery recovery).call remaining depth) job cx s o s'

/-- What stands behind an open list closes it: the end of the input, or the token that the
innermost region protects. -/
def Closes (x : Session) (cx : Context) (s : State) : Prop :=
  x.atEnd s = true ∨ ∃ kind text keep guards, cx.guards = .token kind text keep :: guards ∧
    (x.current s).kind = kind ∧ text.all (· = (x.current s).text) = true

/-- On the given level, successful clean runs of an open matcher go the same way with recovery
switched, if they end where something closes them. -/
def OpenAgrees (x : Session) (recovery : Bool) (remaining depth : Nat) (m : Matcher) : Prop :=
  ∀ cx s values s', x.Runs (x.call remaining depth) (.matcher m) cx s (.success values) s' →
    s'.pending = s.pending → x.Closes cx s' →
    (x.withRecovery recovery).Runs ((x.withRecovery recovery).call remaining depth)
      (.matcher m) cx s (.success values) s'

/-- Between two states with the same reports there are no others. -/
theorem pending_eq_of_onward {s₁ : State} (first : s.Onward s₁) (second : s₁.Onward s')
    (same : s'.pending = s.pending) : s₁.pending = s.pending :=
  (first.pending_suffix.eq_of_length_le
    (same ▸ second.pending_suffix.length_le)).symm

/-- A token that has been taken is given back. -/
theorem rewind_advance (x : Session) (s : State) : (x.advance s).rewind s.mark = s := by
  have undone := (onward_advance x s).rewind_mark
  refine undone.eq ?_
  unfold advance
  split <;> rfl

/-- A skip fails at the position where it stands. -/
theorem Runs.skip_soft {errorType : NodeRef} {f : Failure} (settled : CallsSettle call)
    (run : x.Runs call (.matcher (.skip errorType)) cx s (.soft f) s') :
    f = .plain s.position ∧ s' = s.record (.plain s.position) := by
  cases run with
  | @skip_guarded _ _ _ s₁ _ _ _ probed =>
    have unmoved := probed.unmoved_of_probe settled
    have position : s₁.position = s.position := unmoved.position_eq
    have same : { s₁ with furthest := s.furthest } = s := unmoved.eq rfl
    refine ⟨by rw [position], ?_⟩
    rw [same, position]
  | skip_refused _ => exact ⟨rfl, rfl⟩

/-- A skip is refused where something closes the list in which it stands. -/
theorem Closes.skip_refused (closes : x.Closes cx s) (errorType : NodeRef) :
    x.Runs call (.matcher (.skip errorType)) cx s (.soft (.plain s.position))
      (s.record (.plain s.position)) := by
  by_cases refused : x.recovery = false ∨ x.atEnd s = true
  · exact .skip_refused refused
  · simp only [not_or, Bool.not_eq_false, Bool.not_eq_true] at refused
    rcases closes with ends | ⟨kind, text, keep, guards, protects, matched⟩
    · rw [refused.2] at ends
      cases ends
    · -- the guard is run, and what it has taken is given back
      have guard : x.Runs call (.matcher (.token kind text keep)) .empty
          { s with furthest := none } _ _ := .token matched
      have probed : x.Runs call (.probe (.token kind text keep :: guards)) cx _ _ _ :=
        .probe_match guard
      rw [rewind_advance, ← protects] at probed
      have refusal : x.Runs call (.matcher (.skip errorType)) cx s _ _ :=
        @Runs.skip_guarded _ _ errorType cx s _ _ refused.1 refused.2 probed
      exact refusal

/-- Whether something closes a list depends on the position only. -/
theorem Closes.of_position_eq (closes : x.Closes cx s') (same : s'.position = s.position) :
    x.Closes cx s := by
  have token : x.current s' = x.current s := by rw [current, current, same]
  unfold Closes atEnd at *
  rwa [token] at closes

/-- A skip that succeeds is not at the end, yields one error node at the place of the current token
and takes the token, and leaves one more report. -/
theorem Runs.skip_takes {errorType : NodeRef} {values : List Value} (settled : CallsSettle call)
    (run : x.Runs call (.matcher (.skip errorType)) cx s (.success values) s') :
    x.atEnd s = false ∧ values = [.node errorType (x.current s).span []] ∧
      s'.position = s.position + 1 ∧ s'.pending.length = s.pending.length + 1 := by
  cases run with
  | @skip _ _ _ s₁ _ recovery inside probed =>
    have same : { s₁ with furthest := s.furthest } = s := (probed.unmoved_of_probe settled).eq rfl
    rw [same]
    refine ⟨inside, rfl, ?_, ?_⟩
    all_goals simp only [advance, inside, State.report, Bool.false_eq_true, if_false,
      List.length_cons]

/-- A choice of an element and a skip, taken apart: the element matches, or the skip does; or both
fail softly, one after the other; or the element fails behind a cut, and there is no recovery or the
skip fails. The skip is always tried where the choice began. -/
theorem Runs.choice_skip_cases {errorType : NodeRef} (settled : CallsSettle call)
    (run : x.Runs call (.matcher (.choice [m, .skip errorType])) cx s o s') :
    (∃ values, o = .success values ∧ x.Runs call (.matcher m) cx s (.success values) s') ∨
    (∃ values s₁, o = .success values ∧ s₁.position = s.position ∧
      s.pending.length ≤ s₁.pending.length ∧
      x.Runs call (.matcher (.skip errorType)) cx s₁ (.success values) s') ∨
    (∃ f g s₁ s₂, o = .soft (f.further g) ∧ s' = s₂.rewind s.mark ∧
      x.Runs call (.matcher m) cx s (.soft f) s₁ ∧
      x.Runs call (.matcher (.skip errorType)) cx (s₁.rewind s.mark) (.soft g) s₂) ∨
    (∃ f s₁, o = .hard f ∧ x.Runs call (.matcher m) cx s (.hard f) s₁ ∧
      (x.recovery = false ∨ ∃ g s₂ s₃, s₂.position = s.position ∧
        x.Runs call (.matcher (.skip errorType)) cx s₂ (.soft g) s₃)) := by
  obtain ⟨recovers, same, run⟩ : ∃ recovers, recovers = x.recovery ∧
      x.Runs call (.alternatives recovers s.mark none none [m, .skip errorType]) cx s o s' := by
    cases run with
    | choice run =>
      refine ⟨_, ?_, run⟩
      simp [Matcher.recovers, Matcher.isSkip]
  cases run with
  | alternatives_passed passed _ => cases passed
  | alternatives_success _ run => exact Or.inl ⟨_, rfl, run⟩
  | @alternatives_soft _ _ _ _ _ _ _ _ s₁ _ f _ _ first rest =>
    have undone := (first.onward settled).rewind_mark
    cases rest with
    | alternatives_passed passed _ => cases passed
    | alternatives_success _ taken =>
      have kept : s.pending.length ≤ (s₁.rewind s.mark).pending.length :=
        Nat.le_of_eq (congrArg List.length undone.pending_eq.symm)
      exact Or.inr (Or.inl ⟨_, s₁.rewind s.mark, rfl, rfl, kept, taken⟩)
    | alternatives_soft _ refused rest =>
      cases rest with
      | alternatives_nil => exact Or.inr (Or.inr (Or.inl ⟨_, _, _, _, rfl, rfl, first, refused⟩))
    | alternatives_recover _ fails _ | alternatives_hard _ fails =>
      exact absurd fails Runs.skip_not_hard
  | @alternatives_recover _ _ _ _ _ _ _ s₁ _ f _ _ first rest =>
    have undone := (first.onward settled).rewind_mark
    cases rest with
    | alternatives_passed passed _ => cases passed
    | alternatives_success _ taken =>
      have reported : (x.reportRecovered f (s₁.rewind s.mark)).pending.length =
          (s₁.rewind s.mark).pending.length + 1 := rfl
      rw [undone.pending_eq] at reported
      exact Or.inr (Or.inl
        ⟨_, x.reportRecovered f (s₁.rewind s.mark), rfl, rfl, by omega, taken⟩)
    | alternatives_soft _ refused rest =>
      cases rest with
      | alternatives_given_up =>
        exact Or.inr (Or.inr (Or.inr ⟨_, _, rfl, first,
          Or.inr ⟨_, x.reportRecovered f (s₁.rewind s.mark), _, rfl, refused⟩⟩))
    | alternatives_recover _ fails _ => exact absurd fails Runs.skip_not_hard
  | alternatives_hard _ fails =>
    exact Or.inr (Or.inr (Or.inr ⟨_, _, rfl, fails, Or.inl same.symm⟩))

/-- What follows a cut in a sequence does not fail softly. -/
theorem Runs.items_not_soft {f : Failure} :
    ¬ x.Runs call (.items true ms) cx s (.soft f) s' := by
  intro run
  induction ms generalizing s with
  | nil => cases run
  | cons m ms ih =>
    cases run with
    | items_cut _ rest => exact ih rest
    | items_later _ _ rest _ => exact ih rest

section Items

/-- A matcher that never comes to a skip goes the same way in all its runs. -/
theorem Runs.switch (recovery : Bool) (skipless : x.program.Skipless m)
    (run : x.Runs (x.call remaining depth) (.matcher m) cx s o s') :
    (x.withRecovery recovery).Runs ((x.withRecovery recovery).call remaining depth)
      (.matcher m) cx s o s' :=
  run.withRecovery recovery (x.callsAgree recovery remaining depth) skipless

/-- What never comes to a skip agrees: it runs alike with recovery and without. -/
theorem jobAgrees_of_skipless (skipless : x.program.Skipless m) :
    x.JobAgrees recovery remaining depth (.matcher m) :=
  fun _ _ _ _ run _ => run.switch recovery skipless

/-- No items agree: they match nothing in either way. -/
theorem jobAgrees_items_nil : x.JobAgrees recovery remaining depth (.items committed []) := by
  intro cx s o s' run _
  cases run
  exact .items_nil

/-- Items behind a cut agree if the rest of them does. -/
theorem jobAgrees_items_cut (cut : m.isCut = true)
    (rest : x.JobAgrees recovery remaining depth (.items true ms)) :
    x.JobAgrees recovery remaining depth (.items committed (m :: ms)) := by
  intro cx s o s' run clean
  cases run with
  | items_cut _ later => exact .items_cut cut (rest _ _ _ _ later clean)
  | items_next other | items_later other | items_soft other | items_commit other
  | items_hard other =>
    rw [cut] at other
    cases other

/-- An item that never comes to a skip stands before items that agree. -/
theorem jobAgrees_items_cons (skipless : x.program.Skipless m) (item : m.isCut = false)
    (rest : x.JobAgrees recovery remaining depth (.items committed ms)) :
    x.JobAgrees recovery remaining depth (.items committed (m :: ms)) := by
  intro cx s o s' run clean
  cases run with
  | items_cut cut =>
    rw [item] at cut
    cases cut
  | @items_next _ _ _ _ _ s₁ _ _ more _ first later =>
    have quiet : s₁.pending = s.pending := first.silent skipless
    have kept : Clean s₁ s' (.success more) := Eq.trans clean quiet.symm
    exact .items_next item (first.switch recovery skipless) (rest _ _ _ _ later kept)
  | @items_later _ _ _ _ _ s₁ _ _ _ _ first later fails =>
    have kept : Clean s₁ s' o := by
      cases o with
      | success => cases fails
      | soft => trivial
      | hard => exact clean.elim
    exact .items_later item (first.switch recovery skipless) (rest _ _ _ _ later kept) fails
  | items_soft _ first => exact .items_soft item (first.switch recovery skipless)
  | items_commit | items_hard => exact clean.elim

/-- The last item of a sequence may come to skips in good order. -/
theorem jobAgrees_items_last (item : m.isCut = false)
    (last : x.JobAgrees recovery remaining depth (.matcher m)) :
    x.JobAgrees recovery remaining depth (.items committed [m]) := by
  intro cx s o s' run clean
  cases run with
  | items_cut cut =>
    rw [item] at cut
    cases cut
  | items_next _ first later =>
    cases later
    exact .items_next item (last _ _ _ _ first clean) .items_nil
  | items_later _ _ later fails =>
    cases later
    cases fails
  | items_soft _ first => exact .items_soft item (last _ _ _ _ first trivial)
  | items_commit | items_hard => exact clean.elim

/-- Behind a cut an open list may stand, if the token that its region protects comes next. -/
theorem jobAgrees_items_region {kind : TokenKind} {text : Option Name} {keep keep' : Bool}
    (agrees : x.OpenAgrees recovery remaining depth m)
    (skipless : ∀ n ∈ ms, x.program.Skipless n) :
    x.JobAgrees recovery remaining depth
      (.items true (.protect m (.token kind text keep) :: .token kind text keep' :: ms)) := by
  intro cx s o s' run clean
  have plain : SkiplessJob x.program (.items true (.token kind text keep' :: ms)) :=
    List.forall_mem_cons.mpr ⟨Program.skipless_token, skipless⟩
  cases run with
  | items_cut cut => cases cut
  | @items_next _ _ _ _ _ s₁ _ _ _ item first later =>
    have inner := first.protect_success
    have settled := x.callsSettle remaining depth
    have behind : State.Onward s₁ s' := later.settles settled
    have kept := pending_eq_of_onward (inner.onward settled) behind clean
    have closes : x.Closes (cx.protecting (.token kind text keep)) s₁ := by
      obtain ⟨_, _, _, _, token, _⟩ := later.items_success rfl
      exact Or.inr ⟨kind, text, keep, cx.guards, rfl, token.token_success.1⟩
    exact .items_next item (.protect (agrees _ _ _ _ inner kept closes))
      (later.withRecovery recovery (x.callsAgree recovery remaining depth) plain)
  | items_later item first later fails =>
    cases o with
    | success => cases fails
    | soft => exact absurd later Runs.items_not_soft
    | hard => exact clean.elim
  | items_commit | items_hard => exact clean.elim

end Items

section Matchers

/-- A sequence agrees if its items do. -/
theorem JobAgrees.seq (items : x.JobAgrees recovery remaining depth (.items false ms)) :
    x.JobAgrees recovery remaining depth (.matcher (.seq ms)) := by
  intro cx s o s' run clean
  cases run with
  | seq run => exact .seq (items _ _ _ _ run clean)
  | seq_soft run => exact .seq_soft (items _ _ _ _ run trivial)
  | seq_hard run => exact clean.elim

/-- A node agrees if its operand does. -/
theorem JobAgrees.node {type : NodeRef} {layout : List FieldKind}
    (operand : x.JobAgrees recovery remaining depth (.matcher m)) :
    x.JobAgrees recovery remaining depth (.matcher (.node type layout m)) := by
  intro cx s o s' run clean
  cases run with
  | node run => exact .node (operand _ _ _ _ run clean)
  | node_fails run fails => exact .node_fails (operand _ _ _ _ run clean) fails

/-- What is tried in turn agrees if each alternative does. -/
theorem jobAgrees_alternatives
    (agrees : ∀ m ∈ ms, x.JobAgrees recovery remaining depth (.matcher m)) {start : Mark}
    {best : Option Failure} (begins : s.mark = start)
    (run : x.Runs (x.call remaining depth) (.alternatives false start best none ms) cx s o s')
    (clean : Clean s s' o) :
    (x.withRecovery recovery).Runs ((x.withRecovery recovery).call remaining depth)
      (.alternatives false start best none ms) cx s o s' := by
  induction ms generalizing best s with
  | nil =>
    cases run
    exact .alternatives_nil
  | cons m ms ih =>
    subst begins
    obtain ⟨first, others⟩ := List.forall_mem_cons.mp agrees
    cases run with
    | alternatives_passed passed => cases passed
    | alternatives_success tried run => exact .alternatives_success tried (first _ _ _ _ run clean)
    | @alternatives_soft _ _ _ _ _ _ _ _ s₁ _ f _ tried run rest =>
      have settled := x.callsSettle remaining depth
      have undone := (run.onward settled).rewind_mark
      have back : (s₁.rewind s.mark).mark = s.mark := by
        rw [State.mark, undone.position_eq, undone.pending_eq]
        rfl
      have kept : Clean (s₁.rewind s.mark) s' o := by
        cases o with
        | success => exact Eq.trans clean undone.pending_eq.symm
        | soft => trivial
        | hard => exact clean.elim
      exact .alternatives_soft tried (first _ _ _ _ run trivial) (ih others back rest kept)
    | alternatives_hard => exact clean.elim

/-- A choice without skips agrees if each alternative does. -/
theorem JobAgrees.choice (plain : Matcher.recovers ms = false)
    (agrees : ∀ m ∈ ms, x.JobAgrees recovery remaining depth (.matcher m)) :
    x.JobAgrees recovery remaining depth (.matcher (.choice ms)) := by
  intro cx s o s' run clean
  cases run with
  | choice run =>
    rw [plain, Bool.false_and] at run
    refine .choice ?_
    rw [plain, Bool.false_and]
    exact jobAgrees_alternatives agrees rfl run clean

end Matchers

section Lists

variable {errorType : NodeRef}

/-- An element of an open list that has reported nothing is no skipped token. -/
theorem JobAgrees.element_success (agrees : x.JobAgrees recovery remaining depth (.matcher m))
    {values : List Value}
    (run : x.Runs (x.call remaining depth) (.matcher (.choice [m, .skip errorType])) cx s
      (.success values) s') (clean : s'.pending = s.pending) :
    (x.withRecovery recovery).Runs ((x.withRecovery recovery).call remaining depth)
      (.matcher (.choice [m, .skip errorType])) cx s (.success values) s' := by
  have settled := x.callsSettle remaining depth
  rcases run.choice_skip_cases settled with
    ⟨_, same, run⟩ | ⟨_, _, _, _, more, taken⟩ | ⟨_, _, _, _, none, _⟩ | ⟨_, _, none, _⟩
  · cases same
    exact .choice (.alternatives_success rfl (agrees _ _ _ _ run clean))
  · have reported := (taken.skip_takes settled).2.2.2
    rw [clean] at reported
    omega
  · cases none
  · cases none

/-- Where something closes an open list, the element and the skip both fail. -/
theorem JobAgrees.element_soft (agrees : x.JobAgrees recovery remaining depth (.matcher m))
    {f : Failure}
    (run : x.Runs (x.call remaining depth) (.matcher (.choice [m, .skip errorType])) cx s
      (.soft f) s') (closes : x.Closes cx s) :
    (x.withRecovery recovery).Runs ((x.withRecovery recovery).call remaining depth)
      (.matcher (.choice [m, .skip errorType])) cx s (.soft f) s' := by
  have settled := x.callsSettle remaining depth
  rcases run.choice_skip_cases settled with
    ⟨_, none, _⟩ | ⟨_, _, none, _⟩ | ⟨f₁, g, s₁, s₂, same, rfl, fails, refused⟩ | ⟨_, _, none, _⟩
  · cases none
  · cases none
  · cases same
    obtain ⟨rfl, rfl⟩ := refused.skip_soft settled
    have first := agrees _ _ _ _ fails trivial
    have there : (x.withRecovery recovery).Closes cx (s₁.rewind s.mark) :=
      closes.of_position_eq rfl
    exact .choice (.alternatives_soft rfl first
      (.alternatives_soft rfl (there.skip_refused errorType) .alternatives_nil))
  · cases none

/-- An element of an open list, if it matches, takes a token. -/
theorem Runs.element_moves {k : IdleFacts} (fits : k.Fits x.program)
    (takes : m.idles k = false) {values : List Value}
    (run : x.Runs (x.call remaining depth) (.matcher (.choice [m, .skip errorType])) cx s
      (.success values) s') : s.position < s'.position := by
  have settled := x.callsSettle remaining depth
  rcases run.choice_skip_cases settled with
    ⟨_, same, run⟩ | ⟨_, _, _, here, _, taken⟩ | ⟨_, _, _, _, none, _⟩ | ⟨_, _, none, _⟩
  · cases same
    exact run.position_lt fits takes
  · have took := (taken.skip_takes settled).2.2.1
    omega
  · cases none
  · cases none

/-- Without separators, every turn is one of the element. -/
theorem Runs.turn_unseparated {element : Matcher} {hasItems : Bool}
    (run : x.Runs call (.turn element none hasItems) cx s o s') :
    x.Runs call (.matcher element) cx s o s' := by
  cases run with
  | turn_first _ run => exact run

/-- The turns of an open list that report nothing and end where something closes the list. -/
theorem JobAgrees.turns {k : IdleFacts} (fits : k.Fits x.program)
    (takes : m.idles k = false) (agrees : x.JobAgrees recovery remaining depth (.matcher m))
    {job : Job} (run : x.Runs (x.call remaining depth) job cx s o s') :
    ∀ hasItems last items, job = .turns (.choice [m, .skip errorType]) none hasItems last →
      o = .success items → s'.pending = s.pending → x.Closes cx s' →
      (x.withRecovery recovery).Runs ((x.withRecovery recovery).call remaining depth)
        job cx s o s' := by
  have settled := x.callsSettle remaining depth
  induction run with
  | turns_next turn moved rest _ ih =>
    rintro _ _ _ ⟨⟩ ⟨⟩ clean closes
    have element := turn.turn_unseparated
    have behind : State.Onward _ _ := rest.settles settled
    have kept := pending_eq_of_onward (element.onward settled) behind clean
    have first := agrees.element_success element kept
    exact .turns_next (.turn_first (Or.inl rfl) first) moved
      (ih _ _ _ rfl rfl (clean.trans kept.symm) closes)
  | turns_soft turn _ =>
    rintro _ _ _ ⟨⟩ ⟨⟩ _ closes
    have last := agrees.element_soft turn.turn_unseparated (closes.of_position_eq rfl)
    exact .turns_soft (.turn_first (Or.inl rfl) last)
  | turns_idle turn idle _ =>
    rintro _ _ _ ⟨⟩ ⟨⟩ _ _
    have moved := turn.turn_unseparated.element_moves fits takes
    exact absurd ⟨moved, turn.turn_unseparated.position_le_last moved⟩ idle
  | turns_later | turns_hard => exact fun _ _ _ _ none => nomatch none
  | _ =>
    intro _ _ _ other
    cases other

/-- A list of elements any of which may be skipped is open. -/
theorem JobAgrees.list {k : IdleFacts} (fits : k.Fits x.program) (takes : m.idles k = false)
    (agrees : x.JobAgrees recovery remaining depth (.matcher m)) :
    x.OpenAgrees recovery remaining depth
      (.list .zeroOrMore (.choice [m, .skip errorType])) := by
  intro cx s values s' run clean closes
  cases run with
  | list run =>
    cases run with
    | repeated turns done =>
      rcases finishList_cases done with ⟨_, none, _⟩ | ⟨_, only, rfl⟩
      · cases none
      · have turns' := agrees.turns fits takes turns _ _ _ rfl rfl clean closes
        exact .list (.repeated turns' done)

end Lists

section Classes

variable {k : IdleFacts} {c : SkipClasses}

/-- Calls of closed and of open rules go the same way with recovery switched. -/
structure RulesAgree (x : Session) (recovery : Bool) (remaining depth : Nat) (c : SkipClasses) :
    Prop where
  closed : ∀ ref, c.closed ref = true →
    x.JobAgrees recovery remaining depth (.matcher (.rule ref))
  opens : ∀ ref, c.opens ref = true → x.OpenAgrees recovery remaining depth (.rule ref)

/-- A matcher of an open class agrees openly if the rules do. -/
theorem RulesAgree.open_matcher (rules : x.RulesAgree recovery remaining depth c)
    (idle : k.Fits x.program) (classes : c.Fits k x.program) (opens : m.isOpen k c = true) :
    x.OpenAgrees recovery remaining depth m := by
  unfold Matcher.isOpen at opens
  split at opens
  · exact rules.opens _ opens
  · next ref errorType =>
    simp only [Bool.and_eq_true, Bool.or_eq_true, Bool.not_eq_true'] at opens
    obtain ⟨element, takes⟩ := opens
    refine JobAgrees.list idle takes ?_
    rcases element with plain | closed
    · refine jobAgrees_of_skipless (classes.skipless (m := .rule ref) ?_)
      simpa [Matcher.isPlain, Matcher.parts, Matcher.staysWithin] using plain
    · exact rules.closed _ closed
  · cases opens

/-- Items of which those that may come to skips agree. -/
theorem RulesAgree.items (rules : x.RulesAgree recovery remaining depth c)
    (idle : k.Fits x.program) (classes : c.Fits k x.program)
    (agrees : ∀ m ∈ ms, m.isClosed k c = true → x.JobAgrees recovery remaining depth (.matcher m))
    (closed : Matcher.itemsClosed k c committed ms = true) :
    x.JobAgrees recovery remaining depth (.items committed ms) := by
  induction ms generalizing committed with
  | nil => exact jobAgrees_items_nil
  | cons m ms ih =>
    obtain ⟨first, others⟩ := List.forall_mem_cons.mp agrees
    rw [Matcher.itemsClosed] at closed
    split at closed
    · next cut => exact jobAgrees_items_cut cut (ih others closed)
    · next item =>
      rw [Bool.not_eq_true] at item
      simp only [Bool.or_eq_true, Bool.and_eq_true, List.isEmpty_iff] at closed
      rcases closed with (⟨plain, rest⟩ | ⟨rfl, last⟩) | ⟨rfl, region⟩
      · exact jobAgrees_items_cons (classes.skipless plain) item (ih others rest)
      · exact jobAgrees_items_last item (first last)
      · unfold Matcher.closesRegion at region
        split at region
        · simp only [Bool.and_eq_true, beq_iff_eq, List.all_eq_true] at region
          obtain ⟨⟨⟨opens, rfl⟩, rfl⟩, plain⟩ := region
          exact jobAgrees_items_region (rules.open_matcher idle classes opens)
            fun n among => classes.skipless (plain n among)
        · cases region

/-- What comes to skips in good order goes the same way with recovery switched. -/
theorem RulesAgree.closed_matcher (rules : x.RulesAgree recovery remaining depth c)
    (idle : k.Fits x.program) (classes : c.Fits k x.program) (closed : m.isClosed k c = true) :
    x.JobAgrees recovery remaining depth (.matcher m) := by
  induction m with
  | rule ref =>
    rw [Matcher.isClosed, Bool.or_eq_true] at closed
    rcases closed with plain | closed
    · exact jobAgrees_of_skipless (classes.skipless plain)
    · exact rules.closed ref closed
  | seq items ih =>
    rw [Matcher.isClosed, Bool.or_eq_true] at closed
    rcases closed with plain | closed
    · exact jobAgrees_of_skipless (classes.skipless plain)
    · exact (rules.items idle classes ih closed).seq
  | choice alternatives ih =>
    rw [Matcher.isClosed, Bool.or_eq_true] at closed
    rcases closed with plain | closed
    · exact jobAgrees_of_skipless (classes.skipless plain)
    · have each := Matcher.allClosed_iff.mp closed
      refine JobAgrees.choice (Matcher.recovers_eq_false_of_closed each) ?_
      exact fun m among => ih m among (each m among)
  | node type layout m ih =>
    rw [Matcher.isClosed, Bool.or_eq_true] at closed
    rcases closed with plain | closed
    · exact jobAgrees_of_skipless (classes.skipless plain)
    · exact (ih closed).node
  | _ =>
    simp only [Matcher.isClosed, Bool.or_false] at closed
    exact jobAgrees_of_skipless (classes.skipless closed)

/-- A call of a rule goes as the body of the rule. -/
theorem Runs.of_body {ref : RuleRef} {rule : Rule} (found : x.program.rule? ref = some rule)
    (new : cx.active.contains (ref, s.position) = false)
    (run : x.Runs (x.call remaining (depth + 1)) (.matcher rule.body)
      ⟨(ref, s.position) :: cx.active, cx.guards⟩ s o s') :
    x.Runs (x.call (remaining + 1) depth) (.matcher (.rule ref)) cx s o s' := by
  refine .rule (call_eq_ok_iff.mpr ⟨remaining, rfl, new, ?_⟩)
  rw [enter, found]
  exact computed_of_runs run

/-- On one level, a rule goes as its body goes on the level below. -/
theorem Runs.rule_cases {ref : RuleRef}
    (run : x.Runs (x.call (remaining + 1) depth) (.matcher (.rule ref)) cx s o s') :
    cx.active.contains (ref, s.position) = false ∧
      ((∃ rule, x.program.rule? ref = some rule ∧
        x.Runs (x.call remaining (depth + 1)) (.matcher rule.body)
          ⟨(ref, s.position) :: cx.active, cx.guards⟩ s o s') ∨
      (x.program.rule? ref = none ∧ o = .soft (.plain s.position) ∧
        s' = s.record (.plain s.position))) := by
  cases run with
  | rule called =>
    obtain ⟨rest, same, new, entered⟩ := call_eq_ok_iff.mp called
    cases same
    exact ⟨new, enter_cases entered⟩

/-- The rules of a program that are of their classes agree on every level. -/
theorem rulesAgree (recovery : Bool) (idle : k.Fits x.program) (classes : c.Fits k x.program)
    (remaining depth : Nat) : x.RulesAgree recovery remaining depth c := by
  induction remaining generalizing depth with
  | zero =>
    have none : ∀ {ref cx s o s'}, ¬ x.Runs (x.call 0 depth) (.matcher (.rule ref)) cx s o s' := by
      intro ref cx s o s' run
      cases run with
      | rule called =>
        obtain ⟨rest, none, _⟩ := call_eq_ok_iff.mp called
        cases none
    exact ⟨fun _ _ _ _ _ _ run => absurd run none, fun _ _ _ _ _ _ run => absurd run none⟩
  | succ remaining ih =>
    have below := ih (depth + 1)
    constructor
    · intro ref closed cx s o s' run clean
      obtain ⟨new, ⟨rule, found, body⟩ | ⟨missing, rfl, rfl⟩⟩ := run.rule_cases
      · have agrees := below.closed_matcher idle classes ((classes.at_rule found).2.1 closed)
        exact .of_body found new (agrees _ _ _ _ body clean)
      · exact .rule (call_eq_ok_iff.mpr ⟨remaining, rfl, new, by
          rw [enter, show (x.withRecovery recovery).program.rule? ref = none from missing]
          rfl⟩)
    · intro ref opens cx s values s' run clean closes
      obtain ⟨new, ⟨rule, found, body⟩ | ⟨_, none, _⟩⟩ := run.rule_cases
      · have agrees := below.open_matcher idle classes ((classes.at_rule found).2.2 opens)
        exact .of_body found new (agrees _ _ _ _ body clean closes)
      · cases none

/-- A run of an entry rule that takes an open list up to the end of the input, if it reports
nothing, goes the same way with recovery switched. -/
theorem run_agrees (recovery : Bool) (idle : k.Fits x.program) (classes : c.Fits k x.program)
    {ref list : RuleRef} {name : String} {type : NodeRef} {layout : List FieldKind} {keep : Bool}
    (entry : x.program.rule? ref = some
      ⟨name, .node type layout (.seq [.rule list, .token .termination none keep])⟩)
    (opens : c.opens list = true) {maxDepth : Nat} {values : List Value}
    (ran : x.run maxDepth ref (.initial 0) = .ok (.success values, s))
    (clean : s.pending = []) :
    (x.withRecovery recovery).run maxDepth ref (.initial 0) = .ok (.success values, s) := by
  have called : x.Runs (x.call maxDepth 0) (.matcher (.rule ref)) .empty (.initial 0)
      (.success values) s := .rule ran
  suffices other : (x.withRecovery recovery).Runs ((x.withRecovery recovery).call maxDepth 0)
      (.matcher (.rule ref)) .empty (.initial 0) (.success values) s by
    cases other with
    | rule called => exact called
  cases maxDepth with
  | zero =>
    obtain ⟨rest, none, _⟩ := call_eq_ok_iff.mp ran
    cases none
  | succ remaining =>
    obtain ⟨new, ⟨rule, found, body⟩ | ⟨_, none, _⟩⟩ := called.rule_cases
    · rw [entry] at found
      cases found
      obtain ⟨fields, rfl, operand⟩ := body.node_success
      obtain ⟨items, rest, s₁, rfl, first, later⟩ := operand.seq_success.items_success rfl
      have settled := x.callsSettle remaining 1
      have behind : State.Onward s₁ s := later.settles settled
      have kept := pending_eq_of_onward (first.onward settled) behind clean
      have ends : x.Closes ⟨[(ref, 0)], []⟩ s₁ := by
        obtain ⟨_, _, _, _, token, _⟩ := later.items_success rfl
        exact Or.inl (beq_iff_eq.mpr token.token_success.1.1)
      have list := (rulesAgree recovery idle classes remaining 1).opens list opens
        _ _ _ _ first kept ends
      have plain : SkiplessJob x.program (.items false [.token .termination none keep]) :=
        List.forall_mem_singleton.mpr Program.skipless_token
      have last := later.withRecovery recovery (x.callsAgree recovery remaining 1) plain
      exact .of_body entry new (.node (.seq (.items_next rfl list last)))
    · cases none

end Classes

end Session

end CombinatorGrammar
