import CombinatorGrammar.Parse.Basic
import CombinatorGrammar.Proofs.Machine.Basic
import CombinatorGrammar.Proofs.Program.Resolution
import CombinatorGrammar.Proofs.Run.Descent
import CombinatorGrammar.Proofs.Run.Idle

/-!
# Runs do not depend on their context

What a matcher does is a matter of the position and the guards. The rules in progress and the levels
that are left can only stop a run; the furthest failure is never read; and of the diagnostics that
were pending before, a run counts no more than its marks give back. So a run that ends does the same
wherever fewer rules are in progress and more levels are left, and two runs that end are compared
with one that has no rules in progress at all.
-/

namespace CombinatorGrammar

section Parallel

variable {old old' : List Diagnostic}

/-- The states are at one position, and beyond two lists of older ones the same diagnostics are
pending in them. -/
structure State.Parallel (old old' : List Diagnostic) (s t : State) : Prop where
  position_eq : t.position = s.position
  pending : ∃ new, s.pending = new ++ old ∧ t.pending = new ++ old'

/-- The marks are at one position, and beyond two lists of older ones they count the same number of
diagnostics. -/
structure Mark.Parallel (old old' : List Diagnostic) (m n : Mark) : Prop where
  position_eq : n.position = m.position
  pending : ∃ count, m.pending = count + old.length ∧ n.pending = count + old'.length

namespace State.Parallel

variable {s t : State}

/-- Beyond all that is pending in two states nothing is pending in them. -/
theorem refl (position_eq : t.position = s.position) : s.Parallel s.pending t.pending t :=
  ⟨position_eq, [], rfl, rfl⟩

/-- Marks of parallel states are parallel. -/
theorem mark (h : s.Parallel old old' t) : s.mark.Parallel old old' t.mark := by
  obtain ⟨new, pending, pending'⟩ := h.pending
  refine ⟨h.position_eq, new.length, ?_, ?_⟩
  · rw [State.mark, pending, List.length_append]
  · rw [State.mark, pending', List.length_append]

/-- Going back to parallel marks leads to parallel states, since no older diagnostics are given
back. -/
theorem rewind {m n : Mark} (h : s.Parallel old old' t) (marks : m.Parallel old old' n) :
    (s.rewind m).Parallel old old' (t.rewind n) := by
  obtain ⟨new, pending, pending'⟩ := h.pending
  obtain ⟨count, counts, counts'⟩ := marks.pending
  have given (older : List Diagnostic) :
      (new ++ older).drop ((new ++ older).length - (count + older.length)) =
        new.drop (new.length - count) ++ older := by
    rw [List.length_append, Nat.add_sub_add_right, List.drop_append_of_le_length (Nat.sub_le ..)]
  refine ⟨marks.position_eq, new.drop (new.length - count), ?_, ?_⟩
  · rw [State.rewind, pending, counts, given]
  · rw [State.rewind, pending', counts', given]

/-- Recording failures, the same or not, keeps states parallel. -/
theorem record (h : s.Parallel old old' t) (f g : Failure) :
    (s.record f).Parallel old old' (t.record g) :=
  ⟨h.position_eq, h.pending⟩

theorem withFurthest (h : s.Parallel old old' t) (f g : Option Failure) :
    State.Parallel old old' { s with furthest := f } { t with furthest := g } :=
  ⟨h.position_eq, h.pending⟩

/-- One more diagnostic on both sides keeps states parallel. -/
theorem report (h : s.Parallel old old' t) (d : Diagnostic) :
    (s.report d).Parallel old old' (t.report d) := by
  obtain ⟨new, pending, pending'⟩ := h.pending
  refine ⟨h.position_eq, d :: new, ?_, ?_⟩
  · rw [State.report, pending, List.cons_append]
  · rw [State.report, pending', List.cons_append]

end State.Parallel

/-- The same job, with parallel marks. -/
def Job.Parallel (old old' : List Diagnostic) : Job → Job → Prop
  | .alternatives recovers start best committed ms, job =>
    ∃ start', start.Parallel old old' start' ∧
      job = .alternatives recovers start' best committed ms
  | job, job' => job' = job

/-- The job has no mark to go back to. -/
def Job.Unmarked : Job → Prop
  | .alternatives _ _ _ _ _ => False
  | _ => True

/-- A task without marks is parallel only to itself. -/
theorem Job.Unmarked.parallel_iff {job job' : Job} (h : job.Unmarked) :
    job.Parallel old old' job' ↔ job' = job := by
  cases job with
  | alternatives => exact h.elim
  | _ => exact .rfl

namespace Session

variable {x : Session} {call call' : Call} {job : Job} {cx : Context} {s s' t : State} {o : Outcome}

/-- Parallel states see the same token. -/
theorem current_eq_of_parallel (h : s.Parallel old old' t) : x.current t = x.current s := by
  rw [current, current, h.position_eq]

theorem atEnd_eq_of_parallel (h : s.Parallel old old' t) : x.atEnd t = x.atEnd s := by
  rw [atEnd, atEnd, current_eq_of_parallel h]

/-- Parallel states advance to parallel states. -/
theorem advance_parallel (h : s.Parallel old old' t) :
    (x.advance s).Parallel old old' (x.advance t) := by
  rw [advance, advance, atEnd_eq_of_parallel h]
  split
  · exact h
  · exact ⟨congrArg (· + 1) h.position_eq, h.pending⟩

/-- The tokens consumed in between are the same on both sides. -/
theorem spanSince_eq_of_parallel {s₁ t₁ : State} (before : s.Parallel old old' t)
    (behind : s₁.Parallel old old' t₁) : x.spanSince t t₁ = x.spanSince s s₁ := by
  rw [spanSince, spanSince, before.position_eq, behind.position_eq]

/-- A list ends alike from parallel states. -/
theorem finishList_parallel {repetition : Repetition} {start start' : Mark} {items : List Value}
    {last : Option Failure} (h : finishList repetition start items last s = .ok (o, s'))
    (marks : start.Parallel old old' start') (states : s.Parallel old old' t) :
    ∃ t', finishList repetition start' items last t = .ok (o, t') ∧ s'.Parallel old old' t' := by
  unfold finishList at h ⊢
  split at h
  · next lacking =>
    obtain ⟨rfl, rfl⟩ := Prod.mk.inj (Except.ok.inj h)
    rw [if_pos lacking, marks.position_eq]
    exact ⟨_, rfl, states.rewind marks⟩
  · next enough =>
    obtain ⟨rfl, rfl⟩ := Prod.mk.inj (Except.ok.inj h)
    rw [if_neg enough]
    exact ⟨_, rfl, states⟩

/-- What ends in calls of the first kind ends alike in calls of the second kind, from every parallel
state and with fewer rules in progress. -/
def CallsTransfer (old old' : List Diagnostic) (call call' : Call) : Prop :=
  ∀ ref active guards s o s', call ref active guards s = .ok (o, s') →
    ∀ active' t, active' ⊆ active → s.Parallel old old' t →
      ∃ t', call' ref active' guards t = .ok (o, t') ∧ s'.Parallel old old' t'

/-- From every parallel state and with fewer rules in progress, the job ends in calls of the second
kind with this outcome in a state that is parallel to this one. -/
def Transfers (x : Session) (call' : Call) (old old' : List Diagnostic) (job : Job) (cx : Context)
    (s : State) (o : Outcome) (s' : State) : Prop :=
  ∀ job' active t, job.Parallel old old' job' → active ⊆ cx.active → s.Parallel old old' t →
    ∃ t', x.Runs call' job' ⟨active, cx.guards⟩ t o t' ∧ s'.Parallel old old' t'

section Transfers

variable {part rest : Job} {cx₁ : Context} {s₁ : State} {o₁ : Outcome}

/-- A job that ends where its only part ends. -/
theorem Transfers.whole (h : x.Transfers call' old old' part cx₁ s o₁ s')
    (begins : part.Unmarked) (unmarked : job.Unmarked) (active_eq : cx₁.active = cx.active)
    (whole : ∀ active t t', x.Runs call' part ⟨active, cx₁.guards⟩ t o₁ t' →
      s.Parallel old old' t → s'.Parallel old old' t' →
      x.Runs call' job ⟨active, cx.guards⟩ t o t') :
    x.Transfers call' old old' job cx s o s' := by
  intro job' active t same fewer states
  obtain rfl := unmarked.parallel_iff.mp same
  obtain ⟨t', run, ends⟩ := h part active t (begins.parallel_iff.mpr rfl) (active_eq ▸ fewer) states
  exact ⟨t', whole active t t' run states ends, ends⟩

/-- A job that goes back to where it began when its only part has ended. -/
theorem Transfers.back (h : x.Transfers call' old old' part cx s o₁ s₁) (begins : part.Unmarked)
    (unmarked : job.Unmarked)
    (whole : ∀ active t t₁, x.Runs call' part ⟨active, cx.guards⟩ t o₁ t₁ →
      s.Parallel old old' t → s₁.Parallel old old' t₁ →
      x.Runs call' job ⟨active, cx.guards⟩ t o (t₁.rewind t.mark)) :
    x.Transfers call' old old' job cx s o (s₁.rewind s.mark) := by
  intro job' active t same fewer states
  obtain rfl := unmarked.parallel_iff.mp same
  obtain ⟨t₁, run, ends⟩ := h part active t (begins.parallel_iff.mpr rfl) fewer states
  exact ⟨_, whole active t t₁ run states ends, ends.rewind states.mark⟩

/-- A job that ends where the second of its two parts ends. -/
theorem Transfers.behind (h : x.Transfers call' old old' part cx s o₁ s₁) {o₂ : Outcome}
    (later : x.Transfers call' old old' rest cx s₁ o₂ s') (begins : part.Unmarked)
    (goesOn : rest.Unmarked) (unmarked : job.Unmarked)
    (whole : ∀ active t t₁ t', x.Runs call' part ⟨active, cx.guards⟩ t o₁ t₁ →
      x.Runs call' rest ⟨active, cx.guards⟩ t₁ o₂ t' →
      s.Parallel old old' t → s₁.Parallel old old' t₁ →
      x.Runs call' job ⟨active, cx.guards⟩ t o t') :
    x.Transfers call' old old' job cx s o s' := by
  intro job' active t same fewer states
  obtain rfl := unmarked.parallel_iff.mp same
  obtain ⟨t₁, first, between⟩ := h part active t (begins.parallel_iff.mpr rfl) fewer states
  obtain ⟨t', second, ends⟩ :=
    later rest active t₁ (goesOn.parallel_iff.mpr rfl) fewer between
  exact ⟨t', whole active t t₁ t' first second states between, ends⟩

end Transfers

section Constructs

variable {m : Matcher} {ms : List Matcher} {f : Failure} {s₁ : State} {o₁ : Outcome}

/-- The current token is the same, so it is taken in both states. -/
theorem transfers_token {kind : TokenKind} {text : Option Name} {keep : Bool}
    (matched : (x.current s).kind = kind ∧ text.all (· = (x.current s).text)) :
    x.Transfers call' old old' (.matcher (.token kind text keep)) cx s
      (.success (if keep then [.token (x.current s)] else [])) (x.advance s) := by
  rintro _ active t rfl _ states
  rw [← current_eq_of_parallel states] at matched ⊢
  exact ⟨_, .token matched, advance_parallel states⟩

/-- The current token is the same, so it is missed in both states, at their one position. -/
theorem transfers_token_fails {kind : TokenKind} {text : Option Name} {keep : Bool}
    (mismatched : ¬ ((x.current s).kind = kind ∧ text.all (· = (x.current s).text))) :
    x.Transfers call' old old' (.matcher (.token kind text keep)) cx s
      (.soft ⟨s.position, [.token kind text]⟩) (s.record ⟨s.position, [.token kind text]⟩) := by
  rintro _ active t rfl _ states
  rw [← current_eq_of_parallel states] at mismatched
  rw [← states.position_eq]
  exact ⟨_, .token_fails mismatched, states.record _ _⟩

/-- A rule does what the call of it does. -/
theorem transfers_rule (calls : CallsTransfer old old' call call') {ref : RuleRef}
    (called : call ref cx.active cx.guards s = .ok (o, s')) :
    x.Transfers call' old old' (.matcher (.rule ref)) cx s o s' := by
  rintro _ active t rfl fewer states
  obtain ⟨t', called', ends⟩ := calls _ _ _ _ _ _ called active t fewer states
  exact ⟨t', .rule called', ends⟩

/-- The alternatives of a choice go back to parallel marks, since the choice begins in parallel
states. -/
theorem Transfers.choice (h : x.Transfers call' old old'
      (.alternatives (Matcher.recovers ms && x.recovery) s.mark none none ms) cx s o s') :
    x.Transfers call' old old' (.matcher (.choice ms)) cx s o s' := by
  rintro _ active t rfl fewer states
  obtain ⟨t', run, ends⟩ := h _ active t ⟨t.mark, states.mark, rfl⟩ fewer states
  exact ⟨t', .choice run, ends⟩

/-- What a predicate rejects is undone, and has failed where it began. -/
theorem Transfers.predicate_rejects {ref : PredicateRef} {values : List Value}
    (h : x.Transfers call' old old' (.matcher m) cx s (.success values) s₁)
    (rejects : ((x.program.predicate? ref).any fun p =>
      values.head?.any fun value => p.check x.program.schema x.names value) = false) :
    x.Transfers call' old old' (.matcher (.predicate ref m)) cx s
      (.soft ⟨s.position, [.predicate ref]⟩)
      ((s₁.rewind s.mark).record ⟨s.position, [.predicate ref]⟩) := by
  rintro _ active t rfl fewer states
  obtain ⟨t₁, run, ends⟩ := h _ active t rfl fewer states
  rw [← states.position_eq]
  exact ⟨_, .predicate_rejects run rejects, (ends.rewind states.mark).record _ _⟩

section Skips

variable {errorType : NodeRef} (recovers : x.recovery = true) (inside : x.atEnd s = false)

include recovers inside

/-- A token that no guard is found at is skipped in both states, and reported. -/
theorem Transfers.skip
    (h : x.Transfers call' old old' (.probe cx.guards) cx { s with furthest := none } (.soft f)
      s₁) :
    x.Transfers call' old old' (.matcher (.skip errorType)) cx s
      (.success [.node errorType (x.current { s₁ with furthest := s.furthest }).span []])
      ((x.advance { s₁ with furthest := s.furthest }).report
        (.skippedToken (x.current { s₁ with furthest := s.furthest }).span
          (x.describeFound (x.current { s₁ with furthest := s.furthest })))) := by
  rintro _ active t rfl fewer states
  obtain ⟨t₁, run, ends⟩ := h _ active _ rfl fewer (states.withFurthest none none)
  have probed := ends.withFurthest s.furthest t.furthest
  have inside' := (atEnd_eq_of_parallel states).trans inside
  rw [← current_eq_of_parallel probed]
  exact ⟨_, .skip recovers inside' run, (advance_parallel probed).report _⟩

/-- A token at which a guard is found is skipped in neither state. -/
theorem Transfers.skip_guarded {values : List Value}
    (h : x.Transfers call' old old' (.probe cx.guards) cx { s with furthest := none }
      (.success values) s₁) :
    x.Transfers call' old old' (.matcher (.skip errorType)) cx s (.soft (.plain s₁.position))
      (State.record { s₁ with furthest := s.furthest } (.plain s₁.position)) := by
  rintro _ active t rfl fewer states
  obtain ⟨t₁, run, ends⟩ := h _ active _ rfl fewer (states.withFurthest none none)
  have probed := ends.withFurthest s.furthest t.furthest
  have inside' := (atEnd_eq_of_parallel states).trans inside
  refine ⟨_, ?_, probed.record _ (.plain t₁.position)⟩
  rw [← ends.position_eq]
  exact .skip_guarded recovers inside' run

end Skips

/-- At the end, or without recovery, nothing is skipped in either state. -/
theorem transfers_skip_refused {errorType : NodeRef}
    (refused : x.recovery = false ∨ x.atEnd s = true) :
    x.Transfers call' old old' (.matcher (.skip errorType)) cx s (.soft (.plain s.position))
      (s.record (.plain s.position)) := by
  rintro _ active t rfl _ states
  rw [← atEnd_eq_of_parallel states] at refused
  rw [← states.position_eq]
  exact ⟨_, .skip_refused refused, states.record _ _⟩

section Alternatives

variable {recovers : Bool} {start : Mark} {best committed : Option Failure}

/-- An alternative decides the choice in both states, or in neither. -/
theorem Transfers.alternatives_decide (h : x.Transfers call' old old' (.matcher m) cx s o s')
    (whole : ∀ start' active t t', x.Runs call' (.matcher m) ⟨active, cx.guards⟩ t o t' →
      x.Runs call' (.alternatives recovers start' best committed (m :: ms)) ⟨active, cx.guards⟩ t
        o t') :
    x.Transfers call' old old' (.alternatives recovers start best committed (m :: ms)) cx s o
      s' := by
  rintro _ active t ⟨start', marks, rfl⟩ fewer states
  obtain ⟨t', run, ends⟩ := h _ active t rfl fewer states
  exact ⟨t', whole start' active t t' run, ends⟩

/-- Behind an alternative that fails softly, the others begin where the choice began. -/
theorem Transfers.alternatives_soft (tried : (committed.isSome && !m.isSkip) = false)
    (first : x.Transfers call' old old' (.matcher m) cx s (.soft f) s₁)
    (later : x.Transfers call' old old'
      (.alternatives recovers start (some (best.elim f (·.further f))) committed ms) cx
      (s₁.rewind start) o s') :
    x.Transfers call' old old' (.alternatives recovers start best committed (m :: ms)) cx s o
      s' := by
  rintro _ active t ⟨start', marks, rfl⟩ fewer states
  obtain ⟨t₁, run, between⟩ := first _ active t rfl fewer states
  obtain ⟨t', rest, ends⟩ :=
    later _ active _ ⟨start', marks, rfl⟩ fewer (between.rewind marks)
  exact ⟨t', .alternatives_soft tried run rest, ends⟩

/-- A failure that a choice recovers from is reported in both states, where the choice began. -/
theorem Transfers.alternatives_recover (tried : (committed.isSome && !m.isSkip) = false)
    (first : x.Transfers call' old old' (.matcher m) cx s (.hard f) s₁)
    (later : x.Transfers call' old old' (.alternatives true start best (some f) ms) cx
      (x.reportRecovered f (s₁.rewind start)) o s') :
    x.Transfers call' old old' (.alternatives true start best committed (m :: ms)) cx s o s' := by
  rintro _ active t ⟨start', marks, rfl⟩ fewer states
  obtain ⟨t₁, run, between⟩ := first _ active t rfl fewer states
  obtain ⟨t', rest, ends⟩ := later _ active _ ⟨start', marks, rfl⟩ fewer
    ((between.rewind marks).report _)
  exact ⟨t', .alternatives_recover tried run rest, ends⟩

end Alternatives

/-- A list is finished alike behind turns that ended alike. -/
theorem Transfers.repeated {repetition : Repetition} {element : Matcher}
    {separator : Option Matcher} {last : Option Failure} {items : List Value}
    (h : x.Transfers call' old old' (.turns element separator false last) cx s (.success items) s₁)
    (done : finishList repetition s.mark items last s₁ = .ok (o, s')) :
    x.Transfers call' old old' (.repeated repetition element separator) cx s o s' := by
  rintro _ active t rfl fewer states
  obtain ⟨t₁, run, between⟩ := h _ active t rfl fewer states
  obtain ⟨t', done', ends⟩ := finishList_parallel done states.mark between
  exact ⟨t', .repeated run done', ends⟩

section Guards

variable {guard : Matcher} {guards : List Matcher}

/-- A guard that is found is found in both states: it is attempted with no rules in progress on
either side. -/
theorem Transfers.probe_match {values : List Value}
    (h : x.Transfers call' old old' (.matcher guard) .empty s (.success values) s₁) :
    x.Transfers call' old old' (.probe (guard :: guards)) cx s (.success values)
      (s₁.rewind s.mark) := by
  rintro _ active t rfl _ states
  obtain ⟨t₁, run, ends⟩ := h _ [] t rfl (List.nil_subset _) states
  exact ⟨_, .probe_match run, ends.rewind states.mark⟩

/-- Behind a guard that is not found, the others are attempted where it was. -/
theorem Transfers.probe_next (fails : o₁.isSuccess = false)
    (first : x.Transfers call' old old' (.matcher guard) .empty s o₁ s₁)
    (later : x.Transfers call' old old' (.probe guards) cx (s₁.rewind s.mark) o s') :
    x.Transfers call' old old' (.probe (guard :: guards)) cx s o s' := by
  rintro _ active t rfl fewer states
  obtain ⟨t₁, run, between⟩ := first _ [] t rfl (List.nil_subset _) states
  obtain ⟨t', rest, ends⟩ := later _ active _ rfl fewer (between.rewind states.mark)
  exact ⟨t', .probe_next run fails rest, ends⟩

end Guards

end Constructs

/-- A run that ends also ends from every parallel state and with fewer rules in progress, with the
same outcome in a parallel state. -/
theorem Runs.transfers (calls : CallsTransfer old old' call call')
    (run : x.Runs call job cx s o s') : x.Transfers call' old old' job cx s o s' := by
  induction run with
  | token matched => exact transfers_token matched
  | token_fails mismatched => exact transfers_token_fails mismatched
  | rule called => exact transfers_rule calls called
  | seq _ ih => exact ih.whole trivial trivial rfl fun _ _ _ run _ _ => .seq run
  | seq_soft _ ih => exact ih.back trivial trivial fun _ _ _ run _ _ => .seq_soft run
  | seq_hard _ ih => exact ih.whole trivial trivial rfl fun _ _ _ run _ _ => .seq_hard run
  | choice _ ih => exact ih.choice
  | opt _ ih => exact ih.whole trivial trivial rfl fun _ _ _ run _ _ => .opt run
  | opt_soft _ ih => exact ih.back trivial trivial fun _ _ _ run _ _ => .opt_soft run
  | opt_hard _ ih => exact ih.whole trivial trivial rfl fun _ _ _ run _ _ => .opt_hard run
  | group _ ih => exact ih.whole trivial trivial rfl fun _ _ _ run _ _ => .group run
  | group_soft _ ih => exact ih.back trivial trivial fun _ _ _ run _ _ => .group_soft run
  | group_hard _ ih => exact ih.whole trivial trivial rfl fun _ _ _ run _ _ => .group_hard run
  | list _ ih => exact ih.whole trivial trivial rfl fun _ _ _ run _ _ => .list run
  | sepList _ ih => exact ih.whole trivial trivial rfl fun _ _ _ run _ _ => .sepList run
  | predicate _ holds ih =>
    exact ih.whole trivial trivial rfl fun _ _ _ run _ _ => .predicate run holds
  | predicate_rejects _ rejects ih => exact ih.predicate_rejects rejects
  | predicate_fails _ fails ih =>
    exact ih.whole trivial trivial rfl fun _ _ _ run _ _ => .predicate_fails run fails
  | skip recovers inside _ ih => exact ih.skip recovers inside
  | skip_guarded recovers inside _ ih => exact ih.skip_guarded recovers inside
  | skip_refused refused => exact transfers_skip_refused refused
  | protect _ ih => exact ih.whole trivial trivial rfl fun _ _ _ run _ _ => .protect run
  | cut =>
    rintro _ active t rfl _ states
    exact ⟨t, .cut, states⟩
  | null =>
    rintro _ active t rfl _ states
    exact ⟨t, .null, states⟩
  | node _ ih =>
    refine ih.whole trivial trivial rfl fun _ _ _ run states ends => ?_
    rw [← spanSince_eq_of_parallel states ends]
    exact .node run
  | node_fails _ fails ih =>
    exact ih.whole trivial trivial rfl fun _ _ _ run _ _ => .node_fails run fails
  | enum _ ih =>
    refine ih.whole trivial trivial rfl fun _ _ _ run states ends => ?_
    rw [← spanSince_eq_of_parallel states ends]
    exact .enum run
  | enum_fails _ fails ih =>
    exact ih.whole trivial trivial rfl fun _ _ _ run _ _ => .enum_fails run fails
  | items_nil =>
    rintro _ active t rfl _ states
    exact ⟨t, .items_nil, states⟩
  | items_cut cut _ ih =>
    exact ih.whole trivial trivial rfl fun _ _ _ run _ _ => .items_cut cut run
  | items_next item _ _ ihm ihms =>
    exact ihm.behind ihms trivial trivial trivial fun _ _ _ _ first later _ _ =>
      .items_next item first later
  | items_later item _ _ fails ihm ihms =>
    exact ihm.behind ihms trivial trivial trivial fun _ _ _ _ first later _ _ =>
      .items_later item first later fails
  | items_soft item _ ih =>
    exact ih.whole trivial trivial rfl fun _ _ _ run _ _ => .items_soft item run
  | items_commit item _ ih =>
    exact ih.whole trivial trivial rfl fun _ _ _ run _ _ => .items_commit item run
  | items_hard item _ ih =>
    exact ih.whole trivial trivial rfl fun _ _ _ run _ _ => .items_hard item run
  -- the rest of a choice begins in other states than its mark
  | alternatives_nil =>
    rintro _ active t ⟨start', marks, rfl⟩ _ states
    rw [← marks.position_eq]
    exact ⟨t, .alternatives_nil, states⟩
  | alternatives_given_up =>
    rintro _ active t ⟨start', marks, rfl⟩ _ states
    exact ⟨_, .alternatives_given_up, states.rewind marks⟩
  | alternatives_passed passed _ ih =>
    rintro _ active t ⟨start', marks, rfl⟩ fewer states
    obtain ⟨t', run, ends⟩ := ih _ active t ⟨start', marks, rfl⟩ fewer states
    exact ⟨t', .alternatives_passed passed run, ends⟩
  | alternatives_success tried _ ih =>
    exact ih.alternatives_decide fun _ _ _ _ run => .alternatives_success tried run
  | alternatives_soft tried _ _ ihm ihms => exact ihm.alternatives_soft tried ihms
  | alternatives_recover tried _ _ ihm ihms => exact ihm.alternatives_recover tried ihms
  | alternatives_hard tried _ ih =>
    exact ih.alternatives_decide fun _ _ _ _ run => .alternatives_hard tried run
  | repeated _ done ih => exact ih.repeated done
  | repeated_hard _ ih =>
    exact ih.whole trivial trivial rfl fun _ _ _ run _ _ => .repeated_hard run
  | turn_first without _ ih =>
    exact ih.whole trivial trivial rfl fun _ _ _ run _ _ => .turn_first without run
  | turn_next _ _ ihs ihe =>
    exact ihs.behind ihe trivial trivial trivial fun _ _ _ _ first later _ _ =>
      .turn_next first later
  | turn_fails _ fails ih =>
    exact ih.whole trivial trivial rfl fun _ _ _ run _ _ => .turn_fails run fails
  | turns_next _ moved _ ihm ihms =>
    refine ihm.behind ihms trivial trivial trivial fun _ _ _ _ first later states between => ?_
    rw [← states.position_eq, ← between.position_eq] at moved
    exact .turns_next first moved later
  | turns_later _ moved _ ihm ihms =>
    refine ihm.behind ihms trivial trivial trivial fun _ _ _ _ first later states between => ?_
    rw [← states.position_eq, ← between.position_eq] at moved
    exact .turns_later first moved later
  | turns_hard _ ih => exact ih.whole trivial trivial rfl fun _ _ _ run _ _ => .turns_hard run
  | turns_soft _ ih => exact ih.back trivial trivial fun _ _ _ run _ _ => .turns_soft run
  | turns_idle _ idle ih =>
    refine ih.back trivial trivial fun _ _ _ run states ends => ?_
    rw [← states.position_eq, ← ends.position_eq] at idle
    exact .turns_idle run idle
  | probe_nil =>
    rintro _ active t rfl _ states
    rw [← states.position_eq]
    exact ⟨t, .probe_nil, states⟩
  | probe_match _ ih => exact ih.probe_match
  | probe_next _ fails _ ihm ihms => exact ihm.probe_next fails ihms

/-- A call that ends also ends where more levels are left and fewer rules are in progress. -/
theorem callsTransfer (x : Session) {remaining remaining' : Nat} (more : remaining ≤ remaining')
    (depth depth' : Nat) :
    CallsTransfer old old' (x.call remaining depth) (x.call remaining' depth') := by
  induction remaining generalizing remaining' depth depth' with
  | zero =>
    intro ref active guards s o s' called
    obtain ⟨rest, none, _⟩ := call_eq_ok_iff.mp called
    cases none
  | succ remaining ih =>
    intro ref active guards s o s' called active' t fewer states
    obtain ⟨rest, same, new, entered⟩ := call_eq_ok_iff.mp called
    obtain rfl := Nat.succ.inj same
    obtain ⟨rest', rfl⟩ := Nat.exists_eq_add_of_le' (Nat.le_trans (Nat.succ_pos _) more)
    have new' : active'.contains (ref, t.position) = false := by
      rw [← Bool.not_eq_true, List.contains_iff_mem] at new ⊢
      rw [states.position_eq]
      exact fun among => new (fewer among)
    have calls := ih (Nat.le_of_succ_le_succ more) (depth + 1) (depth' + 1)
    rcases enter_cases entered with ⟨rule, found, body⟩ | ⟨missing, rfl, rfl⟩
    · have fewer' : (ref, t.position) :: active' ⊆ (ref, s.position) :: active := by
        rw [states.position_eq]
        exact List.cons_subset_cons _ fewer
      obtain ⟨t', body', ends⟩ := body.transfers calls _ _ t rfl fewer' states
      refine ⟨t', call_eq_ok_iff.mpr ⟨rest', rfl, new', ?_⟩, ends⟩
      rw [enter, found]
      exact parser_eq_ok_iff.mpr body'
    · refine ⟨t.record (.plain t.position), call_eq_ok_iff.mpr ⟨rest', rfl, new', ?_⟩,
        states.record _ _⟩
      rw [enter, missing, states.position_eq]
      rfl

end Session

end Parallel

/-- The engine in which the task is begun. -/
def Begun.engine (b : Begun) : Engine :=
  ⟨b.task.state, ⟨b.depth, b.remaining⟩, b.task.cx.active, b.task.cx.guards⟩

/-- An engine at the same position with the same guards, in which no rule is in progress, nothing
has failed or been reported, and so many levels are left. -/
def Engine.fresh (e : Engine) (levels : Nat) : Engine :=
  ⟨.initial e.state.position, .ofLimit levels, [], e.guards⟩

/-- The result of an attempt that ends with the outcome. -/
def Outcome.answer (x : Session) : Outcome → Except AttemptFailure (List Value)
  | success values => .ok values
  | soft f => .error ⟨f.position, false, x.describeExpected f⟩
  | hard f => .error ⟨f.position, true, x.describeExpected f⟩

namespace Session

variable {x : Session} {m : Matcher} {e e' : Engine} {s s' : State} {o o' : Outcome} {b c : Begun}

/-- What ends in one engine ends alike in an engine at the same position with the same guards, with
no other rules in progress and at least as many levels left. -/
theorem exists_result (ended : e.result x m = .ok (o, s)) (e' : Engine)
    (here : e'.state.position = e.state.position) (guards : e'.guards = e.guards)
    (fewer : e'.active ⊆ e.active) (more : e.nesting.remaining ≤ e'.nesting.remaining) :
    ∃ s', e'.result x m = .ok (o, s') ∧ s'.position = s.position ∧ ∃ reported,
      s.diagnostics = e.state.diagnostics ++ reported ∧
      s'.diagnostics = e'.state.diagnostics ++ reported := by
  have run : x.Runs _ (.matcher m) e.context e.state o s := parser_eq_ok_iff.mp ended
  obtain ⟨s', run', ends⟩ := run.transfers
    (callsTransfer x more e.nesting.depth e'.nesting.depth) _ e'.active e'.state rfl fewer
    (.refl here)
  have same : e'.context = ⟨e'.active, e.context.guards⟩ := by rw [Engine.context, guards]; rfl
  rw [← same] at run'
  obtain ⟨new, pending, pending'⟩ := ends.pending
  refine ⟨s', parser_eq_ok_iff.mpr run', ends.position_eq, new.reverse, ?_, ?_⟩
  · rw [State.diagnostics, pending, List.reverse_append, State.diagnostics]
  · rw [State.diagnostics, pending', List.reverse_append, State.diagnostics]

/-- A run that has ended ends alike in an engine of its own, with its own diagnostics only. -/
theorem exists_result_fresh (ended : e.result x m = .ok (o, s)) (levels : Nat)
    (more : e.nesting.remaining ≤ levels) :
    ∃ s', (e.fresh levels).result x m = .ok (o, s') ∧ s'.position = s.position ∧
      s.diagnostics = e.state.diagnostics ++ s'.diagnostics := by
  obtain ⟨s', ended', stays, reported, adds, adds'⟩ :=
    exists_result ended (e.fresh levels) rfl rfl (List.nil_subset _) more
  obtain rfl : s'.diagnostics = reported := adds'
  exact ⟨s', ended', stays, adds⟩

/-- Two runs that end, from one position and with the same guards, end alike: each of them ends as
it would in one engine that is fresh for both. -/
theorem result_unique (here : e.state.position = e'.state.position) (guards : e.guards = e'.guards)
    (ended : e.result x m = .ok (o, s)) (ended' : e'.result x m = .ok (o', s')) :
    o = o' ∧ s.position = s'.position ∧ ∃ reported,
      s.diagnostics = e.state.diagnostics ++ reported ∧
      s'.diagnostics = e'.state.diagnostics ++ reported := by
  let levels := max e.nesting.remaining e'.nesting.remaining
  obtain ⟨t, fresh, position, adds⟩ := exists_result_fresh ended levels (Nat.le_max_left ..)
  obtain ⟨t', fresh', position', adds'⟩ := exists_result_fresh ended' levels (Nat.le_max_right ..)
  have same : e.fresh levels = e'.fresh levels := by rw [Engine.fresh, here, guards]; rfl
  rw [same, fresh'] at fresh
  obtain ⟨rfl, rfl⟩ := Prod.mk.inj (Except.ok.inj fresh)
  exact ⟨rfl, position.symm.trans position', _, adds, adds'⟩

/-- What ends in an engine ends alike when the engine has gone back to where it was. -/
theorem exists_result_rewind (ended : e.result x m = .ok (o, s)) :
    ∃ s', ({ e with state := s }.rewind e.state.mark).result x m = .ok (o, s') ∧
      s'.position = s.position ∧ s'.diagnostics = s.diagnostics := by
  have run : x.Runs _ (.matcher m) e.context e.state o s := parser_eq_ok_iff.mp ended
  have rewound := (run.onward (x.callsSettle _ _)).rewind_mark
  obtain ⟨s', ended', stays, reported, adds, adds'⟩ :=
    exists_result ended ({ e with state := s }.rewind e.state.mark) rfl rfl (List.Subset.refl _)
      (Nat.le_refl _)
  refine ⟨s', ended', stays, ?_⟩
  rw [adds', adds]
  exact congrArg (· ++ reported) rewound.diagnostics_eq

/-- What is begun in a run is at a token, and on the levels of the run. -/
structure Reached (x : Session) (maxDepth : Nat) (b : Begun) : Prop where
  upTo : UpTo x.tokens.lastPosition b.task
  levels : b.remaining ≤ maxDepth

/-- What begins in a reached situation is reached. -/
theorem Begins.reached {maxDepth : Nat} (begins : x.Begins b c) (h : x.Reached maxDepth b) :
    x.Reached maxDepth c := by
  have calls := callsUpTo (Nat.le_refl x.tokens.lastPosition) b.remaining b.depth
  cases begins with
  | first first =>
    cases first with
    | opens opens => exact ⟨Next.upTo (Nat.le_refl _) calls (.opens opens) h.upTo, h.levels⟩
    | enters => exact ⟨⟨trivial, h.upTo.state⟩, Nat.le_of_succ_le h.levels⟩
  | next ends resumes =>
    exact ⟨Next.upTo (Nat.le_refl _) calls (.resumes resumes ends) h.upTo, h.levels⟩

/-- What an attempt comes to is reached from its entry. -/
theorem reached_of_begins {maxDepth position : Nat} {root : RuleRef}
    (here : position ≤ x.tokens.lastPosition)
    (begins : Relation.ReflTransGen x.Begins (.ofRule maxDepth root position) b) :
    x.Reached maxDepth b := by
  induction begins with
  | refl => exact ⟨⟨trivial, here⟩, Nat.le_refl _⟩
  | tail _ next ih => exact next.reached ih

end Session

namespace Program

variable {p : Program} {names : Interner} {tokens : TokenStream} {config : ParseConfig}

/-- An attempt answers what its run ends with, and is stopped as its run is. -/
theorem attempt_eq_map (p : Program) (names : Interner) (tokens : TokenStream)
    (config : ParseConfig) (ref : RuleRef) (start : Nat) :
    p.attempt names tokens config ref start =
      ((p.session names tokens config).run config.maxDepth ref
        (.initial (min start tokens.lastPosition))).map fun r =>
          ⟨r.1.answer (p.session names tokens config), r.2.position, r.2.diagnostics⟩ := by
  rw [attempt]
  rcases (p.session names tokens config).run config.maxDepth ref
    (.initial (min start tokens.lastPosition)) with fault | ⟨values | f | f, s⟩ <;> rfl

/-- An attempt answers with what the run of its rule gives. -/
theorem attempt_eq_of_run {ref : RuleRef} {start : Nat} {o : Outcome} {s : State}
    (ran : (p.session names tokens config).run config.maxDepth ref
      (.initial (min start tokens.lastPosition)) = .ok (o, s)) :
    p.attempt names tokens config ref start =
      .ok ⟨o.answer (p.session names tokens config), s.position, s.diagnostics⟩ := by
  rw [attempt_eq_map, ran]
  rfl

/-- The result of a matcher does not depend on its context. Two engines may differ in what is
pending, what has failed, the levels and the rules in progress: if they are at one position with
the same guards and neither run is stopped, both end with the same outcome at the same position and
report the same. When an engine has gone back, running the matcher again gives the same answer. And
wherever a run comes outside of all regions, a rule that is not stopped there does just what an
attempt of the rule does at that position. -/
theorem context_independent (p : Program) (names : Interner) (tokens : TokenStream)
    (config : ParseConfig) :
    let x := p.session names tokens config
    (∀ (m : Matcher) (e e' : Engine) o o' s s', e.state.position = e'.state.position →
      e.guards = e'.guards → e.result x m = .ok (o, s) → e'.result x m = .ok (o', s') →
      o = o' ∧ s.position = s'.position ∧ ∃ reported,
        s.diagnostics = e.state.diagnostics ++ reported ∧
        s'.diagnostics = e'.state.diagnostics ++ reported) ∧
    (∀ (m : Matcher) (e : Engine) o s, e.result x m = .ok (o, s) →
      ∃ s', ({ e with state := s }.rewind e.state.mark).result x m = .ok (o, s') ∧
        s'.position = s.position ∧ s'.diagnostics = s.diagnostics) ∧
    ∀ root start b ref o s,
      Relation.ReflTransGen x.Begins
        (.ofRule config.maxDepth root (min start tokens.lastPosition)) b →
      b.engine.guards = [] → b.engine.result x (.rule ref) = .ok (o, s) →
      ∃ reported, s.diagnostics = b.engine.state.diagnostics ++ reported ∧
        p.attempt names tokens config ref b.engine.state.position =
          .ok ⟨o.answer x, s.position, reported⟩ := by
  refine ⟨fun m e e' o o' s s' here guards => Session.result_unique here guards,
    fun m e o s => Session.exists_result_rewind, ?_⟩
  intro root start b ref o s begins unguarded ended
  obtain ⟨upTo, levels⟩ := Session.reached_of_begins (Nat.min_le_right ..) begins
  obtain ⟨s', ended', stays, adds⟩ := Session.exists_result_fresh ended _ levels
  have here : min b.engine.state.position tokens.lastPosition = b.engine.state.position :=
    Nat.min_eq_left upTo.state
  have fresh : b.engine.fresh config.maxDepth =
      .initial config.maxDepth (min b.engine.state.position tokens.lastPosition) := by
    rw [Engine.fresh, unguarded, here, Engine.initial]
  rw [fresh, Engine.result_initial] at ended'
  refine ⟨s'.diagnostics, adds, ?_⟩
  rw [attempt_eq_of_run ended', stays]

end Program

/-- The program of two rules, of which the first one is a token and then the second one, which is a
token too. -/
def twoTokens : Program where
  vocabulary := .initial
  schema := .empty
  rules := #[⟨"two", .seq [.token ⟨1⟩ none true, .rule ⟨1⟩]⟩, ⟨"one", .token ⟨1⟩ none true⟩]
  signatures := #[]
  predicates := #[]
  entry := ⟨0⟩

/-- Behind the first of two tokens, the second rule does what an attempt of it does there. -/
theorem context_independent_twoTokens :
    let x := twoTokens.session .initial (tokensOf [1, 1]) ⟨16, true⟩
    ∃ b : Begun, Relation.ReflTransGen x.Begins (.ofRule 16 ⟨0⟩ 0) b ∧
      b.task.job = .matcher (.rule ⟨1⟩) ∧ b.engine.state.position = 1 ∧ b.engine.guards = [] ∧
      ∃ o s, b.engine.result x (.rule ⟨1⟩) = .ok (o, s) ∧ ∃ reported,
        s.diagnostics = b.engine.state.diagnostics ++ reported ∧
        twoTokens.attempt .initial (tokensOf [1, 1]) ⟨16, true⟩ ⟨1⟩ 1 =
          .ok ⟨o.answer x, s.position, reported⟩ := by
  intro x
  let cx : Context := ⟨[(⟨0⟩, 0)], []⟩
  let b : Begun := ⟨15, 1, ⟨.matcher (.rule ⟨1⟩), cx, ⟨1, [], none⟩⟩⟩
  have first : Begun.Ends x ⟨15, 1, ⟨.matcher (.token ⟨1⟩ none true), cx, .initial 0⟩⟩
      (.success [.token ⟨⟨1⟩, .empty, .point 0⟩]) ⟨1, [], none⟩ :=
    Session.Runs.token ⟨rfl, rfl⟩
  have begins : Relation.ReflTransGen x.Begins (.ofRule 16 ⟨0⟩ 0) b :=
    .tail (.tail (.tail (.tail .refl (.first (.enters rfl rfl))) (.first (.opens .seq)))
      (.next first (.items rfl))) (.first (.opens (.item rfl)))
  obtain ⟨_, _, attempts⟩ :=
    Program.context_independent twoTokens .initial (tokensOf [1, 1]) ⟨16, true⟩
  exact ⟨b, begins, rfl, rfl, rfl, _, _, rfl, attempts ⟨0⟩ 0 b ⟨1⟩ _ _ begins rfl rfl⟩

end CombinatorGrammar
