import CombinatorGrammar.Proofs.Run.Levels

/-!
# Backtracking is transactional

A mark remembers how many diagnostics are pending, not which. Going back to it restores them
because a run only ever reports behind the diagnostics that it found, and takes back no more than
it reported. So a soft failure leaves no trace but the furthest failure, and every other end
leaves the diagnostics that were pending where they were.
-/

namespace CombinatorGrammar

namespace State

/-- The second state is at or behind the first, and has all of its diagnostics pending. -/
structure Onward (s s' : State) : Prop where
  position_le : s.position ≤ s'.position
  /-- The latest diagnostic is the head. -/
  pending_suffix : s.pending <:+ s'.pending

/-- The second state differs from the first in the furthest failure at most. -/
structure Unmoved (s s' : State) : Prop where
  position_eq : s'.position = s.position
  pending_eq : s'.pending = s.pending

namespace Onward

theorem refl (s : State) : s.Onward s := ⟨Nat.le_refl _, List.suffix_rfl⟩

theorem trans {s₁ s₂ s₃ : State} (h : s₁.Onward s₂) (h' : s₂.Onward s₃) : s₁.Onward s₃ :=
  ⟨Nat.le_trans h.position_le h'.position_le, h.pending_suffix.trans h'.pending_suffix⟩

/-- Diagnostics are only added. -/
theorem diagnostics_prefix {s s' : State} (h : s.Onward s') :
    s.diagnostics <+: s'.diagnostics := by
  simpa only [diagnostics, List.reverse_prefix] using h.pending_suffix

/-- Going back to the mark of a state undoes all that came behind it. -/
theorem rewind_mark {s s' : State} (h : s.Onward s') : s.Unmoved (s'.rewind s.mark) := by
  obtain ⟨reported, same⟩ := h.pending_suffix
  refine ⟨rfl, ?_⟩
  have count : s'.pending.length - s.pending.length = reported.length := by
    rw [← same, List.length_append]
    omega
  rw [rewind, mark, count, ← same, List.drop_left]

end Onward

namespace Unmoved

theorem refl (s : State) : s.Unmoved s := ⟨rfl, rfl⟩

theorem trans {s₁ s₂ s₃ : State} (h : s₁.Unmoved s₂) (h' : s₂.Unmoved s₃) : s₁.Unmoved s₃ :=
  ⟨h'.position_eq.trans h.position_eq, h'.pending_eq.trans h.pending_eq⟩

theorem onward {s s' : State} (h : s.Unmoved s') : s.Onward s' :=
  ⟨h.position_eq ▸ Nat.le_refl _, h.pending_eq ▸ List.suffix_rfl⟩

/-- A state that has not moved has the diagnostics it had. -/
theorem diagnostics_eq {s s' : State} (h : s.Unmoved s') : s'.diagnostics = s.diagnostics := by
  rw [diagnostics, diagnostics, h.pending_eq]

end Unmoved

/-- Recording a failure moves nothing. -/
theorem unmoved_record (s : State) (f : Failure) : s.Unmoved (s.record f) := ⟨rfl, rfl⟩

/-- A report goes onward. -/
theorem onward_report (s : State) (d : Diagnostic) : s.Onward (s.report d) :=
  ⟨Nat.le_refl _, List.suffix_cons d s.pending⟩

end State

/-- What a transaction that began in the state leaves behind: nothing at a soft failure, and
otherwise nothing taken away. -/
def Outcome.Settles (s : State) : Outcome → State → Prop
  | .soft _, s' => s.Unmoved s'
  | _, s' => s.Onward s'

/-- However an outcome settles, it goes onward. -/
theorem Outcome.Settles.onward {s s' : State} {o : Outcome} (h : o.Settles s s') :
    s.Onward s' := by
  cases o with
  | success values => exact h
  | soft f => exact State.Unmoved.onward h
  | hard f => exact h

namespace Session

variable {x : Session} {call : Call} {cx : Context} {s s' : State} {o : Outcome}

/-- To advance is to go onward. -/
theorem onward_advance (x : Session) (s : State) : s.Onward (x.advance s) := by
  unfold advance
  split
  · exact .refl s
  · exact ⟨Nat.le_succ _, List.suffix_rfl⟩

/-- What each job leaves behind. A choice settles what happened since its mark; the jobs that the
job around them still rewinds only go on. -/
def JobSettles : Job → State → Outcome → State → Prop
  | .matcher _, s, o, s' => o.Settles s s'
  | .repeated _ _ _, s, o, s' => o.Settles s s'
  | .alternatives _ start _ committed _, s, o, s' => ∀ s₀ : State, s₀.mark = start →
    s₀.Onward s → (committed = none → s₀.Unmoved s) → o.Settles s₀ s'
  | .items _ _, s, _, s' => s.Onward s'
  | .turn _ _ _, s, _, s' => s.Onward s'
  | .turns _ _ _ _, s, _, s' => s.Onward s'
  | .probe _, s, _, s' => s.Unmoved s'

/-- However a matcher settles, it goes onward. -/
theorem JobSettles.onward {m : Matcher} (h : JobSettles (.matcher m) s o s') : s.Onward s' :=
  Outcome.Settles.onward (o := o) h

/-- A list ends by giving back what it has done, or goes onward. -/
theorem finishList_settles {repetition : Repetition} {s₀ : State} {items : List Value}
    {last : Option Failure} (behind : s₀.Onward s)
    (h : finishList repetition s₀.mark items last s = .ok (o, s')) : o.Settles s₀ s' := by
  rcases finishList_cases h with ⟨_, rfl, rfl⟩ | ⟨_, rfl, rfl⟩
  · exact behind.rewind_mark
  · exact behind

/-- Every job is a transaction if the calls of rules are. -/
theorem Runs.settles {job : Job}
    (calls : ∀ ref active guards s o s',
      call ref active guards s = .ok (o, s') → o.Settles s s')
    (run : x.Runs call job cx s o s') : JobSettles job s o s' := by
  induction run with
  | token _ => exact onward_advance x _
  | token_fails _ => exact State.unmoved_record _ _
  | rule called => exact calls _ _ _ _ _ _ called
  | seq _ ih => exact ih
  | seq_soft _ ih => exact State.Onward.rewind_mark ih
  | seq_hard _ ih => exact ih
  | @choice _ _ s _ _ _ ih => exact ih s rfl (.refl s) fun _ => .refl s
  | opt _ ih => exact ih
  | opt_soft _ ih => exact (JobSettles.onward ih).rewind_mark.onward
  | opt_hard _ ih => exact ih
  | group _ ih => exact ih
  | group_soft _ ih => exact (JobSettles.onward ih).rewind_mark.onward
  | group_hard _ ih => exact ih
  | list _ ih => exact ih
  | sepList _ ih => exact ih
  | cut => exact .refl _
  | predicate _ _ ih => exact ih
  | predicate_rejects _ _ ih =>
    have undone := (JobSettles.onward ih).rewind_mark
    exact undone.trans (State.unmoved_record _ _)
  | predicate_fails _ _ ih => exact ih
  | @skip _ _ s s₁ _ _ _ _ ih =>
    have probed : s.Unmoved { s₁ with furthest := s.furthest } := ⟨ih.position_eq, ih.pending_eq⟩
    exact (probed.onward.trans (onward_advance x _)).trans (State.onward_report _ _)
  | @skip_guarded _ _ s s₁ _ _ _ _ ih =>
    have probed : s.Unmoved { s₁ with furthest := s.furthest } := ⟨ih.position_eq, ih.pending_eq⟩
    exact probed.trans (State.unmoved_record _ _)
  | skip_refused _ => exact State.unmoved_record _ _
  | protect _ ih => exact ih
  | null => exact .refl _
  | node _ ih => exact ih
  | node_fails _ _ ih => exact ih
  | enum _ ih => exact ih
  | enum_fails _ _ ih => exact ih
  | items_nil => exact .refl _
  | items_cut _ _ ih => exact ih
  | items_next _ _ _ ihm ihms => exact (JobSettles.onward ihm).trans ihms
  | items_later _ _ _ _ ihm ihms => exact (JobSettles.onward ihm).trans ihms
  | items_soft _ _ ih => exact JobSettles.onward ih
  | items_commit _ _ ih => exact JobSettles.onward ih
  | items_hard _ _ ih => exact ih
  | alternatives_nil => intro s₀ _ _ unmoved; exact unmoved rfl
  | alternatives_given_up => rintro s₀ rfl behind _; exact behind.rewind_mark.onward
  | alternatives_passed _ _ ih => exact ih
  | alternatives_success _ _ ih => intro s₀ _ behind _; exact behind.trans ih
  | alternatives_soft _ _ _ ihm ihms =>
    -- the next alternative begins where the choice began
    rintro s₀ rfl behind _
    have undone := (behind.trans (JobSettles.onward ihm)).rewind_mark
    exact ihms s₀ rfl undone.onward fun _ => undone
  | alternatives_recover _ _ _ ihm ihms =>
    -- the report stays pending while the skips are tried
    rintro s₀ rfl behind _
    have undone := (behind.trans (JobSettles.onward ihm)).rewind_mark
    exact ihms s₀ rfl (undone.onward.trans (State.onward_report _ _)) fun none => nomatch none
  | alternatives_hard _ _ ih => intro s₀ _ behind _; exact behind.trans ih
  | repeated _ done ih => exact finishList_settles ih done
  | repeated_hard _ ih => exact ih
  | turn_first _ _ ih => exact JobSettles.onward ih
  | turn_next _ _ ihs ihe => exact (JobSettles.onward ihs).trans (JobSettles.onward ihe)
  | turn_fails _ _ ih => exact JobSettles.onward ih
  | turns_next _ _ _ ih ihms => exact ih.trans ihms
  | turns_later _ _ _ ih ihms => exact ih.trans ihms
  | turns_hard _ ih => exact ih
  | turns_soft _ ih => exact ih.rewind_mark.onward
  | turns_idle _ _ ih => exact ih.rewind_mark.onward
  | probe_nil => exact .refl _
  | probe_match _ ih => exact (JobSettles.onward ih).rewind_mark
  | probe_next _ _ _ ihm ihms => exact (JobSettles.onward ihm).rewind_mark.trans ihms

/-- Every call of a rule is a transaction. -/
theorem call_settles {remaining depth : Nat} {ref : RuleRef} {active : List (RuleRef × Nat)}
    {guards : List Matcher}
    (h : x.call remaining depth ref active guards s = .ok (o, s')) : o.Settles s s' := by
  refine call_induction (Q := fun _ s o s' => o.Settles s s') ?_ h
  intro call calls ref active guards s o s' entered
  rcases enter_cases entered with ⟨rule, _, run⟩ | ⟨_, rfl, rfl⟩
  · exact run.settles calls
  · exact State.unmoved_record _ _

/-- All calls are transactions. -/
def CallsSettle (call : Call) : Prop :=
  ∀ ref active guards s o s', call ref active guards s = .ok (o, s') → o.Settles s s'

/-- On every level calls are transactions. -/
theorem callsSettle (x : Session) (remaining depth : Nat) : CallsSettle (x.call remaining depth) :=
  fun _ _ _ _ _ _ => call_settles

/-- Every run of a matcher goes onward. -/
theorem Runs.onward {m : Matcher} (settled : CallsSettle call)
    (run : x.Runs call (.matcher m) cx s o s') : s.Onward s' :=
  (run.settles settled).onward

/-- A session without rules on one token of kind 1. -/
def loneToken : Session where
  program := ⟨.initial, .empty, #[], #[], #[], ⟨0⟩⟩
  names := .initial
  tokens := .ofList [⟨⟨1⟩, .empty, ⟨0, 1⟩⟩] 1
  recovery := true

/-- Running any matcher, at any level and from any state, is a transaction: a soft failure leaves
the position and the pending diagnostics as they were, and every other outcome leaves a position
that is not before the first one and the diagnostics of before as a prefix of those of after. -/
theorem parser_transactional {remaining depth : Nat} {m : Matcher}
    {active : List (RuleRef × Nat)} {guards : List Matcher}
    (h : x.parser (x.call remaining depth) m
      ⟨active, guards.map (x.guard (x.call remaining depth))⟩ s = .ok (o, s')) :
    match o with
    | .soft _ => s'.position = s.position ∧ s'.diagnostics = s.diagnostics
    | _ => s.position ≤ s'.position ∧ s.diagnostics <+: s'.diagnostics := by
  have run : x.Runs _ (.matcher m) ⟨active, guards⟩ s o s' := runs_of_parser_eq h
  have settled : o.Settles s s' := run.settles fun _ _ _ _ _ _ => call_settles
  cases o with
  | success values => exact ⟨settled.position_le, settled.diagnostics_prefix⟩
  | soft f => exact ⟨settled.position_eq, settled.diagnostics_eq⟩
  | hard f => exact ⟨settled.position_le, settled.diagnostics_prefix⟩

/-- A token that was skipped in vain is given back, and so is the report of it. -/
theorem parser_transactional_skip :
    let note : Diagnostic := .trailingInput ⟨0, 0⟩ "an earlier one"
    let before : State := ⟨0, [note], none⟩
    let m : Matcher := .seq [.skip ⟨0⟩, .token ⟨1⟩ none true]
    ∃ f after, loneToken.parser (loneToken.call 0 0) m ⟨[], []⟩ before = .ok (.soft f, after) ∧
      after.position = 0 ∧ after.diagnostics = [note] := by
  intro note before m
  have ran : loneToken.parser (loneToken.call 0 0) m
      ⟨[], ([] : List Matcher).map (loneToken.guard (loneToken.call 0 0))⟩ before =
      .ok (.soft ⟨1, [.token ⟨1⟩ none]⟩, ⟨0, [note], some ⟨1, [.token ⟨1⟩ none]⟩⟩) := by
    rfl
  exact ⟨_, _, ran, parser_transactional ran⟩

end Session

end CombinatorGrammar
