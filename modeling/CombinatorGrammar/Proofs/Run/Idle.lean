import CombinatorGrammar.Proofs.Program.Idle
import CombinatorGrammar.Proofs.Run.Steps
import CombinatorGrammar.Proofs.Run.Transaction

/-!
# Runs that take no token

What a program is told to do before its first token is what its runs do: a matcher that matches
where it began may idle, and one that fails behind a cut where it began may break. A run never goes
beyond the termination token.
-/

namespace CombinatorGrammar

namespace Session

variable {x : Session} {call : Call} {cx : Context} {s s' : State} {o : Outcome}
  {k : IdleFacts}

/-- A token of another kind than termination is taken. -/
theorem position_lt_advance (inside : x.atEnd s = false) : s.position < (x.advance s).position := by
  rw [advance, inside]
  exact Nat.lt_succ_self _

/-- Nothing behind the termination token is taken. -/
theorem position_advance_le {n : Nat} (last : x.tokens.lastPosition ≤ n) (here : s.position ≤ n) :
    (x.advance s).position ≤ n := by
  unfold advance
  split
  · exact here
  · next inside =>
    have before : ¬ x.tokens.lastPosition ≤ s.position :=
      fun behind => inside ((x.tokens.isTermination_token s.position).mpr behind)
    change s.position + 1 ≤ n
    omega

/-- The cursor is at the end at the last position and behind it. -/
theorem atEnd_iff : x.atEnd s = true ↔ x.tokens.lastPosition ≤ s.position :=
  x.tokens.isTermination_token s.position

/-- A choice that has begun goes back no further than the given position. -/
def JobWithin (n : Nat) : Job → Prop
  | .alternatives _ start _ _ _ => start.position ≤ n
  | _ => True

/-- Calls do not go beyond the given position. -/
def CallsUpTo (n : Nat) (call : Call) : Prop :=
  ∀ ref active guards s o s', call ref active guards s = .ok (o, s') →
    s.position ≤ n → s'.position ≤ n

/-- No run goes beyond the termination token, or beyond where it began if that is further. -/
theorem Runs.position_le {n : Nat} {job : Job} (last : x.tokens.lastPosition ≤ n)
    (calls : CallsUpTo n call) (run : x.Runs call job cx s o s') :
    JobWithin n job → s.position ≤ n → s'.position ≤ n := by
  induction run with
  | token _ => exact fun _ here => position_advance_le last here
  | rule called => exact fun _ here => calls _ _ _ _ _ _ called here
  | choice _ ih => exact fun _ here => ih here here
  | skip _ _ _ ih =>
    intro _ here
    have probed := ih trivial here
    exact position_advance_le last probed
  | skip_guarded _ _ _ ih => exact fun _ here => ih trivial here
  | items_next _ _ _ ihm ihms | items_later _ _ _ _ ihm ihms | turn_next _ _ ihm ihms
  | turns_next _ _ _ ihm ihms | turns_later _ _ _ ihm ihms =>
    exact fun _ here => ihms trivial (ihm trivial here)
  | alternatives_given_up => exact fun within _ => within
  | alternatives_passed _ _ ih => exact ih
  | alternatives_soft _ _ _ _ ih | alternatives_recover _ _ _ _ ih =>
    exact fun within _ => ih within within
  | repeated _ done ih =>
    intro _ here
    rcases finishList_cases done with ⟨_, _, rfl⟩ | ⟨_, _, rfl⟩
    · exact here
    · exact ih trivial here
  | probe_next _ _ _ _ ihms => exact fun _ here => ihms trivial here
  | seq_soft | opt_soft | group_soft | predicate_rejects | turns_soft | turns_idle | probe_match =>
    exact fun _ here => here
  | token_fails | skip_refused | cut | null | items_nil | alternatives_nil | probe_nil =>
    exact fun _ here => here
  -- the others end where their only operand ends
  | _ =>
    rename_i ih
    exact fun _ here => ih trivial here

/-- No call goes beyond the termination token, or beyond where it began if that is further. -/
theorem call_position_le {n : Nat} (last : x.tokens.lastPosition ≤ n) {remaining depth : Nat}
    {ref : RuleRef} {active : List (RuleRef × Nat)} {guards : List Matcher}
    (h : x.call remaining depth ref active guards s = .ok (o, s')) (here : s.position ≤ n) :
    s'.position ≤ n := by
  refine call_induction (Q := fun _ s _ s' => s.position ≤ n → s'.position ≤ n) ?_ h here
  intro call calls ref active guards s o s' entered here
  rcases enter_cases entered with ⟨rule, _, run⟩ | ⟨_, _, rfl⟩
  · exact run.position_le last calls trivial here
  · exact here

/-- The calls of every remaining nesting depth keep the cursor up to the last position. -/
theorem callsUpTo {n : Nat} (last : x.tokens.lastPosition ≤ n) (remaining depth : Nat) :
    CallsUpTo n (x.call remaining depth) :=
  fun _ _ _ _ _ _ called => call_position_le last called

/-- The task stands no further than the given position, and goes back no further. -/
structure UpTo (n : Nat) (t : Task) : Prop where
  job : JobWithin n t.job
  state : t.state.position ≤ n

section

variable {n : Nat} {t t' : Task}

/-- What a task goes on with keeps the cursor up to the last position. -/
theorem Next.upTo (last : x.tokens.lastPosition ≤ n) (calls : CallsUpTo n call)
    (next : x.Next call t t') (h : UpTo n t) : UpTo n t' := by
  cases next with
  | opens opens =>
    cases opens with
    | choice => exact ⟨h.state, h.state⟩
    | alternatives_passed => exact ⟨h.job, h.state⟩
    | _ => exact ⟨trivial, h.state⟩
  | resumes resumes ends =>
    have run : x.Runs call _ _ _ _ _ := ends
    cases resumes with
    | items | turn => exact ⟨trivial, run.position_le last calls trivial h.state⟩
    | alternatives_soft | alternatives_recover => exact ⟨h.job, h.job⟩
    | turns moved => exact ⟨trivial, Nat.le_trans moved.2 last⟩
    | probe => exact ⟨trivial, h.state⟩

/-- What a task comes to keeps the cursor up to the last position. -/
theorem ComesTo.upTo (last : x.tokens.lastPosition ≤ n) (calls : CallsUpTo n call)
    (comes : x.ComesTo call t t') (h : UpTo n t) : UpTo n t' := by
  induction comes with
  | refl => exact h
  | tail _ next ih => exact next.upTo last calls ih

end

/-- What is known of calls: those that match where they began are told to idle, and those that
fail behind a cut where they began to break. -/
structure CallsIdle (k : IdleFacts) (call : Call) : Prop where
  idles : ∀ ref active guards s values s',
    call ref active guards s = .ok (.success values, s') → s'.position = s.position →
    k.idles ref = true
  breaks : ∀ ref active guards s f s', call ref active guards s = .ok (.hard f, s') →
    s'.position = s.position → k.breaks ref = true

/-- What each job is told to do if it matches where it began. -/
def JobIdles (k : IdleFacts) : Job → State → List Value → Prop
  | .matcher m, _, _ => m.idles k = true
  | .items _ ms, _, _ => Matcher.allIdle k ms = true
  | .alternatives _ start _ _ ms, s, _ => start.position = s.position →
    Matcher.someIdles k ms = true
  | .repeated repetition _ _, _, _ => repetition = .zeroOrMore
  | .turns _ _ _ _, _, items => items = []
  | .turn _ _ _, _, _ => True
  | .probe _, _, _ => True

/-- A job that matches where it began is told to, if calls are. -/
theorem Runs.idles {job : Job} (settled : CallsSettle call) (calls : CallsIdle k call)
    (run : x.Runs call job cx s o s') :
    ∀ values, o = .success values → s'.position = s.position → JobIdles k job s values := by
  induction run with
  | @token kind _ _ cx s matched =>
    intro values _ stays
    by_cases ends : x.atEnd s = true
    · change kind.isTermination = true
      rw [← matched.1]
      exact ends
    · rw [Bool.not_eq_true] at ends
      have took := position_lt_advance ends
      omega
  | rule called =>
    rintro values rfl stays
    exact calls.idles _ _ _ _ _ _ called stays
  | seq _ ih => exact ih
  | choice _ ih => exact fun values same stays => ih values same stays rfl
  | predicate _ _ ih | protect _ ih => exact ih
  | node _ ih | enum _ ih => exact fun _ _ stays => ih _ rfl stays
  | list _ ih | sepList _ ih =>
    exact fun values same stays => decide_eq_true (ih values same stays)
  | @skip _ _ s s₁ _ _ inside probed _ =>
    intro values _ stays
    have unmoved : State.Unmoved { s with furthest := none } s₁ := probed.settles settled
    have position : s₁.position = s.position := unmoved.position_eq
    have there : x.atEnd { s₁ with furthest := s.furthest } = false := by
      rw [← inside, atEnd, atEnd, current, current, position]
    have took := position_lt_advance there
    change (x.advance _).position = s.position at stays
    change s₁.position < _ at took
    omega
  | items_cut cut _ ih =>
    intro values same stays
    have rest := ih values same stays
    rename_i m _ _ _ _ _ _
    cases m with
    | cut => exact rest
    | _ => cases cut
  | items_next _ run later ihm ihms =>
    rintro values ⟨⟩ stays
    have first := (run.onward settled).position_le
    have second : State.Onward _ _ := later.settles settled
    have here := second.position_le
    have idle : Matcher.idles k _ = true := ihm _ rfl (by omega)
    have rest : Matcher.allIdle k _ = true := ihms _ rfl (by omega)
    exact Bool.and_eq_true_iff.mpr ⟨idle, rest⟩
  | alternatives_passed _ _ ih =>
    intro values same stays here
    simp only [Matcher.someIdles, ih values same stays here, Bool.or_true]
  | alternatives_success _ _ ih =>
    rintro values ⟨⟩ stays _
    simp only [Matcher.someIdles, show Matcher.idles k _ = true from ih _ rfl stays, Bool.true_or]
  | alternatives_soft _ _ _ _ ih | alternatives_recover _ _ _ _ ih =>
    intro values same stays here
    have rest : Matcher.someIdles k _ = true := ih values same (stays.trans here.symm) rfl
    simp only [Matcher.someIdles, rest, Bool.or_true]
  | @repeated repetition _ _ _ _ _ _ _ _ _ run done ih =>
    rintro values rfl stays
    rcases finishList_cases done with ⟨_, none, _⟩ | ⟨enough, _, rfl⟩
    · cases none
    · have empty : _ = [] := ih _ rfl stays
      cases repetition with
      | zeroOrMore => rfl
      | oneOrMore => exact absurd ⟨rfl, empty⟩ enough
  | turns_next _ moved later _ _ =>
    rintro values ⟨⟩ stays
    have rest : State.Onward _ _ := later.settles settled
    have behind := rest.position_le
    omega
  | opt | opt_soft | group | group_soft | cut | null | items_nil => exact fun _ _ _ => rfl
  | turn_first | turn_next | turn_fails | probe_nil | probe_match | probe_next =>
    exact fun _ _ _ => trivial
  | turns_soft | turns_idle =>
    rintro values ⟨⟩ _
    rfl
  | predicate_fails _ fails | node_fails _ fails | enum_fails _ fails
  | items_later _ _ _ fails =>
    rintro values rfl
    cases fails
  -- what fails does not match
  | _ => exact fun _ none => nomatch none

/-- What each job is told to do if it fails behind a cut where it began. -/
def JobBreaks (k : IdleFacts) : Job → State → Prop
  | .matcher m, _ => m.breaks k = true
  | .items committed ms, _ => Matcher.breaksBehind k committed ms = true
  | .alternatives recovers start _ committed ms, s => start.position = s.position →
    recovers = true ∨ committed.isSome = true ∨ Matcher.someBreaks k ms = true
  | .repeated _ element _, _ => element.breaks k = true
  | .turn element _ hasItems, _ => hasItems = false → element.breaks k = true
  | .turns element _ hasItems _, _ => hasItems = false → element.breaks k = true
  | .probe _, _ => True

/-- A job that fails behind a cut where it began is told to, if calls are. -/
theorem Runs.breaks {job : Job} (settled : CallsSettle call) (calls : CallsIdle k call)
    (run : x.Runs call job cx s o s') :
    ∀ f, o = .hard f → s'.position = s.position → JobBreaks k job s := by
  induction run with
  | rule called =>
    rintro f rfl stays
    exact calls.breaks _ _ _ _ _ _ called stays
  | seq_hard _ ih | opt_hard _ ih | group_hard _ ih => exact ih
  | choice _ ih =>
    intro f same stays
    rcases ih f same stays rfl with recovers | none | breaks
    · have skips := (Bool.and_eq_true_iff.mp recovers).1
      simp only [JobBreaks, Matcher.breaks, skips, Bool.true_or]
    · cases none
    · simp only [JobBreaks, Matcher.breaks, breaks, Bool.or_true]
  | list _ ih | sepList _ ih | predicate_fails _ _ ih | protect _ ih | node_fails _ _ ih
  | enum_fails _ _ ih => exact ih
  | items_cut cut _ ih =>
    intro f same stays
    simpa only [JobBreaks, Matcher.breaksBehind, cut, if_true] using ih f same stays
  | items_later cut run later _ ihm ihms =>
    intro f same stays
    have first := (run.onward settled).position_le
    have second : State.Onward _ _ := later.settles settled
    have here := second.position_le
    have idle : Matcher.idles k _ = true := run.idles settled calls _ rfl (by omega)
    have rest : Matcher.breaksBehind k _ _ = true := ihms f same (by omega)
    simp only [JobBreaks, Matcher.breaksBehind, cut, idle, rest, Bool.and_self, Bool.or_true,
      Bool.false_eq_true, if_false]
  | items_commit cut _ _ =>
    intro f _ _
    simp only [JobBreaks, Matcher.breaksBehind, cut, Bool.true_or, Bool.false_eq_true, if_false]
  | items_hard cut _ ih =>
    intro f same stays
    have breaks : Matcher.breaks k _ = true := ih f same stays
    simp only [JobBreaks, Matcher.breaksBehind, cut, breaks, Bool.or_true, Bool.true_or,
      Bool.false_eq_true, if_false]
  | alternatives_given_up => exact fun _ _ _ _ => Or.inr (Or.inl rfl)
  | alternatives_passed _ _ ih =>
    intro f same stays here
    refine (ih f same stays here).imp_right (Or.imp_right fun breaks => ?_)
    simp only [Matcher.someBreaks, breaks, Bool.or_true]
  | alternatives_soft _ _ _ _ ih =>
    intro f same stays here
    refine (ih f same (stays.trans here.symm) rfl).imp_right (Or.imp_right fun breaks => ?_)
    simp only [Matcher.someBreaks, breaks, Bool.or_true]
  | alternatives_recover => exact fun _ _ _ _ => Or.inl rfl
  | alternatives_hard _ _ ih =>
    intro f same stays _
    have breaks : Matcher.breaks k _ = true := ih f same stays
    exact Or.inr (Or.inr (by simp only [Matcher.someBreaks, breaks, Bool.true_or]))
  | repeated _ done =>
    rintro f rfl
    rcases finishList_cases done with ⟨_, none, _⟩ | ⟨_, none, _⟩ <;> cases none
  | repeated_hard _ ih => exact fun f same stays => ih f same stays rfl
  | turn_first _ _ ih => exact fun f same stays _ => ih f same stays
  | turn_next | turn_fails => exact fun _ _ _ none => nomatch none
  | turns_later _ moved later =>
    intro f _ stays
    have rest : State.Onward _ _ := later.settles settled
    have behind := rest.position_le
    omega
  | turns_hard _ ih => exact ih
  | probe_nil | probe_match | probe_next => exact fun _ _ _ => trivial
  -- what succeeds or fails softly does not fail behind a cut
  | _ => exact fun _ none => nomatch none

/-- Calls do what their rules are told to do, on every level. -/
theorem callsIdle_of_closed (closed : k.Closed x.program) (remaining depth : Nat) :
    CallsIdle k (x.call remaining depth) := by
  induction remaining generalizing depth with
  | zero =>
    constructor
    all_goals
      intro ref active guards s _ s' called
      obtain ⟨rest, none, _⟩ := call_eq_ok_iff.mp called
      cases none
  | succ remaining ih =>
    have settled := x.callsSettle remaining (depth + 1)
    constructor
    · intro ref active guards s values s' called stays
      obtain ⟨rest, same, _, entered⟩ := call_eq_ok_iff.mp called
      cases same
      rcases enter_cases entered with ⟨rule, found, run⟩ | ⟨_, none, _⟩
      · exact closed.idles _ _ found (run.idles settled (ih (depth + 1)) values rfl stays)
      · cases none
    · intro ref active guards s f s' called stays
      obtain ⟨rest, same, _, entered⟩ := call_eq_ok_iff.mp called
      cases same
      rcases enter_cases entered with ⟨rule, found, run⟩ | ⟨_, none, _⟩
      · exact closed.breaks _ _ found (run.breaks settled (ih (depth + 1)) f rfl stays)
      · cases none

/-- The calls of every remaining nesting depth succeed in place only for idle rules. -/
theorem callsIdle (fits : k.Fits x.program) (remaining depth : Nat) :
    CallsIdle k (x.call remaining depth) :=
  callsIdle_of_closed fits.closed remaining depth

section

variable {remaining depth : Nat} {m : Matcher} {values : List Value}

/-- What is not told to idle takes a token where it matches. -/
theorem Runs.position_lt (fits : k.Fits x.program) (takes : m.idles k = false)
    (run : x.Runs (x.call remaining depth) (.matcher m) cx s (.success values) s') :
    s.position < s'.position := by
  have settled := x.callsSettle remaining depth
  have behind := (run.onward settled).position_le
  have moved : s'.position ≠ s.position := by
    intro stays
    have idle : m.idles k = true :=
      run.idles settled (callsIdle fits remaining depth) values rfl stays
    rw [takes] at idle
    cases idle
  omega

/-- What is not told to break has taken a token where it fails behind a cut. -/
theorem Runs.position_lt_of_hard {f : Failure} (fits : k.Fits x.program)
    (holds : m.breaks k = false)
    (run : x.Runs (x.call remaining depth) (.matcher m) cx s (.hard f) s') :
    s.position < s'.position := by
  have settled := x.callsSettle remaining depth
  have behind := (run.onward settled).position_le
  have moved : s'.position ≠ s.position := by
    intro stays
    have breaks : m.breaks k = true :=
      run.breaks settled (callsIdle fits remaining depth) f rfl stays
    rw [holds] at breaks
    cases breaks
  omega

/-- A run that takes a token does not go beyond the termination token. -/
theorem Runs.position_le_last (run : x.Runs (x.call remaining depth) (.matcher m) cx s o s')
    (moved : s.position < s'.position) : s'.position ≤ x.tokens.lastPosition := by
  have bound : s'.position ≤ max s.position x.tokens.lastPosition :=
    run.position_le (Nat.le_max_right ..) (callsUpTo (Nat.le_max_right ..) remaining depth) trivial
      (Nat.le_max_left ..)
  omega

end

end Session

end CombinatorGrammar
