import CombinatorGrammar.Proofs.Machine.Basic
import CombinatorGrammar.Proofs.Run.Idle

/-!
# The engine does what the interpreter computes

From every configuration in which a matcher is to be run, steps lead to the configuration in which
this has ended, with the outcome and the state that the interpreter computes, or with its fault. The
frames below are not touched, and in the engine nothing but the state has changed. The proof is by
induction on the levels of nesting that remain, then on the matcher, and in a list on the tokens
that are left.
-/

namespace CombinatorGrammar

namespace Session

variable {x : Session} {c d : Configuration} {e e' : Engine} {frames : List Frame} {r r' : Step}
  {m : Matcher} {ms : List Matcher} {s : State}

/-- The configuration leads to the end of a part of a run above the frames, with the result, and
then the engine differs from the given one in its state at most. -/
def Lands (x : Session) (c : Configuration) (e : Engine) (frames : List Frame) : Step → Prop
  | .ok (o, s) => x.LeadsTo c ⟨.answer o, { e with state := s }, frames⟩
  | .error fault => ∃ s, x.LeadsTo c ⟨.raise fault, { e with state := s }, frames⟩

/-- What leads to a configuration that lands lands alike. -/
theorem Lands.of_leadsTo (before : x.LeadsTo c d) (h : x.Lands d e frames r) :
    x.Lands c e frames r := by
  rcases r with fault | ⟨o, s⟩
  · obtain ⟨s, behind⟩ := h
    exact ⟨s, before.trans behind⟩
  · exact before.trans h

/-- What steps to a configuration that lands lands alike. -/
theorem Lands.of_step (next : x.step c = some d) (h : x.Lands d e frames r) :
    x.Lands c e frames r :=
  h.of_leadsTo (.single next)

/-- What a parser has computed at once has landed. -/
theorem lands_ofStep (r : Step) : x.Lands (.ofStep { e with state := s } frames r) e frames r := by
  rcases r with fault | ⟨o, s⟩
  · exact ⟨_, .refl⟩
  · exact .refl

/-- A part of a run lands below the frame that waits for it if it does so for each outcome of the
part, and if a fault of the part is the fault of the whole. -/
theorem Lands.behind {f : Frame} (h : x.Lands c e' (f :: frames) r)
    (closes : ∀ s, ∃ s', f.close { e' with state := s } = { e with state := s' })
    (goes : ∀ o s, r = .ok (o, s) →
      x.Lands (x.resume f o { e' with state := s } frames) e frames r')
    (stops : ∀ fault, r = .error fault → r' = .error fault) : x.Lands c e frames r' := by
  rcases r with fault | ⟨o, s⟩
  · obtain ⟨s, stopped⟩ := h
    obtain ⟨s', closed⟩ := closes s
    rw [stops fault rfl]
    exact ⟨s', stopped.tail (by rw [step, closed])⟩
  · exact (goes o s rfl).of_leadsTo (h.tail rfl)

/-- From every state, in the engine the matcher lands with what its parser computes. -/
def Performs (x : Session) (e : Engine) (m : Matcher) : Prop :=
  ∀ s frames, x.Lands ⟨.eval m, { e with state := s }, frames⟩ e frames
    (x.parser (e.call x) m (e.context.scope x (e.call x)) s)

-- the interpreter is unfolded by these equations throughout
attribute [local simp] parser operands sequence ordered probe

/-- The items of a sequence land with what the interpreter computes for them. -/
theorem lands_items (performs : ∀ m ∈ ms, x.Performs e m) {start : Mark} {committed : Bool}
    {values : List Value} :
    x.Lands (nextItem start committed values ms { e with state := s } frames) e frames
      (sequence start committed values (x.operands (e.call x) ms)
        (e.context.scope x (e.call x)) s) := by
  induction ms generalizing committed values s with
  | nil => exact .refl
  | cons m ms ih =>
    obtain ⟨first, others⟩ := List.forall_mem_cons.mp performs
    simp only [nextItem, operands, sequence]
    split
    · exact ih others
    · refine (first s _).behind (fun s => ⟨s, rfl⟩) (fun o s ran => ?_) (fun fault stopped => ?_)
      · rw [ran]
        cases o with
        | success more => exact ih others
        | soft f => cases committed <;> exact .refl
        | hard f => exact .refl
      · rw [stopped]

/-- The alternatives of a choice land with what the interpreter computes for them. -/
theorem lands_alternatives (performs : ∀ m ∈ ms, x.Performs e m) {recovers : Bool} {start : Mark}
    {best committed : Option Failure} :
    x.Lands (nextAlternative recovers start best committed ms { e with state := s } frames) e frames
      (x.ordered recovers start best committed (x.operands (e.call x) ms)
        (e.context.scope x (e.call x)) s) := by
  induction ms generalizing best committed s with
  | nil => cases committed <;> exact .refl
  | cons m ms ih =>
    obtain ⟨first, others⟩ := List.forall_mem_cons.mp performs
    simp only [nextAlternative, operands, ordered]
    split
    · exact ih others
    · refine (first s _).behind (fun s => ⟨s, rfl⟩) (fun o s ran => ?_) (fun fault stopped => ?_)
      · rw [ran]
        cases o with
        | success values => exact .refl
        | soft f => cases best <;> exact ih others
        | hard f =>
          cases recovers with
          | true => exact ih others
          | false => exact .refl
      · rw [stopped]

/-- A turn of a list does not go back, and it does not go beyond the termination token. -/
theorem position_of_turn {element : Matcher} {separator : Option Matcher} {hasItems : Bool}
    {o : Outcome} {s' : State}
    (ran : turn (x.parser (e.call x) element) (separator.map (x.parser (e.call x))) hasItems
      (e.context.scope x (e.call x)) s = .ok (o, s')) :
    s.position ≤ s'.position ∧ s'.position ≤ max s.position x.tokens.lastPosition := by
  have derived : ∀ m, x.Derived (e.call x) e.context m := fun _ _ _ _ ran => runs_of_parser_eq ran
  have run := runs_of_turn (derived element) (fun m _ => derived m) ran
  have onward : s.Onward s' := run.settles (x.callsSettle _ _)
  exact ⟨onward.position_le, run.position_le (Nat.le_max_right ..)
    (callsUpTo (Nat.le_max_right ..) _ _) trivial (Nat.le_max_left ..)⟩

section

variable {element separator : Parser} {scope : Scope} {s₁ : State}

/-- Behind a separator that has matched, a turn is its element. -/
theorem turn_behind {values : List Value} (ran : separator scope s = .ok (.success values, s₁)) :
    turn element (some separator) true scope s = element scope s₁ := by
  simp only [turn, if_true, ran]

/-- A turn fails as its separator does. -/
theorem turn_given_back {o : Outcome} (ran : separator scope s = .ok (o, s₁))
    (fails : o.isSuccess = false) :
    turn element (some separator) true scope s = .ok (o, s₁) := by
  simp only [turn, if_true, ran]
  cases o with
  | success values => cases fails
  | soft f | hard f => rfl

end

/-- The turns of a list land with what the interpreter computes for them. -/
theorem lands_turns (l : ListRun) (elements : x.Performs e l.element)
    (separators : ∀ m ∈ l.separator, x.Performs e m) {items : List Value} :
    x.Lands (nextTurn l items { e with state := s } frames) e frames
      (x.repeated (x.parser (e.call x) l.element) (l.separator.map (x.parser (e.call x)))
        l.repetition l.start (e.context.scope x (e.call x)) items s) := by
  induction left : x.tokens.lastPosition - s.position using Nat.strongRecOn
    generalizing items s with
  | ind n ih =>
    -- the element of the turn, begun behind its separator if it has one
    have behind {s₁ : State}
        (same : turn (x.parser (e.call x) l.element) (l.separator.map (x.parser (e.call x)))
            (!items.isEmpty) (e.context.scope x (e.call x)) s =
          x.parser (e.call x) l.element (e.context.scope x (e.call x)) s₁) :
        x.Lands ⟨.eval l.element, { e with state := s₁ }, .element l items s.mark :: frames⟩
          e frames
          (x.repeated (x.parser (e.call x) l.element) (l.separator.map (x.parser (e.call x)))
            l.repetition l.start (e.context.scope x (e.call x)) items s) := by
      refine (elements s₁ _).behind (fun s => ⟨s, rfl⟩) (fun o s' ran => ?_)
        (fun fault stopped => ?_)
      · rw [← same] at ran
        cases o with
        | success values =>
          obtain ⟨onward, within⟩ := position_of_turn ran
          by_cases stays : s'.position = s.position
          · rw [repeated_idle ran (by omega), resume, if_pos (by exact stays)]
            exact lands_ofStep _
          · rw [repeated_success ran (by omega), resume, if_neg (by exact stays)]
            exact ih _ (by omega) rfl
        | soft f =>
          rw [repeated_soft ran]
          exact lands_ofStep _
        | hard f =>
          rw [repeated_hard ran]
          exact .refl
      · rw [← same] at stopped
        rw [repeated, stopped]
    rw [nextTurn]
    split
    · next separator given =>
      have parsers : l.separator.map (x.parser (e.call x)) =
          some (x.parser (e.call x) separator) := by rw [given, Option.map_some]
      split
      · next none => exact behind (by rw [parsers, none]; rfl)
      · next more =>
        rw [Bool.not_eq_true] at more
        refine (separators separator given s _).behind (fun s => ⟨s, rfl⟩) (fun o s₁ ran => ?_)
          (fun fault stopped => ?_)
        · cases o with
          | success values => exact behind (by rw [parsers, more]; exact turn_behind ran)
          | soft f =>
            rw [repeated_soft (by rw [parsers, more]; exact turn_given_back ran rfl)]
            exact lands_ofStep _
          | hard f =>
            rw [repeated_hard (by rw [parsers, more]; exact turn_given_back ran rfl)]
            exact .refl
        · rw [repeated, parsers, more, turn]
          simp only [Bool.not_false, if_true, stopped]
    · next none => exact behind (by rw [none]; rfl)

/-- What a skip does when the attempts of the guards have ended, where `furthest` was the furthest
failure before them. -/
def skipBehind (x : Session) (errorType : NodeRef) (furthest : Option Failure) :
    Except Fault (Bool × State) → Step
  | .error fault => .error fault
  | .ok (true, s) => State.fail { s with furthest := furthest } (.plain s.position)
  | .ok (false, s) =>
    let s := { s with furthest := furthest }
    let t := x.current s
    ((x.advance s).report (.skippedToken t.span (x.describeFound t))).yield
      [.node errorType t.span []]

/-- A skip that is not refused attempts the guards with no failure known, and goes on behind them.
-/
theorem skipToken_eq {errorType : NodeRef} {scope : Scope} :
    x.skipToken errorType scope s =
      if !x.recovery || x.atEnd s then s.fail (.plain s.position)
      else x.skipBehind errorType s.furthest (probe { s with furthest := none } scope.guards) := by
  rw [skipToken, guarded]
  split
  · rfl
  · rcases probe { s with furthest := none } scope.guards with fault | ⟨matched | _, s'⟩ <;> rfl

/-- The guards of a skip land with what the interpreter computes for them. -/
theorem lands_guards (performs : ∀ m ∈ ms, x.Performs e.clear m) {errorType : NodeRef}
    {furthest : Option Failure} :
    x.Lands
      (x.nextGuard errorType ⟨e.active, e.guards, furthest⟩ ms { e.clear with state := s } frames)
      e frames (x.skipBehind errorType furthest (probe s (ms.map (x.guard (e.call x))))) := by
  induction ms generalizing s with
  | nil => exact .refl
  | cons m ms ih =>
    obtain ⟨first, others⟩ := List.forall_mem_cons.mp performs
    simp only [nextGuard, List.map_cons, probe]
    refine (first s _).behind (fun s => ⟨_, rfl⟩) (fun o s₁ ran => ?_) (fun fault stopped => ?_)
    · have attempt : (x.guard (e.call x) m).attempt s = .ok (o, s₁) := ran
      rw [attempt, resume]
      cases o with
      | success values => exact .refl
      | soft f => exact ih others
      | hard f => exact ih others
    · have attempt : (x.guard (e.call x) m).attempt s = .error fault := stopped
      rw [attempt]
      rfl

/-- A matcher whose parser only looks at the result of an operand lands if the operand does, and if
behind each outcome the frame goes on as the parser does. -/
theorem Performs.of_operand {m n : Matcher} (f : State → Frame) (combine : Parser → Parser)
    (performs : x.Performs e n)
    (starts : ∀ s frames, x.start m { e with state := s } frames =
      ⟨.eval n, { e with state := s }, f s :: frames⟩)
    (closes : ∀ s e, (f s).close e = e)
    (parses : ∀ scope s, x.parser (e.call x) m scope s =
      combine (fun _ _ => x.parser (e.call x) n scope s) scope s)
    (goes : ∀ scope s o s' frames, x.Lands (x.resume (f s) o { e with state := s' } frames) e frames
      (combine (fun _ _ => .ok (o, s')) scope s))
    (stops : ∀ scope s fault, combine (fun _ _ => .error fault) scope s = .error fault) :
    x.Performs e m := by
  intro s frames
  refine Lands.of_step (congrArg some (starts s frames)) ?_
  rw [parses]
  refine (performs s _).behind (fun s' => ⟨s', closes s _⟩) (fun o s' ran => ?_)
    (fun fault stopped => ?_)
  · rw [ran]
    exact goes _ s o s' frames
  · rw [stopped, stops]

/-- On these levels, calls of rules land in every place. -/
def PerformsCalls (x : Session) (n : Nesting) : Prop :=
  ∀ s active guards ref, x.Performs ⟨s, n, active, guards⟩ (.rule ref)

/-- A matcher lands in an engine if calls of rules do and the attempts of the engine's guards. -/
theorem performs_of_guards (m : Matcher) {e : Engine} (calls : x.PerformsCalls e.nesting)
    (guards : ∀ g ∈ e.guards, x.Performs e.clear g) : x.Performs e m := by
  induction m generalizing e with
  | token kind text keep => exact fun s frames => .of_step rfl (lands_ofStep _)
  | rule ref => exact calls e.state e.active e.guards ref
  | seq items ih =>
    exact fun s frames => .of_step rfl (lands_items fun m among => ih m among calls guards)
  | choice alternatives ih =>
    exact fun s frames => .of_step rfl (lands_alternatives fun m among => ih m among calls guards)
  | opt m ih =>
    refine (ih calls guards).of_operand _ (optional _) (fun _ _ => rfl) (fun _ _ => rfl)
      (fun _ _ => rfl) ?_ (fun _ _ _ => rfl)
    rintro scope s (values | f | f) s' frames <;> exact .refl
  | group m ih =>
    refine (ih calls guards).of_operand _ grouped (fun _ _ => rfl) (fun _ _ => rfl)
      (fun _ _ => rfl) ?_ (fun _ _ _ => rfl)
    rintro scope s (values | f | f) s' frames <;> exact .refl
  | list repetition element ih =>
    exact fun s frames => .of_step rfl (lands_turns ⟨repetition, element, none, s.mark⟩
      (ih calls guards) (fun _ none => nomatch none))
  | sepList repetition element separator ihe ihs =>
    exact fun s frames => .of_step rfl (lands_turns ⟨repetition, element, some separator, s.mark⟩
      (ihe calls guards) (by rintro m ⟨⟩; exact ihs calls guards))
  | cut => exact fun s frames => .of_step rfl .refl
  | predicate ref m ih =>
    refine (ih calls guards).of_operand _ (x.checked ref) (fun _ _ => rfl) (fun _ _ => rfl)
      (fun _ _ => rfl) ?_ (fun _ _ _ => rfl)
    rintro scope s (values | f | f) s' frames
    · simp only [resume, checked]
      split
      · exact .refl
      · exact lands_ofStep _
    · exact .refl
    · exact .refl
  | skip errorType =>
    intro s frames
    refine .of_step rfl ?_
    rw [parser, skipToken_eq, start]
    split
    · exact lands_ofStep _
    · exact lands_guards guards
  | protect m guard ihm ihg =>
    intro s frames
    have inner : ∀ g ∈ guard :: e.guards, x.Performs e.clear g :=
      List.forall_mem_cons.mpr ⟨ihg calls (List.forall_mem_nil _), guards⟩
    have below : x.Performs { e with guards := guard :: e.guards } m :=
      ihm calls inner
    refine .of_step rfl ((below s _).behind (fun s => ⟨s, rfl⟩) (fun o s₁ ran => ?_)
      (fun fault stopped => ?_))
    · have whole : x.parser (e.call x) (.protect m guard) (e.context.scope x (e.call x)) s =
          .ok (o, s₁) := ran
      rw [whole]
      exact .refl
    · exact stopped
  | null type => exact fun s frames => .of_step rfl .refl
  | node type layout m ih =>
    refine (ih calls guards).of_operand _ (x.build type layout) (fun _ _ => rfl) (fun _ _ => rfl)
      (fun _ _ => rfl) ?_ (fun _ _ _ => rfl)
    rintro scope s (values | f | f) s' frames <;> exact .refl
  | enum type alternative m ih =>
    refine (ih calls guards).of_operand _ (x.select type alternative) (fun _ _ => rfl)
      (fun _ _ => rfl) (fun _ _ => rfl) ?_ (fun _ _ _ => rfl)
    rintro scope s (values | f | f) s' frames <;> exact .refl

/-- Everything lands in an engine if calls of rules do. -/
theorem performs_of_calls (calls : x.PerformsCalls e.nesting) (m : Matcher) : x.Performs e m :=
  performs_of_guards m calls fun g _ =>
    performs_of_guards g calls (List.forall_mem_nil _)

/-- A rule that is left is no longer in progress, and its level may be entered again. -/
theorem leave_entered {nesting nesting' : Nesting} (entered : nesting.enter? = some nesting')
    (s : State) (ref : RuleRef) (position : Nat) (active : List (RuleRef × Nat))
    (guards : List Matcher) :
    Engine.leave ⟨s, nesting', (ref, position) :: active, guards⟩ ref position =
      ⟨s, nesting, active, guards⟩ := by
  rw [Engine.leave, Nesting.leave_of_enter? entered, List.erase_cons_head]

/-- On every level calls of rules land. -/
theorem performsCalls (x : Session) (n : Nesting) : x.PerformsCalls n := by
  obtain ⟨depth, remaining⟩ := n
  induction remaining generalizing depth with
  | zero =>
    intro _ active guards ref s frames
    refine .of_step rfl ?_
    simp only [start, enterRule, parser, Engine.call, Engine.context, Context.scope, call]
    split
    · exact ⟨s, .refl⟩
    · rw [List.erase_cons_head]
      exact ⟨s, .refl⟩
  | succ remaining ih =>
    intro _ active guards ref s frames
    refine .of_step rfl ?_
    simp only [start, enterRule, parser, Engine.call, Engine.context, Context.scope, call,
      map_pattern_guard]
    split
    · exact ⟨s, .refl⟩
    · have entered : Nesting.enter? ⟨depth, remaining + 1⟩ = some ⟨depth + 1, remaining⟩ := rfl
      rcases found : x.program.rule? ref with _ | rule
      · simp only [entered, enter, found]
        refine .of_step rfl ?_
        rw [resume, leave_entered entered]
        exact .refl
      · simp only [entered, enter, found]
        have body : x.Performs ⟨s, ⟨depth + 1, remaining⟩, (ref, s.position) :: active, guards⟩
            rule.body := performs_of_calls (ih (depth + 1)) rule.body
        refine (body s _).behind (fun s' => ⟨s', leave_entered entered ..⟩) (fun o s' ran => ?_)
          (fun fault stopped => stopped)
        have called : x.parser (x.call remaining (depth + 1)) rule.body
            ⟨(ref, s.position) :: active, guards.map (x.guard (x.call remaining (depth + 1)))⟩ s =
            .ok (o, s') := ran
        rw [resume, leave_entered entered, called]
        exact .refl

/-- Every matcher lands in every engine with what the interpreter computes. -/
theorem lands (x : Session) (m : Matcher) (e : Engine) (frames : List Frame) :
    x.Lands ⟨.eval m, e, frames⟩ e frames (e.result x m) :=
  performs_of_calls (x.performsCalls e.nesting) m e.state frames

end Session

end CombinatorGrammar
