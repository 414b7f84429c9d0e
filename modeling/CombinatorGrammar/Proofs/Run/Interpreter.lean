import CombinatorGrammar.Proofs.Run.Rules

/-!
# The interpreter and the rules of runs

The parser of a matcher ends with an outcome exactly when a derivation says so. From the parser to
the derivation the proof is by induction on the matcher, where the guards of the context count as
settled already; from the derivation to the parser it is by induction on the derivation.
-/

namespace CombinatorGrammar

namespace Session

variable {x : Session} {call : Call} {cx : Context}

-- the interpreter is unfolded by these equations throughout
attribute [local simp] parser operands sequence ordered turn repeated probe

/-- The patterns of the guards of a scope are the guards it was made from. -/
@[simp] theorem map_pattern_guard (guards : List Matcher) :
    (guards.map (x.guard call)).map Guard.pattern = guards := by
  simp [guard, Function.comp_def]

/-- Every end of the matcher's parser in the context is derived by the rules. -/
def Derived (x : Session) (call : Call) (cx : Context) (m : Matcher) : Prop :=
  ∀ s o s', x.parser call m (cx.scope x call) s = .ok (o, s') →
    x.Runs call (.matcher m) cx s o s'

/-- The end of a sequence that began at the mark, from that of the items that remained behind the
given values. -/
def closeItems (start : Mark) (values : List Value) : Outcome → State → Outcome × State
  | .success more, s => (.success (values ++ more), s)
  | .soft f, s => (.soft f, s.rewind start)
  | .hard f, s => (.hard f, s)

/-- The interpretation of the items of a sequence is a run of them. -/
theorem runs_of_sequence {ms : List Matcher} (derived : ∀ m ∈ ms, x.Derived call cx m)
    {start : Mark} {committed : Bool} {values : List Value} {s s' : State} {o : Outcome}
    (h : sequence start committed values (x.operands call ms) (cx.scope x call) s =
      .ok (o, s')) :
    ∃ o₁ s₁, x.Runs call (.items committed ms) cx s o₁ s₁ ∧
      (o, s') = closeItems start values o₁ s₁ := by
  induction ms generalizing committed values s with
  | nil =>
    simp only [operands, sequence, State.yield, Except.ok.injEq] at h
    exact ⟨.success [], s, .items_nil, by rw [← h]; simp [closeItems]⟩
  | cons m ms ih =>
    have below : ∀ n ∈ ms, x.Derived call cx n :=
      fun n among => derived n (List.mem_cons_of_mem _ among)
    simp only [operands, sequence] at h
    by_cases cut : m.isCut = true
    · rw [if_pos cut] at h
      obtain ⟨o₁, s₁, run, closed⟩ := ih below h
      exact ⟨o₁, s₁, .items_cut cut run, closed⟩
    · rw [if_neg cut] at h
      rw [Bool.not_eq_true] at cut
      have first := derived m (List.mem_cons_self ..)
      split at h
      · cases h
      · next more s₁ ran =>
        obtain ⟨o₁, s₂, run, closed⟩ := ih below h
        cases o₁ with
        | success rest =>
          refine ⟨_, _, .items_next cut (first _ _ _ ran) run, ?_⟩
          rw [closed, closeItems, closeItems, List.append_assoc]
        | soft f => exact ⟨_, _, .items_later cut (first _ _ _ ran) run rfl, closed⟩
        | hard f => exact ⟨_, _, .items_later cut (first _ _ _ ran) run rfl, closed⟩
      · next f s₁ ran =>
        cases committed with
        | true => exact ⟨_, _, .items_commit cut (first _ _ _ ran), (Except.ok.inj h).symm⟩
        | false => exact ⟨_, _, .items_soft cut (first _ _ _ ran), (Except.ok.inj h).symm⟩
      · next f s₁ ran =>
        exact ⟨_, _, .items_hard cut (first _ _ _ ran), (Except.ok.inj h).symm⟩

/-- The interpretation of the alternatives of a choice is a run of them. -/
theorem runs_of_ordered {ms : List Matcher} (derived : ∀ m ∈ ms, x.Derived call cx m)
    {recovers : Bool} {start : Mark} {best committed : Option Failure} {s s' : State}
    {o : Outcome}
    (h : x.ordered recovers start best committed (x.operands call ms) (cx.scope x call) s =
      .ok (o, s')) :
    x.Runs call (.alternatives recovers start best committed ms) cx s o s' := by
  induction ms generalizing best committed s with
  | nil =>
    cases committed with
    | some f =>
      simp only [operands, ordered, Except.ok.injEq, Prod.mk.injEq] at h
      obtain ⟨rfl, rfl⟩ := h
      exact .alternatives_given_up
    | none =>
      simp only [operands, ordered, Except.ok.injEq, Prod.mk.injEq] at h
      obtain ⟨rfl, rfl⟩ := h
      exact .alternatives_nil
  | cons m ms ih =>
    have below : ∀ n ∈ ms, x.Derived call cx n :=
      fun n among => derived n (List.mem_cons_of_mem _ among)
    simp only [operands, ordered] at h
    by_cases passed : (committed.isSome && !m.isSkip) = true
    · rw [if_pos passed] at h
      exact .alternatives_passed passed (ih below h)
    · rw [if_neg passed] at h
      rw [Bool.not_eq_true] at passed
      have first := derived m (List.mem_cons_self ..)
      split at h
      · cases h
      · next values s₁ ran =>
        simp only [Except.ok.injEq, Prod.mk.injEq] at h
        obtain ⟨rfl, rfl⟩ := h
        exact .alternatives_success passed (first _ _ _ ran)
      · next f s₁ ran =>
        refine .alternatives_soft passed (first _ _ _ ran) (ih below ?_)
        rw [← h]
        cases best <;> rfl
      · next f s₁ ran =>
        cases recovers with
        | true => exact .alternatives_recover passed (first _ _ _ ran) (ih below h)
        | false =>
          simp only [Bool.false_eq_true, if_false, Except.ok.injEq, Prod.mk.injEq] at h
          obtain ⟨rfl, rfl⟩ := h
          exact .alternatives_hard passed (first _ _ _ ran)

/-- The interpretation of one turn of a list is a run of it. -/
theorem runs_of_turn {element : Matcher} {separator : Option Matcher} {hasItems : Bool}
    (elements : x.Derived call cx element) (separators : ∀ m ∈ separator, x.Derived call cx m)
    {s s' : State} {o : Outcome}
    (h : turn (x.parser call element) (separator.map (x.parser call)) hasItems
      (cx.scope x call) s = .ok (o, s')) :
    x.Runs call (.turn element separator hasItems) cx s o s' := by
  cases separator with
  | none => exact .turn_first (Or.inl rfl) (elements _ _ _ h)
  | some separator =>
    cases hasItems with
    | false => exact .turn_first (Or.inr rfl) (elements _ _ _ h)
    | true =>
      have before := separators separator rfl
      simp only [turn, Option.map_some, if_true] at h
      split at h
      · next values s₁ ran => exact .turn_next (before _ _ _ ran) (elements _ _ _ h)
      · next fails =>
        refine .turn_fails (before _ _ _ h) ?_
        cases o with
        | success values => exact absurd h (fails values s')
        | soft f => rfl
        | hard f => rfl

theorem not_isEmpty_append (items values : List Value) :
    (!(items ++ values).isEmpty) = (!items.isEmpty || !values.isEmpty) := by
  cases items <;> simp

/-- The interpretation of a list is a run of its turns, closed as the repetition asks. -/
theorem runs_of_repeated {element : Matcher} (separator : Option Matcher)
    (elements : x.Derived call cx element) (separators : ∀ m ∈ separator, x.Derived call cx m)
    {repetition : Repetition} {start : Mark} {items : List Value} {s s' : State} {o : Outcome}
    (h : x.repeated (x.parser call element) (separator.map (x.parser call)) repetition start
      (cx.scope x call) items s = .ok (o, s')) :
    (∃ last more s₁,
      x.Runs call (.turns element separator (!items.isEmpty) last) cx s (.success more) s₁ ∧
        finishList repetition start (items ++ more) last s₁ = .ok (o, s')) ∨
    (∃ last f, o = .hard f ∧
      x.Runs call (.turns element separator (!items.isEmpty) last) cx s (.hard f) s') := by
  induction remaining : x.tokens.lastPosition - s.position using Nat.strongRecOn
    generalizing items s with
  | ind n ih =>
    rw [repeated] at h
    have once : ∀ {o s'}, _ → x.Runs call (.turn element separator (!items.isEmpty)) cx s o s' :=
      runs_of_turn elements separators
    split at h
    · cases h
    · next f s₁ ran =>
      simp only [Except.ok.injEq, Prod.mk.injEq] at h
      obtain ⟨rfl, rfl⟩ := h
      exact Or.inr ⟨none, f, rfl, .turns_hard (once ran)⟩
    · next f s₁ ran =>
      exact Or.inl ⟨some f, [], _, .turns_soft (once ran), by rwa [List.append_nil]⟩
    · next values s₁ ran =>
      split at h
      · next moved =>
        have later := ih _ (by omega) h rfl
        rw [not_isEmpty_append] at later
        rcases later with ⟨last, more, s₂, run, done⟩ | ⟨last, f, rfl, run⟩
        · exact Or.inl ⟨last, values ++ more, s₂, .turns_next (once ran) moved run,
            by rwa [← List.append_assoc]⟩
        · exact Or.inr ⟨last, f, rfl, .turns_later (once ran) moved run⟩
      · next idle =>
        exact Or.inl ⟨none, [], _, .turns_idle (once ran) idle, by rwa [List.append_nil]⟩

/-- The interpretation of a probe is a run of it: it succeeds if a guard matches. -/
theorem runs_of_probe (cx : Context) {guards : List Matcher}
    (derived : ∀ m ∈ guards, x.Derived call .empty m) {s s' : State} {answer : Bool}
    (h : probe s (guards.map (x.guard call)) = .ok (answer, s')) :
    if answer then ∃ values, x.Runs call (.probe guards) cx s (.success values) s'
    else ∃ f, x.Runs call (.probe guards) cx s (.soft f) s' := by
  induction guards generalizing s with
  | nil =>
    simp only [List.map_nil, probe, Except.ok.injEq, Prod.mk.injEq] at h
    obtain ⟨rfl, rfl⟩ := h
    exact ⟨_, .probe_nil⟩
  | cons m ms ih =>
    have first := derived m (List.mem_cons_self ..)
    simp only [List.map_cons, probe] at h
    split at h
    · cases h
    · next o s₁ ran =>
      have run : x.Runs call (.matcher m) .empty s o s₁ := first _ _ _ ran
      by_cases matched : o.isSuccess = true
      · rw [if_pos matched] at h
        simp only [Except.ok.injEq, Prod.mk.injEq] at h
        obtain ⟨rfl, rfl⟩ := h
        cases o with
        | success values => exact ⟨values, .probe_match run⟩
        | soft f => cases matched
        | hard f => cases matched
      · rw [if_neg matched] at h
        rw [Bool.not_eq_true] at matched
        have later := ih (fun m hm => derived m (List.mem_cons_of_mem _ hm)) h
        cases answer with
        | true =>
          obtain ⟨values, rest⟩ := later
          exact ⟨values, .probe_next run matched rest⟩
        | false =>
          obtain ⟨f, rest⟩ := later
          exact ⟨f, .probe_next run matched rest⟩

/-- The interpretation of a token matcher is one of its runs. -/
theorem Derived.token (kind : TokenKind) (text : Option Name) (keep : Bool) :
    x.Derived call cx (.token kind text keep) := by
  intro s o s' h
  simp only [parser, matchToken] at h
  split at h
  · next matched =>
    simp only [State.yield, Except.ok.injEq, Prod.mk.injEq] at h
    obtain ⟨rfl, rfl⟩ := h
    exact .token matched
  · next mismatched =>
    simp only [State.fail, Except.ok.injEq, Prod.mk.injEq] at h
    obtain ⟨rfl, rfl⟩ := h
    exact .token_fails mismatched

/-- The interpretation of a sequence is one of its runs, if that of every item is. -/
theorem Derived.seq {items : List Matcher} (derived : ∀ m ∈ items, x.Derived call cx m) :
    x.Derived call cx (.seq items) := by
  intro s o s' h
  obtain ⟨o₁, s₁, run, closed⟩ := runs_of_sequence derived h
  cases o₁ with
  | success values =>
    obtain ⟨rfl, rfl⟩ := Prod.mk.inj closed
    exact .seq run
  | soft f =>
    obtain ⟨rfl, rfl⟩ := Prod.mk.inj closed
    exact .seq_soft run
  | hard f =>
    obtain ⟨rfl, rfl⟩ := Prod.mk.inj closed
    exact .seq_hard run

/-- The interpretation of an optional is one of its runs, if that of its operand is. -/
theorem Derived.opt {m : Matcher} (derived : x.Derived call cx m) :
    x.Derived call cx (.opt m) := by
  intro s o s' h
  simp only [parser, optional] at h
  split at h
  · next f s₁ ran =>
    simp only [State.yield, Except.ok.injEq, Prod.mk.injEq] at h
    obtain ⟨rfl, rfl⟩ := h
    exact .opt_soft (derived _ _ _ ran)
  · next other =>
    cases o with
    | success values => exact .opt (derived _ _ _ h)
    | soft f => exact absurd h (other f s')
    | hard f => exact .opt_hard (derived _ _ _ h)

/-- The interpretation of a group is one of its runs, if that of its operand is. -/
theorem Derived.group {m : Matcher} (derived : x.Derived call cx m) :
    x.Derived call cx (.group m) := by
  intro s o s' h
  simp only [parser, grouped] at h
  split at h
  · next values s₁ ran =>
    simp only [State.yield, Except.ok.injEq, Prod.mk.injEq] at h
    obtain ⟨rfl, rfl⟩ := h
    exact .group (derived _ _ _ ran)
  · next f s₁ ran =>
    simp only [State.yield, Except.ok.injEq, Prod.mk.injEq] at h
    obtain ⟨rfl, rfl⟩ := h
    exact .group_soft (derived _ _ _ ran)
  · next success soft =>
    cases o with
    | success values => exact absurd h (success values s')
    | soft f => exact absurd h (soft f s')
    | hard f => exact .group_hard (derived _ _ _ h)

/-- The interpretation of a predicate is one of its runs, if that of its operand is. -/
theorem Derived.predicate {m : Matcher} (derived : x.Derived call cx m) (ref : PredicateRef) :
    x.Derived call cx (.predicate ref m) := by
  intro s o s' h
  simp only [parser, checked] at h
  split at h
  · next values s₁ ran =>
    split at h
    · next holds =>
      simp only [Except.ok.injEq, Prod.mk.injEq] at h
      obtain ⟨rfl, rfl⟩ := h
      exact .predicate (derived _ _ _ ran) holds
    · next rejects =>
      simp only [State.fail, Except.ok.injEq, Prod.mk.injEq] at h
      obtain ⟨rfl, rfl⟩ := h
      exact .predicate_rejects (derived _ _ _ ran) (Bool.not_eq_true _ ▸ rejects)
  · next other =>
    cases o with
    | success values => exact absurd h (other values s')
    | soft f => exact .predicate_fails (derived _ _ _ h) rfl
    | hard f => exact .predicate_fails (derived _ _ _ h) rfl

/-- The interpretation of a skip is one of its runs, if that of every guard is. -/
theorem Derived.skip (guards : ∀ g ∈ cx.guards, x.Derived call .empty g) (errorType : NodeRef) :
    x.Derived call cx (.skip errorType) := by
  intro s o s' h
  simp only [parser, skipToken, guarded, Context.scope] at h
  split at h
  · next refused =>
    simp only [State.fail, Except.ok.injEq, Prod.mk.injEq] at h
    obtain ⟨rfl, rfl⟩ := h
    exact .skip_refused (by simpa using refused)
  · next allowed =>
    have both : x.recovery = true ∧ x.atEnd s = false := by simpa using allowed
    cases probed : probe { s with furthest := none } (cx.guards.map (x.guard call)) with
    | error fault => rw [probed] at h; cases h
    | ok result =>
      obtain ⟨answer, s₁⟩ := result
      have asked := runs_of_probe cx guards probed
      rw [probed] at h
      cases answer with
      | true =>
        obtain ⟨values, run⟩ := asked
        simp only [State.fail, Except.ok.injEq, Prod.mk.injEq] at h
        obtain ⟨rfl, rfl⟩ := h
        exact .skip_guarded both.1 both.2 run
      | false =>
        obtain ⟨f, run⟩ := asked
        simp only [State.yield, Except.ok.injEq, Prod.mk.injEq] at h
        obtain ⟨rfl, rfl⟩ := h
        exact .skip both.1 both.2 run

/-- The interpretation of a node construction is one of its runs, if that of its operand is. -/
theorem Derived.node {m : Matcher} (derived : x.Derived call cx m) (type : NodeRef)
    (layout : List FieldKind) : x.Derived call cx (.node type layout m) := by
  intro s o s' h
  simp only [parser, build] at h
  split at h
  · next values s₁ ran =>
    simp only [State.yield, Except.ok.injEq, Prod.mk.injEq] at h
    obtain ⟨rfl, rfl⟩ := h
    exact .node (derived _ _ _ ran)
  · next other =>
    cases o with
    | success values => exact absurd h (other values s')
    | soft f => exact .node_fails (derived _ _ _ h) rfl
    | hard f => exact .node_fails (derived _ _ _ h) rfl

/-- The interpretation of an enum construction is one of its runs, if that of its operand is. -/
theorem Derived.enum {m : Matcher} (derived : x.Derived call cx m) (type : EnumRef)
    (alternative : Nat) : x.Derived call cx (.enum type alternative m) := by
  intro s o s' h
  simp only [parser, select] at h
  split at h
  · next values s₁ ran =>
    simp only [State.yield, Except.ok.injEq, Prod.mk.injEq] at h
    obtain ⟨rfl, rfl⟩ := h
    exact .enum (derived _ _ _ ran)
  · next other =>
    cases o with
    | success values => exact absurd h (other values s')
    | soft f => exact .enum_fails (derived _ _ _ h) rfl
    | hard f => exact .enum_fails (derived _ _ _ h) rfl

/-- A parser in a context follows the rules if the parsers of the context's guards do. -/
theorem derived_of_guards (m : Matcher) {cx : Context}
    (guards : ∀ g ∈ cx.guards, x.Derived call .empty g) : x.Derived call cx m := by
  induction m generalizing cx with
  | token kind text keep => exact .token kind text keep
  | rule ref =>
    intro s o s' h
    simp only [parser, Context.scope, map_pattern_guard] at h
    exact .rule h
  | seq items ih => exact .seq fun m hm => ih m hm guards
  | choice alternatives ih =>
    intro s o s' h
    exact .choice (runs_of_ordered (fun m hm => ih m hm guards) h)
  | opt m ih => exact (ih guards).opt
  | group m ih => exact (ih guards).group
  | list repetition element ih =>
    intro s o s' h
    rcases runs_of_repeated none (ih guards) (by simp) h with
      ⟨last, more, s₁, run, done⟩ | ⟨last, f, rfl, run⟩
    · exact .list (.repeated run done)
    · exact .list (.repeated_hard run)
  | sepList repetition element separator ihe ihs =>
    intro s o s' h
    rcases runs_of_repeated (some separator) (ihe guards)
      (by rintro m ⟨⟩; exact ihs guards) h with ⟨last, more, s₁, run, done⟩ | ⟨last, f, rfl, run⟩
    · exact .sepList (.repeated run done)
    · exact .sepList (.repeated_hard run)
  | cut =>
    intro s o s' h
    simp only [parser, State.yield, Except.ok.injEq, Prod.mk.injEq] at h
    obtain ⟨rfl, rfl⟩ := h
    exact .cut
  | predicate ref m ih => exact (ih guards).predicate ref
  | skip errorType => exact .skip guards errorType
  | protect m guard ihm ihg =>
    intro s o s' h
    have inner : ∀ g ∈ (cx.protecting guard).guards, x.Derived call .empty g := by
      intro g member
      rcases List.mem_cons.mp member with rfl | outer
      · exact ihg (List.forall_mem_nil _)
      · exact guards g outer
    exact .protect (ihm inner s o s' h)
  | null type =>
    intro s o s' h
    simp only [parser, State.yield, Except.ok.injEq, Prod.mk.injEq] at h
    obtain ⟨rfl, rfl⟩ := h
    exact .null
  | node type layout m ih => exact (ih guards).node type layout
  | enum type alternative m ih => exact (ih guards).enum type alternative

/-- Every end of a parser is derived by the rules. -/
theorem runs_of_parser_eq {m : Matcher} {s s' : State} {o : Outcome}
    (h : x.parser call m (cx.scope x call) s = .ok (o, s')) :
    x.Runs call (.matcher m) cx s o s' :=
  derived_of_guards m (fun g _ => derived_of_guards g (List.forall_mem_nil _)) s o s' h

section Steps

variable {m : Matcher} {ms : List Matcher} {scope : Scope} {start : Mark} {s s₁ : State}
  {values more : List Value} {f : Failure} {committed : Bool}

/-- A cut commits the rest of its sequence. -/
theorem sequence_cut (cut : m.isCut = true) :
    sequence start committed values (x.operands call (m :: ms)) scope s =
      sequence start true values (x.operands call ms) scope s := by
  simp only [operands, sequence, cut, if_true]

/-- The rest of a sequence goes on behind the values of an item. -/
theorem sequence_success (cut : m.isCut = false)
    (ran : x.parser call m scope s = .ok (.success more, s₁)) :
    sequence start committed values (x.operands call (m :: ms)) scope s =
      sequence start committed (values ++ more) (x.operands call ms) scope s₁ := by
  simp only [operands, sequence, cut, Bool.false_eq_true, if_false, ran]

/-- A soft failure of an item is hard if its sequence has committed. -/
theorem sequence_soft (cut : m.isCut = false)
    (ran : x.parser call m scope s = .ok (.soft f, s₁)) :
    sequence start committed values (x.operands call (m :: ms)) scope s =
      if committed then .ok (.hard f, s₁) else .ok (.soft f, s₁.rewind start) := by
  simp only [operands, sequence, cut, Bool.false_eq_true, if_false, ran]

/-- A hard failure of an item is one of its sequence. -/
theorem sequence_hard (cut : m.isCut = false)
    (ran : x.parser call m scope s = .ok (.hard f, s₁)) :
    sequence start committed values (x.operands call (m :: ms)) scope s =
      .ok (.hard f, s₁) := by
  simp only [operands, sequence, cut, Bool.false_eq_true, if_false, ran]

variable {recovers : Bool} {best given : Option Failure}

/-- After a hard failure only skips are still tried. -/
theorem ordered_passed (passed : (given.isSome && !m.isSkip) = true) :
    x.ordered recovers start best given (x.operands call (m :: ms)) scope s =
      x.ordered recovers start best given (x.operands call ms) scope s := by
  simp only [operands, ordered, passed, if_true]

/-- The first alternative that succeeds decides a choice. -/
theorem ordered_success (tried : (given.isSome && !m.isSkip) = false)
    (ran : x.parser call m scope s = .ok (.success values, s₁)) :
    x.ordered recovers start best given (x.operands call (m :: ms)) scope s =
      .ok (.success values, s₁) := by
  simp only [operands, ordered, tried, Bool.false_eq_true, if_false, ran]

/-- A choice goes on behind an alternative that fails softly, from where it began. -/
theorem ordered_soft (tried : (given.isSome && !m.isSkip) = false)
    (ran : x.parser call m scope s = .ok (.soft f, s₁)) :
    x.ordered recovers start best given (x.operands call (m :: ms)) scope s =
      x.ordered recovers start (some (best.elim f (·.further f))) given (x.operands call ms) scope
        (s₁.rewind start) := by
  simp only [operands, ordered, tried, Bool.false_eq_true, if_false, ran]
  cases best <;> rfl

/-- A hard failure of an alternative ends a choice, unless the choice recovers. -/
theorem ordered_hard (tried : (given.isSome && !m.isSkip) = false)
    (ran : x.parser call m scope s = .ok (.hard f, s₁)) :
    x.ordered recovers start best given (x.operands call (m :: ms)) scope s =
      if recovers then
        x.ordered recovers start best (some f) (x.operands call ms) scope
          (x.reportRecovered f (s₁.rewind start))
      else .ok (.hard f, s₁) := by
  simp only [operands, ordered, tried, Bool.false_eq_true, if_false, ran]

variable {element : Parser} {separator : Option Parser} {repetition : Repetition}
  {items : List Value}

/-- A list goes on behind a turn that moves. -/
theorem repeated_success
    (ran : turn element separator (!items.isEmpty) scope s = .ok (.success values, s₁))
    (moved : s.position < s₁.position ∧ s₁.position ≤ x.tokens.lastPosition) :
    x.repeated element separator repetition start scope items s =
      x.repeated element separator repetition start scope (items ++ values) s₁ := by
  rw [repeated, ran]
  simp only [if_pos moved]

/-- A list ends before a turn that does not move. -/
theorem repeated_idle
    (ran : turn element separator (!items.isEmpty) scope s = .ok (.success values, s₁))
    (idle : ¬ (s.position < s₁.position ∧ s₁.position ≤ x.tokens.lastPosition)) :
    x.repeated element separator repetition start scope items s =
      finishList repetition start items none (s₁.rewind s.mark) := by
  rw [repeated, ran]
  simp only [if_neg idle]

/-- A list ends before a turn that fails softly. -/
theorem repeated_soft
    (ran : turn element separator (!items.isEmpty) scope s = .ok (.soft f, s₁)) :
    x.repeated element separator repetition start scope items s =
      finishList repetition start items (some f) (s₁.rewind s.mark) := by
  rw [repeated, ran]

/-- A hard failure of a turn is one of its list. -/
theorem repeated_hard
    (ran : turn element separator (!items.isEmpty) scope s = .ok (.hard f, s₁)) :
    x.repeated element separator repetition start scope items s = .ok (.hard f, s₁) := by
  rw [repeated, ran]

end Steps

/-- The result of a list that began at the mark, from the turns that remained behind the given
items and the failure of the last of them. -/
def closeTurns (repetition : Repetition) (start : Mark) (items : List Value)
    (last : Option Failure) : Outcome → State → Step
  | .success more, s => finishList repetition start (items ++ more) last s
  | other, s => .ok (other, s)

/-- What the interpreter computes for a job that ends with the outcome in the second state. -/
def Computed (x : Session) (call : Call) : Job → Context → State → Outcome → State → Prop
  | .matcher m, cx, s, o, s' => x.parser call m (cx.scope x call) s = .ok (o, s')
  | .items committed ms, cx, s, o, s' => ∀ start values,
    sequence start committed values (x.operands call ms) (cx.scope x call) s =
      .ok (closeItems start values o s')
  | .alternatives recovers start best committed ms, cx, s, o, s' =>
    x.ordered recovers start best committed (x.operands call ms) (cx.scope x call) s =
      .ok (o, s')
  | .repeated repetition element separator, cx, s, o, s' =>
    x.repeated (x.parser call element) (separator.map (x.parser call)) repetition s.mark
      (cx.scope x call) [] s = .ok (o, s')
  | .turn element separator hasItems, cx, s, o, s' =>
    turn (x.parser call element) (separator.map (x.parser call)) hasItems (cx.scope x call) s =
      .ok (o, s')
  | .turns element separator hasItems last, cx, s, o, s' => ∀ repetition start items,
    (!items.isEmpty) = hasItems →
      x.repeated (x.parser call element) (separator.map (x.parser call)) repetition start
        (cx.scope x call) items s = closeTurns repetition start items last o s'
  | .probe guards, _, s, o, s' => probe s (guards.map (x.guard call)) = .ok (o.isSuccess, s')

/-- Every derived end is the interpreter's. -/
theorem computed_of_runs {job : Job} {s s' : State} {o : Outcome}
    (run : x.Runs call job cx s o s') : x.Computed call job cx s o s' := by
  induction run with
  | token matched => simp only [Computed, parser, matchToken, if_pos matched, State.yield]
  | token_fails mismatched =>
    simp only [Computed, parser, matchToken, if_neg mismatched, State.fail]
  | rule called => simpa only [Computed, parser, Context.scope, map_pattern_guard] using called
  | seq _ ih => exact ih _ _
  | seq_soft _ ih => exact ih _ _
  | seq_hard _ ih => exact ih _ _
  | choice _ ih => exact ih
  | opt _ ih => simp only [Computed, parser, optional] at ih ⊢; rw [ih]
  | opt_soft _ ih => simp only [Computed, parser, optional] at ih ⊢; rw [ih]; rfl
  | opt_hard _ ih => simp only [Computed, parser, optional] at ih ⊢; rw [ih]
  | group _ ih => simp only [Computed, parser, grouped] at ih ⊢; rw [ih]; rfl
  | group_soft _ ih => simp only [Computed, parser, grouped] at ih ⊢; rw [ih]; rfl
  | group_hard _ ih => simp only [Computed, parser, grouped] at ih ⊢; rw [ih]
  | list _ ih => exact ih
  | sepList _ ih => exact ih
  | cut => rfl
  | predicate _ holds ih =>
    simp only [Computed, parser, checked] at ih ⊢
    rw [ih]
    simp only [holds, if_true]
  | predicate_rejects _ rejects ih =>
    simp only [Computed, parser, checked] at ih ⊢
    rw [ih]
    simp only [rejects, Bool.false_eq_true, if_false, State.fail]
  | predicate_fails _ fails ih =>
    simp only [Computed, parser, checked] at ih ⊢
    rw [ih]
    split
    · next ran => cases ran; cases fails
    · rfl
  | skip recovery inside _ ih =>
    simp only [Computed, parser, skipToken, guarded, Context.scope, recovery, inside] at ih ⊢
    rw [ih]
    rfl
  | skip_guarded recovery inside _ ih =>
    simp only [Computed, parser, skipToken, guarded, Context.scope, recovery, inside] at ih ⊢
    rw [ih]
    rfl
  | skip_refused refused =>
    rw [Computed, parser, skipToken, if_pos (by simpa using refused)]
    rfl
  | protect _ ih => exact ih
  | null => rfl
  | node _ ih => simp only [Computed, parser, build] at ih ⊢; rw [ih]; rfl
  | node_fails _ fails ih =>
    simp only [Computed, parser, build] at ih ⊢
    rw [ih]
    split
    · next ran => cases ran; cases fails
    · rfl
  | enum _ ih => simp only [Computed, parser, select] at ih ⊢; rw [ih]; rfl
  | enum_fails _ fails ih =>
    simp only [Computed, parser, select] at ih ⊢
    rw [ih]
    split
    · next ran => cases ran; cases fails
    · rfl
  | items_nil =>
    intro start values
    simp [operands, sequence, closeItems, State.yield]
  | items_cut cut _ ih =>
    intro start values
    exact (sequence_cut cut).trans (ih start values)
  | items_next cut _ _ ihm ihms =>
    intro start values
    rw [sequence_success cut ihm, ihms, closeItems, closeItems, List.append_assoc]
  | @items_later _ _ _ _ _ _ _ _ o cut _ _ fails ihm ihms =>
    intro start values
    rw [sequence_success cut ihm, ihms]
    cases o with
    | success => cases fails
    | soft => rfl
    | hard => rfl
  | items_soft cut _ ih | items_commit cut _ ih => exact fun start values => sequence_soft cut ih
  | items_hard cut _ ih => exact fun start values => sequence_hard cut ih
  | alternatives_nil => rfl
  | alternatives_given_up => rfl
  | alternatives_passed passed _ ih => exact (ordered_passed passed).trans ih
  | alternatives_success tried _ ih => exact ordered_success tried ih
  | alternatives_soft tried _ _ ihm ihms => exact (ordered_soft tried ihm).trans ihms
  | alternatives_recover tried _ _ ihm ihms => exact (ordered_hard tried ihm).trans ihms
  | alternatives_hard tried _ ih => exact ordered_hard tried ih
  | repeated _ done ih => exact (ih _ _ [] rfl).trans done
  | repeated_hard _ ih => exact ih _ _ [] rfl
  | turn_first without _ ih =>
    rcases without with rfl | rfl
    · exact ih
    · rename_i separator _ _ _ _ _
      cases separator <;> exact ih
  | turn_next _ _ ihs ihe =>
    simp only [Computed] at ihs ihe
    simp only [Computed, turn, Option.map_some, if_true, ihs, ihe]
  | turn_fails _ fails ih =>
    simp only [Computed] at ih
    simp only [Computed, turn, Option.map_some, if_true, ih]
    split
    · next ran => cases ran; cases fails
    · rfl
  | turns_next _ moved _ ih ihms =>
    rintro repetition start items rfl
    have later := ihms repetition start _ (not_isEmpty_append items _)
    rw [repeated_success ih moved, later, closeTurns, closeTurns, List.append_assoc]
  | turns_later _ moved _ ih ihms =>
    rintro repetition start items rfl
    have later := ihms repetition start _ (not_isEmpty_append items _)
    exact (repeated_success ih moved).trans later
  | turns_hard _ ih =>
    rintro repetition start items rfl
    exact repeated_hard ih
  | turns_soft _ ih =>
    rintro repetition start items rfl
    rw [repeated_soft ih, closeTurns, List.append_nil]
  | turns_idle _ idle ih =>
    rintro repetition start items rfl
    rw [repeated_idle ih idle, closeTurns, List.append_nil]
  | probe_nil => rfl
  | probe_match _ ih =>
    simp only [Computed, List.map_cons, probe] at ih ⊢
    rw [show (x.guard call _).attempt _ = _ from ih]
    rfl
  | probe_next _ fails _ ih ihms =>
    simp only [Computed, List.map_cons, probe] at ih ihms ⊢
    rw [show (x.guard call _).attempt _ = _ from ih]
    simp only [fails, Bool.false_eq_true, if_false, ihms]

/-- The ends of a parser are those that the rules derive. -/
theorem parser_eq_ok_iff {m : Matcher} {s s' : State} {o : Outcome} :
    x.parser call m (cx.scope x call) s = .ok (o, s') ↔ x.Runs call (.matcher m) cx s o s' :=
  ⟨runs_of_parser_eq, computed_of_runs⟩

end Session

end CombinatorGrammar
