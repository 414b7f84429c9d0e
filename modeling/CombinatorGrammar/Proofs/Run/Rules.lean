import CombinatorGrammar.Parse.Run

/-!
# Runs by rules

The ways in which a run can go, one rule for each, without the order in which the interpreter
finds out. A rule speaks of a job: a matcher, or what remains of one, such as the rest of a
sequence. The run of a rule of the grammar is left to the given meaning of calls, so that a
statement about runs is an induction on a derivation here and then one on the levels of nesting.
-/

namespace CombinatorGrammar

/-- Where a matcher is run: the rules in progress, and the matchers that the enclosing regions
protect, innermost first. -/
structure Context where
  active : List (RuleRef × Nat)
  guards : List Matcher

namespace Context

/-- The context without rules and guards. -/
def empty : Context := ⟨[], []⟩

/-- The context within a region that protects one more matcher. -/
def protecting (cx : Context) (guard : Matcher) : Context := ⟨cx.active, guard :: cx.guards⟩

/-- The scope in which the parsers of a context run. -/
def scope (x : Session) (call : Call) (cx : Context) : Scope :=
  ⟨cx.active, cx.guards.map (x.guard call)⟩

end Context

/-- What is run. -/
inductive Job where
  | matcher (m : Matcher)
  /-- The rest of a sequence, behind one of its cuts or not; a soft failure is the item's own. -/
  | items (committed : Bool) (ms : List Matcher)
  /-- The rest of a choice that began at the mark. -/
  | alternatives (recovers : Bool) (start : Mark) (best committed : Option Failure)
    (ms : List Matcher)
  | repeated (repetition : Repetition) (element : Matcher) (separator : Option Matcher)
  /-- One turn of a list. -/
  | turn (element : Matcher) (separator : Option Matcher) (hasItems : Bool)
  /-- The turns that remain of a list; `last` is how the last of them failed, if it did. -/
  | turns (element : Matcher) (separator : Option Matcher) (hasItems : Bool)
    (last : Option Failure)
  /-- The attempts of guards, which succeed with the first guard that matches. -/
  | probe (guards : List Matcher)

namespace Session

/-- `Runs x call job cx s o s'`: in the context `cx` the job, begun in the state `s`, ends with
the outcome `o` in the state `s'`. -/
inductive Runs (x : Session) (call : Call) : Job → Context → State → Outcome → State → Prop
  | token {kind : TokenKind} {text : Option Name} {keep : Bool} {cx : Context} {s : State} :
      (x.current s).kind = kind ∧ text.all (· = (x.current s).text) →
      Runs x call (.matcher (.token kind text keep)) cx s
        (.success (if keep then [.token (x.current s)] else [])) (x.advance s)
  | token_fails {kind : TokenKind} {text : Option Name} {keep : Bool} {cx : Context} {s : State} :
      ¬ ((x.current s).kind = kind ∧ text.all (· = (x.current s).text)) →
      Runs x call (.matcher (.token kind text keep)) cx s
        (.soft ⟨s.position, [.token kind text]⟩) (s.record ⟨s.position, [.token kind text]⟩)
  | rule {ref : RuleRef} {cx : Context} {s s' : State} {o : Outcome} :
      call ref cx.active cx.guards s = .ok (o, s') →
      Runs x call (.matcher (.rule ref)) cx s o s'
  | seq {items : List Matcher} {cx : Context} {s s' : State} {values : List Value} :
      Runs x call (.items false items) cx s (.success values) s' →
      Runs x call (.matcher (.seq items)) cx s (.success values) s'
  | seq_soft {items : List Matcher} {cx : Context} {s s' : State} {f : Failure} :
      Runs x call (.items false items) cx s (.soft f) s' →
      Runs x call (.matcher (.seq items)) cx s (.soft f) (s'.rewind s.mark)
  | seq_hard {items : List Matcher} {cx : Context} {s s' : State} {f : Failure} :
      Runs x call (.items false items) cx s (.hard f) s' →
      Runs x call (.matcher (.seq items)) cx s (.hard f) s'
  | choice {alternatives : List Matcher} {cx : Context} {s s' : State} {o : Outcome} :
      Runs x call (.alternatives (Matcher.recovers alternatives && x.recovery) s.mark none none
        alternatives) cx s o s' →
      Runs x call (.matcher (.choice alternatives)) cx s o s'
  | opt {m : Matcher} {cx : Context} {s s' : State} {values : List Value} :
      Runs x call (.matcher m) cx s (.success values) s' →
      Runs x call (.matcher (.opt m)) cx s (.success values) s'
  | opt_soft {m : Matcher} {cx : Context} {s s' : State} {f : Failure} :
      Runs x call (.matcher m) cx s (.soft f) s' →
      Runs x call (.matcher (.opt m)) cx s
        (.success (List.replicate (x.program.arity m) .null)) (s'.rewind s.mark)
  | opt_hard {m : Matcher} {cx : Context} {s s' : State} {f : Failure} :
      Runs x call (.matcher m) cx s (.hard f) s' →
      Runs x call (.matcher (.opt m)) cx s (.hard f) s'
  | group {m : Matcher} {cx : Context} {s s' : State} {values : List Value} :
      Runs x call (.matcher m) cx s (.success values) s' →
      Runs x call (.matcher (.group m)) cx s (.success [.list values]) s'
  | group_soft {m : Matcher} {cx : Context} {s s' : State} {f : Failure} :
      Runs x call (.matcher m) cx s (.soft f) s' →
      Runs x call (.matcher (.group m)) cx s (.success [.list []]) (s'.rewind s.mark)
  | group_hard {m : Matcher} {cx : Context} {s s' : State} {f : Failure} :
      Runs x call (.matcher m) cx s (.hard f) s' →
      Runs x call (.matcher (.group m)) cx s (.hard f) s'
  | list {repetition : Repetition} {element : Matcher} {cx : Context} {s s' : State}
      {o : Outcome} :
      Runs x call (.repeated repetition element none) cx s o s' →
      Runs x call (.matcher (.list repetition element)) cx s o s'
  | sepList {repetition : Repetition} {element separator : Matcher} {cx : Context}
      {s s' : State} {o : Outcome} :
      Runs x call (.repeated repetition element (some separator)) cx s o s' →
      Runs x call (.matcher (.sepList repetition element separator)) cx s o s'
  | cut {cx : Context} {s : State} : Runs x call (.matcher .cut) cx s (.success []) s
  | predicate {ref : PredicateRef} {m : Matcher} {cx : Context} {s s' : State}
      {values : List Value} :
      Runs x call (.matcher m) cx s (.success values) s' →
      ((x.program.predicate? ref).any fun p =>
        values.head?.any fun value => p.check x.program.schema x.names value) = true →
      Runs x call (.matcher (.predicate ref m)) cx s (.success values) s'
  | predicate_rejects {ref : PredicateRef} {m : Matcher} {cx : Context} {s s' : State}
      {values : List Value} :
      Runs x call (.matcher m) cx s (.success values) s' →
      ((x.program.predicate? ref).any fun p =>
        values.head?.any fun value => p.check x.program.schema x.names value) = false →
      Runs x call (.matcher (.predicate ref m)) cx s (.soft ⟨s.position, [.predicate ref]⟩)
        ((s'.rewind s.mark).record ⟨s.position, [.predicate ref]⟩)
  | predicate_fails {ref : PredicateRef} {m : Matcher} {cx : Context} {s s' : State}
      {o : Outcome} :
      Runs x call (.matcher m) cx s o s' → o.isSuccess = false →
      Runs x call (.matcher (.predicate ref m)) cx s o s'
  | skip {errorType : NodeRef} {cx : Context} {s s' : State} {f : Failure} :
      x.recovery = true → x.atEnd s = false →
      Runs x call (.probe cx.guards) cx { s with furthest := none } (.soft f) s' →
      Runs x call (.matcher (.skip errorType)) cx s
        (.success [.node errorType (x.current { s' with furthest := s.furthest }).span []])
        ((x.advance { s' with furthest := s.furthest }).report
          (.skippedToken (x.current { s' with furthest := s.furthest }).span
            (x.describeFound (x.current { s' with furthest := s.furthest }))))
  | skip_guarded {errorType : NodeRef} {cx : Context} {s s' : State} {values : List Value} :
      x.recovery = true → x.atEnd s = false →
      Runs x call (.probe cx.guards) cx { s with furthest := none } (.success values) s' →
      Runs x call (.matcher (.skip errorType)) cx s (.soft (.plain s'.position))
        (State.record { s' with furthest := s.furthest } (.plain s'.position))
  | skip_refused {errorType : NodeRef} {cx : Context} {s : State} :
      x.recovery = false ∨ x.atEnd s = true →
      Runs x call (.matcher (.skip errorType)) cx s (.soft (.plain s.position))
        (s.record (.plain s.position))
  | protect {m guard : Matcher} {cx : Context} {s s' : State} {o : Outcome} :
      Runs x call (.matcher m) (cx.protecting guard) s o s' →
      Runs x call (.matcher (.protect m guard)) cx s o s'
  | null {type : NodeRef} {cx : Context} {s : State} :
      Runs x call (.matcher (.null type)) cx s (.success [.absent type]) s
  | node {type : NodeRef} {layout : List FieldKind} {m : Matcher} {cx : Context}
      {s s' : State} {values : List Value} :
      Runs x call (.matcher m) cx s (.success values) s' →
      Runs x call (.matcher (.node type layout m)) cx s
        (.success [.node type (x.spanSince s s') (List.zipWith Value.fitNull layout values)]) s'
  | node_fails {type : NodeRef} {layout : List FieldKind} {m : Matcher} {cx : Context}
      {s s' : State} {o : Outcome} :
      Runs x call (.matcher m) cx s o s' → o.isSuccess = false →
      Runs x call (.matcher (.node type layout m)) cx s o s'
  | enum {type : EnumRef} {alternative : Nat} {m : Matcher} {cx : Context} {s s' : State}
      {values : List Value} :
      Runs x call (.matcher m) cx s (.success values) s' →
      Runs x call (.matcher (.enum type alternative m)) cx s
        (.success [.enum type alternative (x.spanSince s s')]) s'
  | enum_fails {type : EnumRef} {alternative : Nat} {m : Matcher} {cx : Context}
      {s s' : State} {o : Outcome} :
      Runs x call (.matcher m) cx s o s' → o.isSuccess = false →
      Runs x call (.matcher (.enum type alternative m)) cx s o s'
  -- the rest of a sequence
  | items_nil {committed : Bool} {cx : Context} {s : State} :
      Runs x call (.items committed []) cx s (.success []) s
  | items_cut {committed : Bool} {m : Matcher} {ms : List Matcher} {cx : Context}
      {s s' : State} {o : Outcome} :
      m.isCut = true → Runs x call (.items true ms) cx s o s' →
      Runs x call (.items committed (m :: ms)) cx s o s'
  | items_next {committed : Bool} {m : Matcher} {ms : List Matcher} {cx : Context}
      {s s₁ s' : State} {values more : List Value} :
      m.isCut = false → Runs x call (.matcher m) cx s (.success values) s₁ →
      Runs x call (.items committed ms) cx s₁ (.success more) s' →
      Runs x call (.items committed (m :: ms)) cx s (.success (values ++ more)) s'
  | items_later {committed : Bool} {m : Matcher} {ms : List Matcher} {cx : Context}
      {s s₁ s' : State} {values : List Value} {o : Outcome} :
      m.isCut = false → Runs x call (.matcher m) cx s (.success values) s₁ →
      Runs x call (.items committed ms) cx s₁ o s' → o.isSuccess = false →
      Runs x call (.items committed (m :: ms)) cx s o s'
  | items_soft {m : Matcher} {ms : List Matcher} {cx : Context} {s s' : State} {f : Failure} :
      m.isCut = false → Runs x call (.matcher m) cx s (.soft f) s' →
      Runs x call (.items false (m :: ms)) cx s (.soft f) s'
  | items_commit {m : Matcher} {ms : List Matcher} {cx : Context} {s s' : State} {f : Failure} :
      m.isCut = false → Runs x call (.matcher m) cx s (.soft f) s' →
      Runs x call (.items true (m :: ms)) cx s (.hard f) s'
  | items_hard {committed : Bool} {m : Matcher} {ms : List Matcher} {cx : Context}
      {s s' : State} {f : Failure} :
      m.isCut = false → Runs x call (.matcher m) cx s (.hard f) s' →
      Runs x call (.items committed (m :: ms)) cx s (.hard f) s'
  -- the rest of a choice
  | alternatives_nil {recovers : Bool} {start : Mark} {best : Option Failure} {cx : Context}
      {s : State} :
      Runs x call (.alternatives recovers start best none []) cx s
        (.soft (best.getD (.plain start.position))) s
  | alternatives_given_up {recovers : Bool} {start : Mark} {best : Option Failure} {f : Failure}
      {cx : Context} {s : State} :
      Runs x call (.alternatives recovers start best (some f) []) cx s (.hard f) (s.rewind start)
  | alternatives_passed {recovers : Bool} {start : Mark} {best committed : Option Failure}
      {m : Matcher} {ms : List Matcher} {cx : Context} {s s' : State} {o : Outcome} :
      (committed.isSome && !m.isSkip) = true →
      Runs x call (.alternatives recovers start best committed ms) cx s o s' →
      Runs x call (.alternatives recovers start best committed (m :: ms)) cx s o s'
  | alternatives_success {recovers : Bool} {start : Mark} {best committed : Option Failure}
      {m : Matcher} {ms : List Matcher} {cx : Context} {s s' : State} {values : List Value} :
      (committed.isSome && !m.isSkip) = false →
      Runs x call (.matcher m) cx s (.success values) s' →
      Runs x call (.alternatives recovers start best committed (m :: ms)) cx s
        (.success values) s'
  | alternatives_soft {recovers : Bool} {start : Mark} {best committed : Option Failure}
      {m : Matcher} {ms : List Matcher} {cx : Context} {s s₁ s' : State} {f : Failure}
      {o : Outcome} :
      (committed.isSome && !m.isSkip) = false → Runs x call (.matcher m) cx s (.soft f) s₁ →
      Runs x call (.alternatives recovers start (some (best.elim f (·.further f))) committed ms)
        cx (s₁.rewind start) o s' →
      Runs x call (.alternatives recovers start best committed (m :: ms)) cx s o s'
  | alternatives_recover {start : Mark} {best committed : Option Failure} {m : Matcher}
      {ms : List Matcher} {cx : Context} {s s₁ s' : State} {f : Failure} {o : Outcome} :
      (committed.isSome && !m.isSkip) = false → Runs x call (.matcher m) cx s (.hard f) s₁ →
      Runs x call (.alternatives true start best (some f) ms) cx
        (x.reportRecovered f (s₁.rewind start)) o s' →
      Runs x call (.alternatives true start best committed (m :: ms)) cx s o s'
  | alternatives_hard {start : Mark} {best committed : Option Failure} {m : Matcher}
      {ms : List Matcher} {cx : Context} {s s' : State} {f : Failure} :
      (committed.isSome && !m.isSkip) = false → Runs x call (.matcher m) cx s (.hard f) s' →
      Runs x call (.alternatives false start best committed (m :: ms)) cx s (.hard f) s'
  -- lists
  | repeated {repetition : Repetition} {element : Matcher} {separator : Option Matcher}
      {last : Option Failure} {cx : Context} {s s₁ s' : State} {items : List Value}
      {o : Outcome} :
      Runs x call (.turns element separator false last) cx s (.success items) s₁ →
      finishList repetition s.mark items last s₁ = .ok (o, s') →
      Runs x call (.repeated repetition element separator) cx s o s'
  | repeated_hard {repetition : Repetition} {element : Matcher} {separator : Option Matcher}
      {last : Option Failure} {cx : Context} {s s' : State} {f : Failure} :
      Runs x call (.turns element separator false last) cx s (.hard f) s' →
      Runs x call (.repeated repetition element separator) cx s (.hard f) s'
  | turn_first {element : Matcher} {separator : Option Matcher} {hasItems : Bool}
      {cx : Context} {s s' : State} {o : Outcome} :
      separator = none ∨ hasItems = false → Runs x call (.matcher element) cx s o s' →
      Runs x call (.turn element separator hasItems) cx s o s'
  | turn_next {element separator : Matcher} {cx : Context} {s s₁ s' : State}
      {values : List Value} {o : Outcome} :
      Runs x call (.matcher separator) cx s (.success values) s₁ →
      Runs x call (.matcher element) cx s₁ o s' →
      Runs x call (.turn element (some separator) true) cx s o s'
  | turn_fails {element separator : Matcher} {cx : Context} {s s' : State} {o : Outcome} :
      Runs x call (.matcher separator) cx s o s' → o.isSuccess = false →
      Runs x call (.turn element (some separator) true) cx s o s'
  | turns_next {element : Matcher} {separator : Option Matcher} {hasItems : Bool}
      {last : Option Failure} {cx : Context} {s s₁ s' : State} {values more : List Value} :
      Runs x call (.turn element separator hasItems) cx s (.success values) s₁ →
      s.position < s₁.position ∧ s₁.position ≤ x.tokens.lastPosition →
      Runs x call (.turns element separator (hasItems || !values.isEmpty) last) cx s₁
        (.success more) s' →
      Runs x call (.turns element separator hasItems last) cx s (.success (values ++ more)) s'
  | turns_later {element : Matcher} {separator : Option Matcher} {hasItems : Bool}
      {last : Option Failure} {cx : Context} {s s₁ s' : State} {values : List Value}
      {f : Failure} :
      Runs x call (.turn element separator hasItems) cx s (.success values) s₁ →
      s.position < s₁.position ∧ s₁.position ≤ x.tokens.lastPosition →
      Runs x call (.turns element separator (hasItems || !values.isEmpty) last) cx s₁
        (.hard f) s' →
      Runs x call (.turns element separator hasItems last) cx s (.hard f) s'
  | turns_hard {element : Matcher} {separator : Option Matcher} {hasItems : Bool}
      {last : Option Failure} {cx : Context} {s s' : State} {f : Failure} :
      Runs x call (.turn element separator hasItems) cx s (.hard f) s' →
      Runs x call (.turns element separator hasItems last) cx s (.hard f) s'
  | turns_soft {element : Matcher} {separator : Option Matcher} {hasItems : Bool}
      {cx : Context} {s s' : State} {f : Failure} :
      Runs x call (.turn element separator hasItems) cx s (.soft f) s' →
      Runs x call (.turns element separator hasItems (some f)) cx s (.success [])
        (s'.rewind s.mark)
  | turns_idle {element : Matcher} {separator : Option Matcher} {hasItems : Bool}
      {cx : Context} {s s' : State} {values : List Value} :
      Runs x call (.turn element separator hasItems) cx s (.success values) s' →
      ¬ (s.position < s'.position ∧ s'.position ≤ x.tokens.lastPosition) →
      Runs x call (.turns element separator hasItems none) cx s (.success [])
        (s'.rewind s.mark)
  -- guards
  | probe_nil {cx : Context} {s : State} :
      Runs x call (.probe []) cx s (.soft (.plain s.position)) s
  | probe_match {guard : Matcher} {guards : List Matcher} {cx : Context} {s s' : State}
      {values : List Value} :
      Runs x call (.matcher guard) .empty s (.success values) s' →
      Runs x call (.probe (guard :: guards)) cx s (.success values) (s'.rewind s.mark)
  | probe_next {guard : Matcher} {guards : List Matcher} {cx : Context} {s s₁ s' : State}
      {o o' : Outcome} :
      Runs x call (.matcher guard) .empty s o s₁ → o.isSuccess = false →
      Runs x call (.probe guards) cx (s₁.rewind s.mark) o' s' →
      Runs x call (.probe (guard :: guards)) cx s o' s'

/-- A list ends with a failure if it needs an item and has none, and with its items as its only
value otherwise. -/
theorem finishList_cases {repetition : Repetition} {start : Mark} {items : List Value}
    {last : Option Failure} {s s' : State} {o : Outcome}
    (h : finishList repetition start items last s = .ok (o, s')) :
    ((repetition = .oneOrMore ∧ items = []) ∧ o = .soft (last.getD (.plain start.position)) ∧
      s' = s.rewind start) ∨
    (¬ (repetition = .oneOrMore ∧ items = []) ∧ o = .success [.list items] ∧ s' = s) := by
  simp only [finishList, List.isEmpty_iff] at h
  split at h
  · next lacking =>
    simp only [Except.ok.injEq, Prod.mk.injEq] at h
    exact Or.inl ⟨lacking, h.1.symm, h.2.symm⟩
  · next enough =>
    simp only [State.yield, Except.ok.injEq, Prod.mk.injEq] at h
    exact Or.inr ⟨enough, h.1.symm, h.2.symm⟩

section Successes

variable {x : Session} {call : Call} {cx : Context} {s s' : State} {m : Matcher}
  {ms : List Matcher} {values : List Value}

/-- A token match that succeeds has taken the current token. -/
theorem Runs.token_success {kind : TokenKind} {text : Option Name} {keep : Bool}
    (run : x.Runs call (.matcher (.token kind text keep)) cx s (.success values) s') :
    ((x.current s).kind = kind ∧ text.all (· = (x.current s).text)) ∧ s' = x.advance s ∧
      values = if keep then [.token (x.current s)] else [] := by
  cases run with
  | token matched => exact ⟨matched, rfl, rfl⟩

/-- A sequence succeeds by its items. -/
theorem Runs.seq_success
    (run : x.Runs call (.matcher (.seq ms)) cx s (.success values) s') :
    x.Runs call (.items false ms) cx s (.success values) s' := by
  cases run with
  | seq run => exact run

/-- Items that succeed are a first one and others behind it. -/
theorem Runs.items_success {committed : Bool} (item : m.isCut = false)
    (run : x.Runs call (.items committed (m :: ms)) cx s (.success values) s') :
    ∃ first others s₁, values = first ++ others ∧
      x.Runs call (.matcher m) cx s (.success first) s₁ ∧
      x.Runs call (.items committed ms) cx s₁ (.success others) s' := by
  cases run with
  | items_cut cut =>
    rw [item] at cut
    cases cut
  | items_next _ first others => exact ⟨_, _, _, rfl, first, others⟩
  | items_later _ _ _ fails => cases fails

/-- No items succeed at once, with no values. -/
theorem Runs.items_nil_success {committed : Bool}
    (run : x.Runs call (.items committed []) cx s (.success values) s') :
    values = [] ∧ s' = s := by
  cases run with
  | items_nil => exact ⟨rfl, rfl⟩

/-- A protected matcher succeeds with its guard in force. -/
theorem Runs.protect_success {guard : Matcher}
    (run : x.Runs call (.matcher (.protect m guard)) cx s (.success values) s') :
    x.Runs call (.matcher m) (cx.protecting guard) s (.success values) s' := by
  cases run with
  | protect run => exact run

/-- A node that is built has the values of its operand as fields. -/
theorem Runs.node_success {type : NodeRef} {layout : List FieldKind}
    (run : x.Runs call (.matcher (.node type layout m)) cx s (.success values) s') :
    ∃ fields, values = [.node type (x.spanSince s s') (List.zipWith Value.fitNull layout fields)] ∧
      x.Runs call (.matcher m) cx s (.success fields) s' := by
  cases run with
  | node run => exact ⟨_, rfl, run⟩
  | node_fails _ fails => cases fails

end Successes

end Session

end CombinatorGrammar
