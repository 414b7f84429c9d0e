import CombinatorGrammar.Proofs.Run.Interpreter
import Mathlib.Logic.Relation

/-!
# What a run comes to

A run is made of smaller runs. A task opens with its first part, and how that part ends decides
whether another part is next: the rest of a sequence behind an item that has matched, the rest of a
choice behind an alternative that has not. A run that is stopped by a fault is stopped in a call of
a rule that it comes to in this way.
-/

namespace CombinatorGrammar

/-- A job with the place and the state where it is run. -/
structure Task where
  job : Job
  cx : Context
  state : State

namespace Session

/-- The second task is the first part of the first one. -/
inductive Opens (x : Session) : Task → Task → Prop
  | seq {items : List Matcher} {cx : Context} {s : State} :
      Opens x ⟨.matcher (.seq items), cx, s⟩ ⟨.items false items, cx, s⟩
  | choice {alternatives : List Matcher} {cx : Context} {s : State} :
      Opens x ⟨.matcher (.choice alternatives), cx, s⟩
        ⟨.alternatives (Matcher.recovers alternatives && x.recovery) s.mark none none alternatives,
          cx, s⟩
  | opt {m : Matcher} {cx : Context} {s : State} :
      Opens x ⟨.matcher (.opt m), cx, s⟩ ⟨.matcher m, cx, s⟩
  | group {m : Matcher} {cx : Context} {s : State} :
      Opens x ⟨.matcher (.group m), cx, s⟩ ⟨.matcher m, cx, s⟩
  | list {repetition : Repetition} {element : Matcher} {cx : Context} {s : State} :
      Opens x ⟨.matcher (.list repetition element), cx, s⟩
        ⟨.repeated repetition element none, cx, s⟩
  | sepList {repetition : Repetition} {element separator : Matcher} {cx : Context} {s : State} :
      Opens x ⟨.matcher (.sepList repetition element separator), cx, s⟩
        ⟨.repeated repetition element (some separator), cx, s⟩
  | predicate {ref : PredicateRef} {m : Matcher} {cx : Context} {s : State} :
      Opens x ⟨.matcher (.predicate ref m), cx, s⟩ ⟨.matcher m, cx, s⟩
  | skip {errorType : NodeRef} {cx : Context} {s : State} :
      x.recovery = true → x.atEnd s = false →
      Opens x ⟨.matcher (.skip errorType), cx, s⟩
        ⟨.probe cx.guards, cx, { s with furthest := none }⟩
  | protect {m guard : Matcher} {cx : Context} {s : State} :
      Opens x ⟨.matcher (.protect m guard), cx, s⟩ ⟨.matcher m, cx.protecting guard, s⟩
  | node {type : NodeRef} {layout : List FieldKind} {m : Matcher} {cx : Context} {s : State} :
      Opens x ⟨.matcher (.node type layout m), cx, s⟩ ⟨.matcher m, cx, s⟩
  | enum {type : EnumRef} {alternative : Nat} {m : Matcher} {cx : Context} {s : State} :
      Opens x ⟨.matcher (.enum type alternative m), cx, s⟩ ⟨.matcher m, cx, s⟩
  | items_cut {committed : Bool} {m : Matcher} {ms : List Matcher} {cx : Context} {s : State} :
      m.isCut = true → Opens x ⟨.items committed (m :: ms), cx, s⟩ ⟨.items true ms, cx, s⟩
  | item {committed : Bool} {m : Matcher} {ms : List Matcher} {cx : Context} {s : State} :
      m.isCut = false → Opens x ⟨.items committed (m :: ms), cx, s⟩ ⟨.matcher m, cx, s⟩
  | alternatives_passed {recovers : Bool} {start : Mark} {best committed : Option Failure}
      {m : Matcher} {ms : List Matcher} {cx : Context} {s : State} :
      (committed.isSome && !m.isSkip) = true →
      Opens x ⟨.alternatives recovers start best committed (m :: ms), cx, s⟩
        ⟨.alternatives recovers start best committed ms, cx, s⟩
  | alternative {recovers : Bool} {start : Mark} {best committed : Option Failure} {m : Matcher}
      {ms : List Matcher} {cx : Context} {s : State} :
      (committed.isSome && !m.isSkip) = false →
      Opens x ⟨.alternatives recovers start best committed (m :: ms), cx, s⟩ ⟨.matcher m, cx, s⟩
  | repeated {repetition : Repetition} {element : Matcher} {separator : Option Matcher}
      {last : Option Failure} {cx : Context} {s : State} :
      Opens x ⟨.repeated repetition element separator, cx, s⟩
        ⟨.turns element separator false last, cx, s⟩
  | turn_first {element : Matcher} {separator : Option Matcher} {hasItems : Bool} {cx : Context}
      {s : State} :
      separator = none ∨ hasItems = false →
      Opens x ⟨.turn element separator hasItems, cx, s⟩ ⟨.matcher element, cx, s⟩
  | separator {element separator : Matcher} {cx : Context} {s : State} :
      Opens x ⟨.turn element (some separator) true, cx, s⟩ ⟨.matcher separator, cx, s⟩
  | turns {element : Matcher} {separator : Option Matcher} {hasItems : Bool}
      {last : Option Failure} {cx : Context} {s : State} :
      Opens x ⟨.turns element separator hasItems last, cx, s⟩
        ⟨.turn element separator hasItems, cx, s⟩
  | guard {guard : Matcher} {guards : List Matcher} {cx : Context} {s : State} :
      Opens x ⟨.probe (guard :: guards), cx, s⟩ ⟨.matcher guard, .empty, s⟩

/-- `Resumes x t part o s rest`: behind its first part, which has ended with the outcome in the
state, the task goes on with the rest. -/
inductive Resumes (x : Session) : Task → Task → Outcome → State → Task → Prop
  | items {committed : Bool} {m : Matcher} {ms : List Matcher} {cx : Context} {s s₁ : State}
      {values : List Value} :
      m.isCut = false →
      Resumes x ⟨.items committed (m :: ms), cx, s⟩ ⟨.matcher m, cx, s⟩ (.success values) s₁
        ⟨.items committed ms, cx, s₁⟩
  | alternatives_soft {recovers : Bool} {start : Mark} {best committed : Option Failure}
      {m : Matcher} {ms : List Matcher} {cx : Context} {s s₁ : State} {f : Failure} :
      (committed.isSome && !m.isSkip) = false →
      Resumes x ⟨.alternatives recovers start best committed (m :: ms), cx, s⟩
        ⟨.matcher m, cx, s⟩ (.soft f) s₁
        ⟨.alternatives recovers start (some (best.elim f (·.further f))) committed ms, cx,
          s₁.rewind start⟩
  | alternatives_recover {start : Mark} {best committed : Option Failure} {m : Matcher}
      {ms : List Matcher} {cx : Context} {s s₁ : State} {f : Failure} :
      (committed.isSome && !m.isSkip) = false →
      Resumes x ⟨.alternatives true start best committed (m :: ms), cx, s⟩
        ⟨.matcher m, cx, s⟩ (.hard f) s₁
        ⟨.alternatives true start best (some f) ms, cx, x.reportRecovered f (s₁.rewind start)⟩
  | turn {element separator : Matcher} {cx : Context} {s s₁ : State} {values : List Value} :
      Resumes x ⟨.turn element (some separator) true, cx, s⟩ ⟨.matcher separator, cx, s⟩
        (.success values) s₁ ⟨.matcher element, cx, s₁⟩
  | turns {element : Matcher} {separator : Option Matcher} {hasItems : Bool}
      {last : Option Failure} {cx : Context} {s s₁ : State} {values : List Value} :
      s.position < s₁.position ∧ s₁.position ≤ x.tokens.lastPosition →
      Resumes x ⟨.turns element separator hasItems last, cx, s⟩
        ⟨.turn element separator hasItems, cx, s⟩ (.success values) s₁
        ⟨.turns element separator (hasItems || !values.isEmpty) last, cx, s₁⟩
  | probe {guard : Matcher} {guards : List Matcher} {cx : Context} {s s₁ : State} {o : Outcome} :
      o.isSuccess = false →
      Resumes x ⟨.probe (guard :: guards), cx, s⟩ ⟨.matcher guard, .empty, s⟩ o s₁
        ⟨.probe guards, cx, s₁.rewind s.mark⟩

/-- What a task goes on behind is what it opens with. -/
theorem Resumes.opens {x : Session} {t part rest : Task} {o : Outcome} {s : State}
    (next : x.Resumes t part o s rest) : x.Opens t part := by
  cases next with
  | items item => exact .item item
  | alternatives_soft tried | alternatives_recover tried => exact .alternative tried
  | turn => exact .separator
  | turns => exact .turns
  | probe => exact .guard

/-- The run of a task, which ends with the outcome in the state. -/
def Ends (x : Session) (call : Call) (t : Task) (o : Outcome) (s : State) : Prop :=
  x.Runs call t.job t.cx t.state o s

/-- The second task is begun within the first one: as its first part, or as what comes behind
that. -/
inductive Next (x : Session) (call : Call) (t : Task) : Task → Prop
  | opens {part : Task} : x.Opens t part → Next x call t part
  | resumes {part rest : Task} {o : Outcome} {s : State} :
      x.Resumes t part o s rest → x.Ends call part o s → Next x call t rest

/-- A run of the first task comes to the second one. -/
def ComesTo (x : Session) (call : Call) : Task → Task → Prop :=
  Relation.ReflTransGen (x.Next call)

/-- The task comes to a call of a rule that is stopped by the fault. -/
def Faults (x : Session) (call : Call) (t : Task) (fault : Fault) : Prop :=
  ∃ ref cx s, x.ComesTo call t ⟨.matcher (.rule ref), cx, s⟩ ∧
    call ref cx.active cx.guards s = .error fault

variable {x : Session} {call : Call} {cx : Context} {s s' : State} {o : Outcome} {fault : Fault}
  {t t' : Task}

/-- A fault of what a task goes on with is one of the task. -/
theorem Faults.of_next (next : x.Next call t t') (h : x.Faults call t' fault) :
    x.Faults call t fault := by
  obtain ⟨ref, cx, s, comes, stopped⟩ := h
  exact ⟨ref, cx, s, .head next comes, stopped⟩

/-- A fault of what a task opens is one of the task. -/
theorem Faults.of_opens (opens : x.Opens t t') (h : x.Faults call t' fault) :
    x.Faults call t fault :=
  h.of_next (.opens opens)

-- the interpreter is unfolded by these equations throughout
attribute [local simp] parser operands sequence ordered turn repeated probe

/-- Every fault of the matcher's parser in the context is one of a call that it comes to. -/
def FaultsTraced (x : Session) (call : Call) (cx : Context) (m : Matcher) : Prop :=
  ∀ s fault, x.parser call m (cx.scope x call) s = .error fault →
    x.Faults call ⟨.matcher m, cx, s⟩ fault

/-- A fault in the interpretation of the items is one of their task. -/
theorem faults_of_sequence {ms : List Matcher} (traced : ∀ m ∈ ms, x.FaultsTraced call cx m)
    {start : Mark} {committed : Bool} {values : List Value}
    (h : sequence start committed values (x.operands call ms) (cx.scope x call) s =
      .error fault) :
    x.Faults call ⟨.items committed ms, cx, s⟩ fault := by
  induction ms generalizing committed values s with
  | nil => cases h
  | cons m ms ih =>
    obtain ⟨first, others⟩ := List.forall_mem_cons.mp traced
    simp only [operands, sequence] at h
    by_cases cut : m.isCut = true
    · rw [if_pos cut] at h
      exact (ih others h).of_opens (.items_cut cut)
    · rw [if_neg cut] at h
      rw [Bool.not_eq_true] at cut
      split at h
      · next stopped =>
        obtain rfl := Except.error.inj h
        exact (first _ _ stopped).of_opens (.item cut)
      · next ran =>
        exact (ih others h).of_next (.resumes (.items cut) (runs_of_parser_eq ran))
      · split at h <;> cases h
      · cases h

/-- A fault in the interpretation of the alternatives is one of their task. -/
theorem faults_of_ordered {ms : List Matcher} (traced : ∀ m ∈ ms, x.FaultsTraced call cx m)
    {recovers : Bool} {start : Mark} {best committed : Option Failure}
    (h : x.ordered recovers start best committed (x.operands call ms) (cx.scope x call) s =
      .error fault) :
    x.Faults call ⟨.alternatives recovers start best committed ms, cx, s⟩ fault := by
  induction ms generalizing best committed s with
  | nil =>
    simp only [operands, ordered] at h
    split at h <;> cases h
  | cons m ms ih =>
    obtain ⟨first, others⟩ := List.forall_mem_cons.mp traced
    simp only [operands, ordered] at h
    by_cases passed : (committed.isSome && !m.isSkip) = true
    · rw [if_pos passed] at h
      exact (ih others h).of_opens (.alternatives_passed passed)
    · rw [if_neg passed] at h
      rw [Bool.not_eq_true] at passed
      split at h
      · next stopped =>
        obtain rfl := Except.error.inj h
        exact (first _ _ stopped).of_opens (.alternative passed)
      · cases h
      · next f s₁ ran =>
        refine (ih others ?_).of_next
          (.resumes (.alternatives_soft passed) (runs_of_parser_eq ran))
        rw [← h]
        cases best <;> rfl
      · next f s₁ ran =>
        cases recovers with
        | true =>
          exact (ih others h).of_next
            (.resumes (.alternatives_recover passed) (runs_of_parser_eq ran))
        | false => cases h

/-- A fault in the interpretation of a turn is one of its task. -/
theorem faults_of_turn {element : Matcher} {separator : Option Matcher} {hasItems : Bool}
    (elements : x.FaultsTraced call cx element)
    (separators : ∀ m ∈ separator, x.FaultsTraced call cx m)
    (h : turn (x.parser call element) (separator.map (x.parser call)) hasItems
      (cx.scope x call) s = .error fault) :
    x.Faults call ⟨.turn element separator hasItems, cx, s⟩ fault := by
  cases separator with
  | none => exact (elements _ _ h).of_opens (.turn_first (Or.inl rfl))
  | some separator =>
    cases hasItems with
    | false => exact (elements _ _ h).of_opens (.turn_first (Or.inr rfl))
    | true =>
      simp only [turn, Option.map_some, if_true] at h
      split at h
      · next ran =>
        exact (elements _ _ h).of_next (.resumes .turn (runs_of_parser_eq ran))
      · exact (separators separator rfl _ _ h).of_opens .separator

/-- A fault in the interpretation of a list is one of its turns. -/
theorem faults_of_repeated {element : Matcher} (separator : Option Matcher)
    (elements : x.FaultsTraced call cx element)
    (separators : ∀ m ∈ separator, x.FaultsTraced call cx m) {repetition : Repetition}
    {start : Mark} {items : List Value} (last : Option Failure)
    (h : x.repeated (x.parser call element) (separator.map (x.parser call)) repetition start
      (cx.scope x call) items s = .error fault) :
    x.Faults call ⟨.turns element separator (!items.isEmpty) last, cx, s⟩ fault := by
  induction remaining : x.tokens.lastPosition - s.position using Nat.strongRecOn
    generalizing items s with
  | ind n ih =>
    rw [repeated] at h
    split at h
    · next stopped =>
      obtain rfl := Except.error.inj h
      exact (faults_of_turn elements separators stopped).of_opens .turns
    · cases h
    · unfold finishList at h
      split at h <;> cases h
    · next values s₁ ran =>
      split at h
      · next moved =>
        have later := ih _ (by omega) h rfl
        rw [not_isEmpty_append] at later
        have derived : ∀ m, x.Derived call cx m := fun m _ _ _ ran => runs_of_parser_eq ran
        have turned := runs_of_turn (derived element) (fun m _ => derived m) ran
        exact later.of_next (.resumes (.turns moved) turned)
      · unfold finishList at h
        split at h <;> cases h

/-- A fault in the interpretation of a probe is one of its guards. -/
theorem faults_of_probe {guards : List Matcher}
    (traced : ∀ m ∈ guards, x.FaultsTraced call .empty m)
    (h : probe s (guards.map (x.guard call)) = .error fault) :
    x.Faults call ⟨.probe guards, cx, s⟩ fault := by
  induction guards generalizing s with
  | nil => cases h
  | cons m ms ih =>
    obtain ⟨first, others⟩ := List.forall_mem_cons.mp traced
    simp only [List.map_cons, probe] at h
    split at h
    · next stopped =>
      obtain rfl := Except.error.inj h
      exact (first _ _ stopped).of_opens .guard
    · next o s₁ ran =>
      split at h
      · cases h
      · next fails =>
        rw [Bool.not_eq_true] at fails
        exact (ih others h).of_next (.resumes (.probe fails) (runs_of_parser_eq ran))

/-- The faults of a parser are traced if those of the parsers of the context's guards are. -/
theorem faultsTraced_of_guards (m : Matcher) {cx : Context}
    (guards : ∀ g ∈ cx.guards, x.FaultsTraced call .empty g) : x.FaultsTraced call cx m := by
  induction m generalizing cx with
  | token kind text keep =>
    intro s fault h
    simp only [parser, matchToken] at h
    split at h <;> cases h
  | rule ref =>
    intro s fault h
    simp only [parser, Context.scope, map_pattern_guard] at h
    exact ⟨ref, cx, s, .refl, h⟩
  | seq items ih =>
    intro s fault h
    exact (faults_of_sequence (fun m among => ih m among guards) h).of_opens .seq
  | choice alternatives ih =>
    intro s fault h
    exact (faults_of_ordered (fun m among => ih m among guards) h).of_opens .choice
  | opt m ih =>
    intro s fault h
    simp only [parser, optional] at h
    split at h
    · cases h
    · exact (ih guards s fault h).of_opens .opt
  | group m ih =>
    intro s fault h
    simp only [parser, grouped] at h
    split at h
    · cases h
    · cases h
    · exact (ih guards s fault h).of_opens .group
  | list repetition element ih =>
    intro s fault h
    have turns := faults_of_repeated none (ih guards) (by simp) none h
    exact (turns.of_opens .repeated).of_opens .list
  | sepList repetition element separator ihe ihs =>
    intro s fault h
    have turns := faults_of_repeated (some separator) (ihe guards)
      (by rintro m ⟨⟩; exact ihs guards) none h
    exact (turns.of_opens .repeated).of_opens .sepList
  | cut =>
    intro s fault h
    simp only [parser, State.yield] at h
    cases h
  | predicate ref m ih =>
    intro s fault h
    simp only [parser, checked] at h
    split at h
    · split at h <;> cases h
    · exact (ih guards s fault h).of_opens .predicate
  | skip errorType =>
    intro s fault h
    simp only [parser, skipToken] at h
    split at h
    · cases h
    · next allowed =>
      have both : x.recovery = true ∧ x.atEnd s = false := by simpa using allowed
      split at h
      · next stopped =>
        obtain rfl := Except.error.inj h
        simp only [guarded, Context.scope] at stopped
        split at stopped
        · next probed =>
          obtain rfl := Except.error.inj stopped
          exact (faults_of_probe guards probed).of_opens (.skip both.1 both.2)
        · cases stopped
      · cases h
      · cases h
  | protect m guard ihm ihg =>
    intro s fault h
    have inner : ∀ g ∈ (cx.protecting guard).guards, x.FaultsTraced call .empty g := by
      intro g member
      rcases List.mem_cons.mp member with rfl | outer
      · exact ihg (List.forall_mem_nil _)
      · exact guards g outer
    exact (ihm inner s fault h).of_opens .protect
  | null type =>
    intro s fault h
    simp only [parser, State.yield] at h
    cases h
  | node type layout m ih =>
    intro s fault h
    simp only [parser, build] at h
    split at h
    · cases h
    · exact (ih guards s fault h).of_opens .node
  | enum type alternative m ih =>
    intro s fault h
    simp only [parser, select] at h
    split at h
    · cases h
    · exact (ih guards s fault h).of_opens .enum

/-- A fault of a parser is the fault of a call that its run comes to. -/
theorem faults_of_parser_eq {m : Matcher}
    (h : x.parser call m (cx.scope x call) s = .error fault) :
    x.Faults call ⟨.matcher m, cx, s⟩ fault :=
  faultsTraced_of_guards m
    (fun g _ => faultsTraced_of_guards g (List.forall_mem_nil _)) s fault h

end Session

end CombinatorGrammar
