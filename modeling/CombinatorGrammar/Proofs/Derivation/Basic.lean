import CombinatorGrammar.Parse.Basic
import CombinatorGrammar.Proofs.Semantics.Soundness

/-!
# Derivations

What a run that succeeds has done apart from what it tried in vain: which alternatives it took, how
often it went around its lists, which optional parts were there, and from which token up to which
each part reached. The values of a derivation remember where they come from, so that the node in the
place of a skipped token is told apart from one that was constructed. Every run that succeeds has a
derivation of its values between its positions; there may be others, which an ordered choice passes
by.
-/

namespace CombinatorGrammar

section Fitted

variable {κ α β : Type} {f : κ → α → α}

/-- What fitting does not change is, of the values that are fitted, part of what it was of all. -/
theorem map_zipWith_sublist {g : α → β} (kept : ∀ k v, g (f k v) = g v) (layout : List κ)
    (vs : List α) : ((List.zipWith f layout vs).map g).Sublist (vs.map g) := by
  induction vs generalizing layout with
  | nil => simp only [List.zipWith_nil_right, List.map_nil, List.Sublist.refl]
  | cons v vs ih =>
    cases layout with
    | nil => exact List.nil_sublist _
    | cons k layout =>
      rw [List.zipWith_cons_cons, List.map_cons, List.map_cons, kept]
      exact (ih layout).cons_cons _

/-- What fitting keeps of each value holds of all that are fitted. -/
theorem forall_mem_zipWith {P : α → Prop} (kept : ∀ k v, P v → P (f k v)) (layout : List κ)
    {vs : List α} (h : ∀ v ∈ vs, P v) : ∀ v ∈ List.zipWith f layout vs, P v := by
  induction vs generalizing layout with
  | nil =>
    rw [List.zipWith_nil_right]
    exact List.forall_mem_nil _
  | cons v vs ih =>
    obtain ⟨first, rest⟩ := List.forall_mem_cons.mp h
    cases layout with
    | nil => exact List.forall_mem_nil _
    | cons k layout => exact List.forall_mem_cons.mpr ⟨kept k v first, ih layout rest⟩

end Fitted

/-- A value that remembers which tokens it was made of. -/
inductive Sourced where
  /-- The token at a position. -/
  | token (position : Nat) (token : Token)
  /-- The error node in the place of the token at a position. -/
  | skipped (position : Nat) (type : NodeRef) (span : Span)
  /-- A node that was constructed while the tokens from one position up to another were taken. -/
  | node (start stop : Nat) (type : NodeRef) (span : Span) (fields : List Sourced)
  | list (items : List Sourced)
  /-- An enum value that stands for the tokens from one position up to another. -/
  | enum (start stop : Nat) (type : EnumRef) (alternative : Nat) (span : Span)
  | null
  | absent (type : NodeRef)

namespace Sourced

mutual

/-- The value itself. -/
def value : Sourced → Value
  | token _ t => .token t
  | skipped _ type span => .node type span []
  | node _ _ type span fields => .node type span (valuesOf fields)
  | list items => .list (valuesOf items)
  | enum _ _ type alternative span => .enum type alternative span
  | null => .null
  | absent type => .absent type

/-- The values themselves. -/
def valuesOf : List Sourced → List Value
  | [] => []
  | v :: vs => v.value :: valuesOf vs

end

/-- A null in the form that its field asks for. -/
def fitNull : FieldKind → Sourced → Sourced
  | .node type, null => absent type
  | .list _, null => list []
  | _, v => v

/-- Filling a field changes the value only, not where it comes from. -/
theorem value_fitNull (kind : FieldKind) (v : Sourced) :
    (fitNull kind v).value = Value.fitNull kind v.value := by
  cases kind <;> cases v <;> rfl

/-- The values of sourced values, one list behind the other. -/
theorem valuesOf_append (vs ws : List Sourced) :
    valuesOf (vs ++ ws) = valuesOf vs ++ valuesOf ws := by
  induction vs with
  | nil => rfl
  | cons v vs ih => rw [List.cons_append, valuesOf, valuesOf, ih, List.cons_append]

theorem valuesOf_replicate_null (n : Nat) :
    valuesOf (List.replicate n null) = List.replicate n .null := by
  induction n with
  | zero => rfl
  | succ n ih => rw [List.replicate_succ, List.replicate_succ, valuesOf, ih, value]

/-- Filling the fields of a node changes the values only. -/
theorem valuesOf_zipWith_fitNull (layout : List FieldKind) (vs : List Sourced) :
    valuesOf (List.zipWith fitNull layout vs) =
      List.zipWith Value.fitNull layout (valuesOf vs) := by
  induction vs generalizing layout with
  | nil => rw [List.zipWith_nil_right, valuesOf, List.zipWith_nil_right]
  | cons v vs ih =>
    cases layout with
    | nil => rfl
    | cons kind layout =>
      rw [List.zipWith_cons_cons, valuesOf, valuesOf, List.zipWith_cons_cons, value_fitNull, ih]

end Sourced

/-- What is derived. -/
inductive Goal where
  | matcher (m : Matcher)
  /-- The rest of a sequence. -/
  | items (ms : List Matcher)
  /-- The turns that remain of a list. -/
  | turns (element : Matcher) (separator : Option Matcher)

namespace Session

/-- `Derives x goal i j vs`: taking the tokens from position `i` up to position `j`, the goal yields
the values. -/
inductive Derives (x : Session) : Goal → Nat → Nat → List Sourced → Prop
  | token {kind : TokenKind} {text : Option Name} {keep : Bool} {i : Nat} :
      (x.tokens.token i).kind = kind ∧ text.all (· = (x.tokens.token i).text) →
      Derives x (.matcher (.token kind text keep)) i (x.tokens.after i)
        (if keep then [.token i (x.tokens.token i)] else [])
  | rule {ref : RuleRef} {rule : Rule} {i j : Nat} {vs : List Sourced} :
      x.program.rule? ref = some rule → Derives x (.matcher rule.body) i j vs →
      Derives x (.matcher (.rule ref)) i j vs
  | seq {ms : List Matcher} {i j : Nat} {vs : List Sourced} :
      Derives x (.items ms) i j vs → Derives x (.matcher (.seq ms)) i j vs
  | choice {m : Matcher} {ms : List Matcher} {i j : Nat} {vs : List Sourced} :
      m ∈ ms → Derives x (.matcher m) i j vs → Derives x (.matcher (.choice ms)) i j vs
  | opt {m : Matcher} {i j : Nat} {vs : List Sourced} :
      Derives x (.matcher m) i j vs → Derives x (.matcher (.opt m)) i j vs
  | opt_absent {m : Matcher} {i : Nat} :
      Derives x (.matcher (.opt m)) i i (List.replicate (x.program.arity m) .null)
  | group {m : Matcher} {i j : Nat} {vs : List Sourced} :
      Derives x (.matcher m) i j vs → Derives x (.matcher (.group m)) i j [.list vs]
  | group_absent {m : Matcher} {i : Nat} : Derives x (.matcher (.group m)) i i [.list []]
  | list {repetition : Repetition} {element : Matcher} {i j : Nat} {vs : List Sourced} :
      Derives x (.turns element none) i j vs →
      Derives x (.matcher (.list repetition element)) i j [.list vs]
  | sepList {repetition : Repetition} {element separator : Matcher} {i j : Nat}
      {vs : List Sourced} :
      Derives x (.turns element (some separator)) i j vs →
      Derives x (.matcher (.sepList repetition element separator)) i j [.list vs]
  | cut {i : Nat} : Derives x (.matcher .cut) i i []
  | predicate {ref : PredicateRef} {m : Matcher} {i j : Nat} {vs : List Sourced} :
      Derives x (.matcher m) i j vs →
      x.program.accepts x.names ref (Sourced.valuesOf vs) = true →
      Derives x (.matcher (.predicate ref m)) i j vs
  | skip {errorType : NodeRef} {i : Nat} :
      x.recovery = true → (x.tokens.token i).kind.isTermination = false →
      Derives x (.matcher (.skip errorType)) i (i + 1)
        [.skipped i errorType (x.tokens.token i).span]
  | protect {m guard : Matcher} {i j : Nat} {vs : List Sourced} :
      Derives x (.matcher m) i j vs → Derives x (.matcher (.protect m guard)) i j vs
  | null {type : NodeRef} {i : Nat} : Derives x (.matcher (.null type)) i i [.absent type]
  | node {type : NodeRef} {layout : List FieldKind} {m : Matcher} {i j : Nat}
      {vs : List Sourced} :
      Derives x (.matcher m) i j vs →
      Derives x (.matcher (.node type layout m)) i j
        [.node i j type (x.tokens.spanOf i j) (List.zipWith Sourced.fitNull layout vs)]
  | enum {type : EnumRef} {alternative : Nat} {m : Matcher} {i j : Nat} {vs : List Sourced} :
      Derives x (.matcher m) i j vs →
      Derives x (.matcher (.enum type alternative m)) i j
        [.enum i j type alternative (x.tokens.spanOf i j)]
  | items_nil {i : Nat} : Derives x (.items []) i i []
  | items_cons {m : Matcher} {ms : List Matcher} {i j k : Nat} {vs ws : List Sourced} :
      Derives x (.matcher m) i j vs → Derives x (.items ms) j k ws →
      Derives x (.items (m :: ms)) i k (vs ++ ws)
  | turns_nil {element : Matcher} {separator : Option Matcher} {i : Nat} :
      Derives x (.turns element separator) i i []
  | turns_first {element : Matcher} {separator : Option Matcher} {i j k : Nat}
      {vs ws : List Sourced} :
      Derives x (.matcher element) i j vs → Derives x (.turns element separator) j k ws →
      Derives x (.turns element separator) i k (vs ++ ws)
  /-- What a separator yields is dropped. -/
  | turns_next {element separator : Matcher} {i j k l : Nat} {us vs ws : List Sourced} :
      Derives x (.matcher separator) i j us → Derives x (.matcher element) j k vs →
      Derives x (.turns element (some separator)) k l ws →
      Derives x (.turns element (some separator)) i l (vs ++ ws)

variable {x : Session} {call : Call} {cx : Context} {s s' : State} {o : Outcome}

/-- The goal yields the values, wherever they come from. -/
def Gives (x : Session) (goal : Goal) (i j : Nat) (values : List Value) : Prop :=
  ∃ vs, x.Derives goal i j vs ∧ Sourced.valuesOf vs = values

/-- What a successful job derives. A choice derives one of the alternatives that are left from where
it began, and a turn of a list is put before the turns that follow. -/
def JobDerives (x : Session) : Job → State → State → List Value → Prop
  | .matcher m, s, s', values => x.Gives (.matcher m) s.position s'.position values
  | .items _ ms, s, s', values => x.Gives (.items ms) s.position s'.position values
  | .alternatives _ start _ _ ms, s, s', values => s.position = start.position →
    ∃ m ∈ ms, x.Gives (.matcher m) s.position s'.position values
  | .repeated _ element separator, s, s', values =>
    ∃ items, values = [.list items] ∧
      x.Gives (.turns element separator) s.position s'.position items
  | .turn element separator _, s, s', values => ∀ k more,
    x.Gives (.turns element separator) s'.position k more →
      x.Gives (.turns element separator) s.position k (values ++ more)
  | .turns element separator _ _, s, s', values =>
    x.Gives (.turns element separator) s.position s'.position values
  | .probe _, _, _, _ => True

/-- What gives the values of a list gives the list, if every derivation of the values is within one
of the list. -/
theorem Gives.list {goal : Goal} {m : Matcher} {i j : Nat} {values : List Value}
    (h : x.Gives goal i j values)
    (within : ∀ vs, x.Derives goal i j vs → x.Derives (.matcher m) i j [.list vs]) :
    x.Gives (.matcher m) i j [.list values] := by
  obtain ⟨vs, derived, rfl⟩ := h
  exact ⟨[.list vs], within vs derived, rfl⟩

/-- A skip that no guard keeps from it yields an error node for the next token. -/
theorem Runs.gives_skip {errorType : NodeRef} {f : Failure} {s₁ : State}
    (settled : CallsSettle call) (recovery : x.recovery = true) (inside : x.atEnd s = false)
    (probed : x.Runs call (.probe cx.guards) cx { s with furthest := none } (.soft f) s₁) :
    x.Gives (.matcher (.skip errorType)) s.position
      (x.advance { s₁ with furthest := s.furthest }).position
      [.node errorType (x.current { s₁ with furthest := s.furthest }).span []] := by
  have unmoved : State.Unmoved { s with furthest := none } s₁ := probed.settles settled
  have here : s₁.position = s.position := unmoved.position_eq
  have next : (x.advance { s₁ with furthest := s.furthest }).position = s.position + 1 := by
    rw [x.position_advance, TokenStream.after, here]
    exact if_neg (Bool.eq_false_iff.mp inside)
  refine ⟨[.skipped s.position errorType (x.tokens.token s.position).span], ?_, ?_⟩
  · rw [next]
    exact .skip recovery inside
  · simp only [Sourced.valuesOf, Sourced.value, current, here]

/-- Every successful job derives its values if the calls of rules do. -/
theorem Runs.derives {job : Job} (settled : CallsSettle call)
    (calls : ∀ ref active guards s values s',
      call ref active guards s = .ok (.success values, s') →
        x.Gives (.matcher (.rule ref)) s.position s'.position values)
    (run : x.Runs call job cx s o s') :
    ∀ values, o = .success values → x.JobDerives job s s' values := by
  induction run with
  | @token _ _ keep _ s matched =>
    rintro values ⟨⟩
    rw [JobDerives, x.position_advance]
    exact ⟨_, .token matched, by cases keep <;> rfl⟩
  | rule called =>
    rintro values rfl
    exact calls _ _ _ _ _ _ called
  | seq _ ih =>
    rintro values ⟨⟩
    obtain ⟨vs, derived, same⟩ := ih _ rfl
    exact ⟨vs, .seq derived, same⟩
  | choice _ ih =>
    intro values same
    obtain ⟨m, among, vs, derived, same⟩ := ih values same rfl
    exact ⟨vs, .choice among derived, same⟩
  | opt _ ih =>
    rintro values ⟨⟩
    obtain ⟨vs, derived, same⟩ := ih _ rfl
    exact ⟨vs, .opt derived, same⟩
  | opt_soft =>
    rintro values ⟨⟩
    exact ⟨_, .opt_absent, Sourced.valuesOf_replicate_null _⟩
  | group _ ih =>
    rintro values ⟨⟩
    exact (ih _ rfl).list fun _ => .group
  | group_soft =>
    rintro values ⟨⟩
    exact ⟨_, .group_absent, rfl⟩
  | list _ ih =>
    intro values same
    obtain ⟨items, rfl, turns⟩ := ih values same
    exact turns.list fun _ => .list
  | sepList _ ih =>
    intro values same
    obtain ⟨items, rfl, turns⟩ := ih values same
    exact turns.list fun _ => .sepList
  | cut =>
    rintro values ⟨⟩
    exact ⟨[], .cut, rfl⟩
  | predicate _ holds ih =>
    rintro values ⟨⟩
    obtain ⟨vs, derived, rfl⟩ := ih _ rfl
    exact ⟨vs, .predicate derived holds, rfl⟩
  | skip recovery inside probed _ =>
    rintro values ⟨⟩
    exact probed.gives_skip settled recovery inside
  | protect _ ih =>
    intro values same
    obtain ⟨vs, derived, same⟩ := ih values same
    exact ⟨vs, .protect derived, same⟩
  | null =>
    rintro values ⟨⟩
    exact ⟨_, .null, rfl⟩
  | node _ ih =>
    rintro values ⟨⟩
    obtain ⟨vs, derived, rfl⟩ := ih _ rfl
    refine ⟨_, .node derived, ?_⟩
    rw [Sourced.valuesOf, Sourced.value, Sourced.valuesOf_zipWith_fitNull, Sourced.valuesOf,
      spanSince]
  | enum _ ih =>
    rintro values ⟨⟩
    obtain ⟨vs, derived, rfl⟩ := ih _ rfl
    exact ⟨_, .enum derived, rfl⟩
  | items_nil =>
    rintro values ⟨⟩
    exact ⟨[], .items_nil, rfl⟩
  | @items_cut _ m _ _ _ _ _ isCut _ ih =>
    intro values same
    obtain ⟨vs, derived, same⟩ := ih values same
    cases m <;> cases isCut
    exact ⟨_, .items_cons .cut derived, same⟩
  | items_next _ _ _ ihm ihms =>
    rintro values ⟨⟩
    obtain ⟨vs, first, rfl⟩ := ihm _ rfl
    obtain ⟨ws, rest, rfl⟩ := ihms _ rfl
    exact ⟨vs ++ ws, .items_cons first rest, Sourced.valuesOf_append vs ws⟩
  | alternatives_passed _ _ ih =>
    intro values same here
    obtain ⟨m, among, gives⟩ := ih values same here
    exact ⟨m, List.mem_cons_of_mem _ among, gives⟩
  | alternatives_success _ _ ih =>
    rintro values ⟨⟩ _
    exact ⟨_, List.mem_cons_self .., ih _ rfl⟩
  | alternatives_soft _ _ _ _ ih | alternatives_recover _ _ _ _ ih =>
    intro values same here
    obtain ⟨m, among, gives⟩ := ih values same rfl
    exact ⟨m, List.mem_cons_of_mem _ among, here ▸ gives⟩
  | repeated _ done ih =>
    rintro values rfl
    rcases finishList_cases done with ⟨_, none, _⟩ | ⟨_, only, rfl⟩
    · cases none
    · cases only
      exact ⟨_, rfl, ih _ rfl⟩
  | turn_first _ _ ih =>
    rintro values same k _ ⟨ws, rest, rfl⟩
    obtain ⟨vs, first, rfl⟩ := ih values same
    exact ⟨vs ++ ws, .turns_first first rest, Sourced.valuesOf_append vs ws⟩
  | turn_next _ _ ihs ihe =>
    rintro values same k _ ⟨ws, rest, rfl⟩
    obtain ⟨us, separated, _⟩ := ihs _ rfl
    obtain ⟨vs, first, rfl⟩ := ihe values same
    exact ⟨vs ++ ws, .turns_next separated first rest, Sourced.valuesOf_append vs ws⟩
  | turns_next _ _ _ ih ihms =>
    rintro values ⟨⟩
    exact ih _ rfl _ _ (ihms _ rfl)
  | turns_soft | turns_idle =>
    rintro values ⟨⟩
    exact ⟨[], .turns_nil, rfl⟩
  | predicate_fails _ fails | node_fails _ fails | enum_fails _ fails | turn_fails _ fails
  | items_later _ _ _ fails =>
    rintro values rfl
    cases fails
  | probe_nil | probe_match | probe_next => exact fun _ _ => trivial
  -- what fails derives nothing
  | _ =>
    intro _ none
    cases none

/-- Every call of a rule that succeeds derives its values. -/
theorem call_derives {remaining depth : Nat} {ref : RuleRef} {active : List (RuleRef × Nat)}
    {guards : List Matcher} {values : List Value}
    (h : x.call remaining depth ref active guards s = .ok (.success values, s')) :
    x.Gives (.matcher (.rule ref)) s.position s'.position values := by
  induction remaining generalizing depth ref active guards s values s' with
  | zero =>
    obtain ⟨rest, none, _⟩ := call_eq_ok_iff.mp h
    cases none
  | succ remaining ih =>
    obtain ⟨rest, same, _, entered⟩ := call_eq_ok_iff.mp h
    cases same
    rcases enter_cases entered with ⟨rule, found, run⟩ | ⟨_, none, _⟩
    · obtain ⟨vs, derived, same⟩ :=
        run.derives (x.callsSettle remaining (depth + 1)) (fun _ _ _ _ _ _ called => ih called)
          values rfl
      exact ⟨vs, .rule found derived, same⟩
    · cases none

/-- Whatever matcher is run, in whatever context and on whatever level, it derives the values of its
success. -/
theorem parser_derives {remaining depth : Nat} {m : Matcher} {values : List Value}
    (run : x.parser (x.call remaining depth) m (cx.scope x (x.call remaining depth)) s =
      .ok (.success values, s')) :
    x.Gives (.matcher m) s.position s'.position values :=
  (runs_of_parser_eq run).derives (x.callsSettle remaining depth)
    (fun _ _ _ _ _ _ called => call_derives called) values rfl

/-- The ways in which derivations put values together keep the property, which speaks of the
positions between which the values are derived. -/
structure Composes (x : Session) (P : Nat → Nat → List Sourced → Prop) : Prop where
  nil : ∀ i, P i i []
  append : ∀ {i j k vs ws}, P i j vs → P j k ws → P i k (vs ++ ws)
  /-- Values may be dropped altogether. -/
  drop : ∀ {i j vs}, P i j vs → P i j []
  token : ∀ i, P i (x.tokens.after i) [.token i (x.tokens.token i)]
  skip : ∀ i errorType, (x.tokens.token i).kind.isTermination = false →
    P i (i + 1) [.skipped i errorType (x.tokens.token i).span]
  null : ∀ i, P i i [.null]
  absent : ∀ i type, P i i [.absent type]
  list : ∀ {i j vs}, P i j vs → P i j [.list vs]
  node : ∀ {i j vs} type layout, P i j vs →
    P i j [.node i j type (x.tokens.spanOf i j) (List.zipWith Sourced.fitNull layout vs)]
  enum : ∀ {i j vs} type alternative, P i j vs →
    P i j [.enum i j type alternative (x.tokens.spanOf i j)]

/-- What composition keeps holds of everything that is derived. -/
theorem Derives.composes {P : Nat → Nat → List Sourced → Prop} (kept : x.Composes P) {goal : Goal}
    {i j : Nat} {vs : List Sourced} (h : x.Derives goal i j vs) : P i j vs := by
  induction h with
  | @token _ _ keep i _ =>
    cases keep with
    | true => exact kept.token i
    | false => exact kept.drop (kept.token i)
  | rule _ _ ih | seq _ ih | choice _ _ ih | opt _ ih | predicate _ _ ih | protect _ ih => exact ih
  | @opt_absent m i =>
    induction x.program.arity m with
    | zero => exact kept.nil i
    | succ n ih =>
      rw [List.replicate_succ]
      exact kept.append (kept.null i) ih
  | group _ ih | list _ ih | sepList _ ih => exact kept.list ih
  | @group_absent _ i => exact kept.list (kept.nil i)
  | @cut i | @items_nil i | @turns_nil _ _ i => exact kept.nil i
  | @skip errorType i _ inside => exact kept.skip i errorType inside
  | @null type i => exact kept.absent i type
  | node _ ih => exact kept.node _ _ ih
  | enum _ ih => exact kept.enum _ _ ih
  | items_cons _ _ first rest | turns_first _ _ first rest => exact kept.append first rest
  | turns_next _ _ _ separated first rest =>
    exact kept.append (kept.append (kept.drop separated) first) rest

end Session

namespace Program

variable {p : Program} {names : Interner} {tokens : TokenStream} {config : ParseConfig}

/-- What a rule yields in an attempt is derived between the positions of the attempt. -/
theorem attempt_derives {ref : RuleRef} {start : Nat} {attempt : RuleAttempt} {values : List Value}
    (ran : p.attempt names tokens config ref start = .ok attempt)
    (succeeds : attempt.result = .ok values) :
    (p.session names tokens config).Gives (.matcher (.rule ref)) (min start tokens.lastPosition)
      attempt.position values := by
  simp only [Program.attempt] at ran
  split at ran
  · cases ran
  · next o s called =>
    obtain rfl := Except.ok.inj ran
    cases o with
    | success found =>
      obtain rfl := Except.ok.inj succeeds
      exact Session.call_derives called
    | soft f | hard f => cases succeeds

end Program

end CombinatorGrammar
