import CombinatorGrammar.Parse.Basic
import CombinatorGrammar.Proofs.Program.Parts
import CombinatorGrammar.Proofs.Run.Levels

/-!
# How values are built

Values are built in few places: tokens, absent values and enum values from nothing, lists from
their items, and nodes by skips and node constructions. A property that passes through these
places holds of everything that a parse answers.
-/

namespace CombinatorGrammar

/-- A property of the placeholders of a layout, of empty lists and of some values holds of the
fields that are made of these values. -/
theorem Value.forall_mem_zipWith_fitNull {P : Value → Prop} {layout : List FieldKind}
    {values : List Value} (absent : ∀ type, .node type ∈ layout → P (.absent type))
    (empty : P (.list [])) (held : ∀ v ∈ values, P v) :
    ∀ v ∈ List.zipWith Value.fitNull layout values, P v := by
  intro v among
  obtain ⟨i, inside, rfl⟩ := List.mem_iff_getElem.mp among
  rw [List.getElem_zipWith]
  unfold Value.fitNull
  split
  · next kind _ => exact absent _ (kind ▸ List.getElem_mem _)
  · exact empty
  · exact held _ (List.getElem_mem _)

namespace Session

/-- The property passes through every place where a run of some matchers builds a value. -/
structure Keeps (x : Session) (call : Call) (among : Matcher → Prop) (P : Value → Prop) :
    Prop where
  operand : ∀ {m n}, among m → n ∈ m.operands → among n
  token : ∀ position, P (.token (x.tokens.token position))
  null : P .null
  absent : ∀ type, among (.null type) → P (.absent type)
  enum : ∀ type alternative m span, among (.enum type alternative m) →
    P (.enum type alternative span)
  list : ∀ items, (∀ v ∈ items, P v) → P (.list items)
  skip : ∀ errorType span, among (.skip errorType) → P (.node errorType span [])
  node : ∀ type layout m cx s s' values span, among (.node type layout m) →
    x.Runs call (.matcher m) cx s (.success values) s' → (∀ v ∈ values, P v) →
    P (.node type span (List.zipWith Value.fitNull layout values))

variable {x : Session} {call : Call} {cx : Context} {s s' : State} {o : Outcome}
  {among : Matcher → Prop} {P : Value → Prop}

/-- The property of all values of a successful job, if it runs the matchers. -/
def Builds (among : Matcher → Prop) (P : Value → Prop) : Job → List Value → Prop
  | .matcher m, values => among m → ∀ v ∈ values, P v
  | .items _ ms, values => (∀ m ∈ ms, among m) → ∀ v ∈ values, P v
  | .alternatives _ _ _ _ ms, values => (∀ m ∈ ms, among m) → ∀ v ∈ values, P v
  | .repeated _ element _, values => among element → ∀ v ∈ values, P v
  | .turn element _ _, values => among element → ∀ v ∈ values, P v
  | .turns element _ _ _, values => among element → ∀ v ∈ values, P v
  | .probe _, _ => True

/-- What construction keeps holds of the values of every job, if it holds of those of calls. -/
theorem Runs.builds {job : Job} (keeps : x.Keeps call among P)
    (calls : ∀ ref active guards s values s', call ref active guards s = .ok (.success values, s') →
      ∀ v ∈ values, P v)
    (run : x.Runs call job cx s o s') :
    ∀ values, o = .success values → Builds among P job values := by
  have first {m n : Matcher} (part : among m) (found : m.operands[0]? = some n) : among n :=
    keeps.operand part (List.mem_of_getElem? found)
  induction run with
  | @token _ _ keep =>
    rintro values ⟨⟩ _
    cases keep with
    | true => exact List.forall_mem_singleton.mpr (keeps.token _)
    | false => exact List.forall_mem_nil _
  | rule called =>
    rintro values rfl _
    exact calls _ _ _ _ _ _ called
  | seq _ ih =>
    rintro values ⟨⟩ part
    exact ih _ rfl fun _ operand => keeps.operand part operand
  | choice _ ih =>
    intro values same part
    exact ih values same fun _ operand => keeps.operand part operand
  | opt _ ih =>
    rintro values ⟨⟩ part
    exact ih _ rfl (first part rfl)
  | opt_soft =>
    rintro values ⟨⟩ _ v among
    rw [List.eq_of_mem_replicate among]
    exact keeps.null
  | group _ ih =>
    rintro values ⟨⟩ part
    have items := ih _ rfl (first part rfl)
    exact List.forall_mem_singleton.mpr (keeps.list _ items)
  | group_soft =>
    rintro values ⟨⟩ _
    exact List.forall_mem_singleton.mpr (keeps.list _ (List.forall_mem_nil _))
  | list _ ih =>
    intro values same part
    exact ih values same (first part rfl)
  | sepList _ ih =>
    intro values same part
    exact ih values same (first part rfl)
  | predicate _ _ ih =>
    rintro values ⟨⟩ part
    exact ih _ rfl (first part rfl)
  | skip =>
    rintro values ⟨⟩ part
    exact List.forall_mem_singleton.mpr (keeps.skip _ _ part)
  | protect _ ih =>
    intro values same part
    exact ih values same (first part rfl)
  | null =>
    rintro values ⟨⟩ part
    exact List.forall_mem_singleton.mpr (keeps.absent _ part)
  | node run ih =>
    rintro values ⟨⟩ part
    have operands := ih _ rfl (first part rfl)
    exact List.forall_mem_singleton.mpr (keeps.node _ _ _ _ _ _ _ _ part run operands)
  | enum =>
    rintro values ⟨⟩ part
    exact List.forall_mem_singleton.mpr (keeps.enum _ _ _ _ part)
  | items_cut _ _ ih | alternatives_passed _ _ ih | alternatives_soft _ _ _ _ ih
  | alternatives_recover _ _ _ _ ih =>
    exact fun values same parts => ih values same (List.forall_mem_cons.mp parts).2
  | items_next _ _ _ ihm ihms =>
    rintro values ⟨⟩ parts
    obtain ⟨next, rest⟩ := List.forall_mem_cons.mp parts
    exact List.forall_mem_append.mpr ⟨ihm _ rfl next, ihms _ rfl rest⟩
  | alternatives_success _ _ ih =>
    rintro values ⟨⟩ parts
    exact ih _ rfl (List.forall_mem_cons.mp parts).1
  | repeated _ done ih =>
    rintro values rfl part
    rcases finishList_cases done with ⟨_, none, _⟩ | ⟨_, only, _⟩
    · cases none
    · cases only
      exact List.forall_mem_singleton.mpr (keeps.list _ (ih _ rfl part))
  | turn_first _ _ ih | turn_next _ _ _ ih => exact ih
  | turns_next _ _ _ ih ihms =>
    rintro values ⟨⟩ part
    exact List.forall_mem_append.mpr ⟨ih _ rfl part, ihms _ rfl part⟩
  | cut | items_nil | turns_soft | turns_idle =>
    rintro values ⟨⟩ _
    exact List.forall_mem_nil _
  | predicate_fails _ fails | node_fails _ fails | enum_fails _ fails | turn_fails _ fails
  | items_later _ _ _ fails =>
    rintro values rfl
    cases fails
  | probe_nil | probe_match | probe_next => exact fun _ _ => trivial
  -- what fails has no values
  | _ => exact fun _ none => nomatch none

/-- What construction keeps on every level holds of the values of every call. -/
theorem call_builds
    (keeps : ∀ remaining depth, x.Keeps (x.call remaining depth) (· ∈ x.program.parts) P)
    {remaining depth : Nat} {ref : RuleRef} {active : List (RuleRef × Nat)}
    {guards : List Matcher} {values : List Value}
    (h : x.call remaining depth ref active guards s = .ok (.success values, s')) :
    ∀ v ∈ values, P v := by
  induction remaining generalizing depth ref active guards s values s' with
  | zero =>
    obtain ⟨rest, none, _⟩ := call_eq_ok_iff.mp h
    cases none
  | succ remaining ih =>
    obtain ⟨rest, same, _, entered⟩ := call_eq_ok_iff.mp h
    cases same
    rcases enter_cases entered with ⟨rule, found, run⟩ | ⟨_, none, _⟩
    · exact run.builds (keeps remaining (depth + 1)) (fun _ _ _ _ _ _ called => ih called) values
        rfl (Program.body_mem_parts found)
    · cases none

end Session

namespace Program

variable {p : Program} {names : Interner} {tokens : TokenStream} {config : ParseConfig}
  {P : Value → Prop}

/-- What construction keeps holds of the values of an attempt. -/
theorem attempt_builds
    (keeps : ∀ remaining depth, (p.session names tokens config).Keeps
      ((p.session names tokens config).call remaining depth) (· ∈ p.parts) P)
    {ref : RuleRef} {start : Nat} {attempt : RuleAttempt} {values : List Value}
    (ran : p.attempt names tokens config ref start = .ok attempt)
    (succeeds : attempt.result = .ok values) : ∀ v ∈ values, P v := by
  simp only [Program.attempt] at ran
  split at ran
  · cases ran
  · next o s called =>
    obtain rfl := Except.ok.inj ran
    cases o with
    | success found =>
      obtain rfl := Except.ok.inj succeeds
      exact Session.call_builds keeps called
    | soft f | hard f => cases succeeds

/-- What holds of the values of all calls and passes from items to lists holds of the tree of a
parse. -/
theorem parse_of_calls
    (calls : ∀ remaining depth ref s values s',
      (p.session names tokens config).call remaining depth ref [] [] s = .ok (.success values, s') →
        ∀ v ∈ values, P v)
    (list : ∀ items, (∀ v ∈ items, P v) → P (.list items)) {output : ParseOutput} {root : Value}
    (ran : p.parse names tokens config = .ok output) (succeeds : output.root = some root) :
    P root := by
  simp only [Program.parse] at ran
  split at ran
  · cases ran
  · next o s called =>
    obtain rfl := Except.ok.inj ran
    cases o with
    | success found =>
      have values : ∀ v ∈ found, P v := calls _ _ _ _ _ _ called
      simp only [Session.finish] at succeeds
      split at succeeds
      · obtain rfl := Option.some.inj succeeds
        unfold Session.rootOf
        split
        · exact List.forall_mem_singleton.mp values
        · exact list _ values
      · cases succeeds
    | soft f | hard f => cases succeeds

/-- What construction keeps holds of the tree of a parse. -/
theorem parse_builds
    (keeps : ∀ remaining depth, (p.session names tokens config).Keeps
      ((p.session names tokens config).call remaining depth) (· ∈ p.parts) P)
    {output : ParseOutput} {root : Value} (ran : p.parse names tokens config = .ok output)
    (succeeds : output.root = some root) : P root :=
  parse_of_calls (fun _ _ _ _ _ _ called => Session.call_builds keeps called) (keeps 0 0).list ran
    succeeds

end Program

end CombinatorGrammar
