import CombinatorGrammar.Proofs.Semantics.Soundness

/-!
# Matches are runs without recovery

Every verdict of the relation is one of a run, from any state at the position, if enough levels
remain. No call in the run is stopped as left recursion: a rule is taken to be matched with the
least nesting that will do, and then no match of that rule at that position is left for a call
within it.
-/

namespace CombinatorGrammar

namespace Session

variable {x : Session} {call : Call} {cx : Context} {s s' : State} {o : Outcome} {m : Matcher}

/-- Some run of the job has the verdict. -/
def Runnable (x : Session) (call : Call) (job : Job) (cx : Context) (s : State)
    (r : Verdict) : Prop :=
  ∃ o s', x.Runs call job cx s o s' ∧ .ofRun s' o = r

namespace Runnable

variable {job : Job} {r : Verdict} {values : List Value}

/-- A successful verdict is the one of a run with these values. -/
theorem exists_success {j : Nat} (h : x.Runnable call job cx s (.success values j)) :
    ∃ s', x.Runs call job cx s (.success values) s' ∧ s'.position = j := by
  obtain ⟨o, s', run, same⟩ := h
  cases o <;> cases same
  exact ⟨s', run, rfl⟩

/-- A soft verdict is the one of a run that fails with it. -/
theorem exists_soft {f : Failure} (h : x.Runnable call job cx s (.soft f)) :
    ∃ s', x.Runs call job cx s (.soft f) s' := by
  obtain ⟨o, s', run, same⟩ := h
  cases o <;> cases same
  exact ⟨s', run⟩

/-- A hard verdict is the one of a run that fails with it. -/
theorem exists_hard {f : Failure} {stop : Nat} (h : x.Runnable call job cx s (.hard f stop)) :
    ∃ s', x.Runs call job cx s (.hard f) s' ∧ s'.position = stop := by
  obtain ⟨o, s', run, same⟩ := h
  cases o <;> cases same
  exact ⟨s', run, rfl⟩

/-- A sequence has the verdicts of its items. -/
theorem seq {items : List Matcher} (h : x.Runnable call (.items false items) cx s r) :
    x.Runnable call (.matcher (.seq items)) cx s r := by
  obtain ⟨o, s', run, rfl⟩ := h
  cases o with
  | success values => exact ⟨_, _, .seq run, rfl⟩
  | soft f => exact ⟨_, _, .seq_soft run, rfl⟩
  | hard f => exact ⟨_, _, .seq_hard run, rfl⟩

/-- An optional has those of its operand, or its nulls in place of a soft failure. -/
theorem opt (h : x.Runnable call (.matcher m) cx s r) :
    x.Runnable call (.matcher (.opt m)) cx s
      (r.orElse (List.replicate (x.program.arity m) .null) s.position) := by
  obtain ⟨o, s', run, rfl⟩ := h
  cases o with
  | success values => exact ⟨_, _, .opt run, rfl⟩
  | soft f => exact ⟨_, _, .opt_soft run, rfl⟩
  | hard f => exact ⟨_, _, .opt_hard run, rfl⟩

/-- A group has those of its operand as one list, or the empty list in place of a soft failure. -/
theorem group (h : x.Runnable call (.matcher m) cx s r) :
    x.Runnable call (.matcher (.group m)) cx s
      ((r.map fun values _ => [.list values]).orElse [.list []] s.position) := by
  obtain ⟨o, s', run, rfl⟩ := h
  cases o with
  | success values => exact ⟨_, _, .group run, rfl⟩
  | soft f => exact ⟨_, _, .group_soft run, rfl⟩
  | hard f => exact ⟨_, _, .group_hard run, rfl⟩

/-- A predicate has those of its operand, as far as it accepts them. -/
theorem predicate (ref : PredicateRef) (h : x.Runnable call (.matcher m) cx s r) :
    x.Runnable call (.matcher (.predicate ref m)) cx s
      (r.check (x.program.accepts x.names ref) ⟨s.position, [.predicate ref]⟩) := by
  obtain ⟨o, s', run, rfl⟩ := h
  cases o with
  | success values =>
    cases answer : x.program.accepts x.names ref values with
    | true =>
      refine ⟨_, _, .predicate run answer, ?_⟩
      simp only [Verdict.ofRun, Verdict.check, answer, if_true]
    | false =>
      refine ⟨_, _, .predicate_rejects run answer, ?_⟩
      simp only [Verdict.ofRun, Verdict.check, answer, Bool.false_eq_true, if_false]
  | soft f => exact ⟨_, _, .predicate_fails run rfl, rfl⟩
  | hard f => exact ⟨_, _, .predicate_fails run rfl, rfl⟩

/-- A node construction has those of its operand, with the values as fields. -/
theorem node (type : NodeRef) (layout : List FieldKind)
    (h : x.Runnable call (.matcher m) cx s r) :
    x.Runnable call (.matcher (.node type layout m)) cx s
      (r.map fun values stop => [.node type (x.tokens.spanOf s.position stop)
        (List.zipWith Value.fitNull layout values)]) := by
  obtain ⟨o, s', run, rfl⟩ := h
  cases o with
  | success values => exact ⟨_, _, .node run, rfl⟩
  | soft f => exact ⟨_, _, .node_fails run rfl, rfl⟩
  | hard f => exact ⟨_, _, .node_fails run rfl, rfl⟩

/-- An enum construction has those of its operand, with one value. -/
theorem enum (type : EnumRef) (alternative : Nat) (h : x.Runnable call (.matcher m) cx s r) :
    x.Runnable call (.matcher (.enum type alternative m)) cx s
      (r.map fun _ stop => [.enum type alternative (x.tokens.spanOf s.position stop)]) := by
  obtain ⟨o, s', run, rfl⟩ := h
  cases o with
  | success values => exact ⟨_, _, .enum run, rfl⟩
  | soft f => exact ⟨_, _, .enum_fails run rfl, rfl⟩
  | hard f => exact ⟨_, _, .enum_fails run rfl, rfl⟩

section Items

variable {ms : List Matcher} {committed : Bool} {s₁ : State}

/-- Items have the verdicts of those behind a success of the first one. -/
theorem items_next (cut : m.isCut = false)
    (run : x.Runs call (.matcher m) cx s (.success values) s₁)
    (h : x.Runnable call (.items committed ms) cx s₁ r) :
    x.Runnable call (.items committed (m :: ms)) cx s (r.prepend values) := by
  obtain ⟨o, s', later, rfl⟩ := h
  cases o with
  | success more => exact ⟨_, _, .items_next cut run later, rfl⟩
  | soft f => exact ⟨_, _, .items_later cut run later rfl, rfl⟩
  | hard f => exact ⟨_, _, .items_later cut run later rfl, rfl⟩

/-- Items have the failures of the first one, hard ones once committed. -/
theorem items_fail
    (settled : ∀ ref active guards s o s',
      call ref active guards s = .ok (o, s') → o.Settles s s')
    (cut : m.isCut = false) (fails : r.isSuccess = false)
    (h : x.Runnable call (.matcher m) cx s r) :
    x.Runnable call (.items committed (m :: ms)) cx s (r.commit committed s.position) := by
  obtain ⟨o, s', run, rfl⟩ := h
  cases o with
  | success values => cases fails
  | soft f =>
    cases committed with
    | true =>
      have stays : s'.position = s.position := (run.settles settled).position_eq
      exact ⟨_, _, .items_commit cut run, congrArg (Verdict.hard f) stays⟩
    | false => exact ⟨_, _, .items_soft cut run, rfl⟩
  | hard f => exact ⟨_, _, .items_hard cut run, rfl⟩

end Items

section Alternatives

variable {ms : List Matcher} {start : Mark} {best : Option Failure} {f : Failure} {s₁ : State}

/-- Alternatives have the verdicts of the first one, unless it fails softly. -/
theorem alternatives_decide (decides : r.isSoft = false)
    (h : x.Runnable call (.matcher m) cx s r) :
    x.Runnable call (.alternatives false start best none (m :: ms)) cx s
      (best.elim r r.orFurther) := by
  obtain ⟨o, s', run, rfl⟩ := h
  cases o with
  | success values => exact ⟨_, _, .alternatives_success rfl run, by cases best <;> rfl⟩
  | soft f => cases decides
  | hard f => exact ⟨_, _, .alternatives_hard rfl run, by cases best <;> rfl⟩

/-- Alternatives end with the furthest failure. -/
theorem alternatives_last (run : x.Runs call (.matcher m) cx s (.soft f) s₁) :
    x.Runnable call (.alternatives false start best none [m]) cx s
      (best.elim (.soft f) (Verdict.soft f).orFurther) :=
  ⟨_, _, .alternatives_soft rfl run .alternatives_nil, by cases best <;> rfl⟩

/-- Alternatives have the verdicts of the rest behind a soft failure. -/
theorem alternatives_next (run : x.Runs call (.matcher m) cx s (.soft f) s₁)
    (h : x.Runnable call
      (.alternatives false start (some (best.elim f (·.further f))) none ms) cx
      (s₁.rewind start) (r.orFurther (best.elim f (·.further f)))) :
    x.Runnable call (.alternatives false start best none (m :: ms)) cx s
      (best.elim (r.orFurther f) (r.orFurther f).orFurther) := by
  obtain ⟨o, s', later, same⟩ := h
  refine ⟨o, s', .alternatives_soft rfl run later, same.trans ?_⟩
  cases best with
  | none => rfl
  | some b => exact (Verdict.orFurther_orFurther b f r).symm

end Alternatives

section Lists

variable {repetition : Repetition} {element : Matcher} {separator : Option Matcher}
  {hasItems : Bool} {last : Option Failure} {s₁ : State}

/-- A list that has no item ends as its first element says. -/
theorem ofNone (run : x.Runs call (.turns element separator false last) cx s (.success []) s')
    (stays : s'.position = s.position)
    (lacks : last.getD (.plain s.position) = r.lack s.position) :
    x.Runnable call (.repeated repetition element separator) cx s
      (.ofNone repetition s.position r) := by
  cases repetition with
  | oneOrMore => exact ⟨_, _, .repeated run rfl, congrArg Verdict.soft lacks⟩
  | zeroOrMore => exact ⟨_, _, .repeated run rfl, congrArg (Verdict.success [.list []]) stays⟩

/-- A turn that stops its list has not moved the cursor. -/
theorem not_moved_of_stops {j : Nat} (stops : (Verdict.success values j).stops s.position = true) :
    ¬ (s.position < j ∧ j ≤ x.tokens.lastPosition) := by
  have stays : ¬ s.position < j := by simpa [Verdict.stops] using stops
  exact fun moved => stays moved.1

/-- A list whose first element stops it has no element. -/
theorem iterations_none (stops : r.stops s.position = true)
    (h : x.Runnable call (.matcher element) cx s r) :
    x.Runnable call (.repeated repetition element separator) cx s
      (.ofNone repetition s.position r) := by
  obtain ⟨o, s', run, rfl⟩ := h
  have first : x.Runs call (.turn element separator false) cx s o s' := .turn_first (Or.inr rfl) run
  cases o with
  | success values => exact ofNone (.turns_idle first (not_moved_of_stops stops)) rfl rfl
  | soft f => exact ofNone (.turns_soft first) rfl rfl
  | hard f => cases stops

/-- A list goes on with the turns behind its first element. -/
theorem iterations_some (needed : repetition = .oneOrMore → values ≠ [])
    (run : x.Runs call (.matcher element) cx s (.success values) s₁)
    (moved : s.position < s₁.position ∧ s₁.position ≤ x.tokens.lastPosition)
    (h : x.Runnable call (.turns element separator (false || !values.isEmpty) last) cx s₁ r) :
    x.Runnable call (.repeated repetition element separator) cx s
      ((r.prepend values).map fun items _ => [.list items]) := by
  obtain ⟨o, s', later, rfl⟩ := h
  have first : x.Runs call (.turn element separator false) cx s (.success values) s₁ :=
    .turn_first (Or.inr rfl) run
  cases o with
  | success more =>
    have enough : ¬ (repetition = .oneOrMore ∧ (values ++ more).isEmpty = true) := by
      rintro ⟨one, none⟩
      exact needed one (List.append_eq_nil_iff.mp (List.isEmpty_iff.mp none)).1
    refine ⟨.success [.list (values ++ more)], s',
      .repeated (.turns_next first moved later) ?_, rfl⟩
    rw [finishList, if_neg enough]
    rfl
  | soft f => cases later
  | hard f => exact ⟨_, _, .repeated_hard (.turns_later first moved later), rfl⟩

/-- A list fails for good with its first element. -/
theorem iterations_hard {f : Failure} (run : x.Runs call (.matcher element) cx s (.hard f) s') :
    x.Runnable call (.repeated repetition element separator) cx s (.hard f s'.position) := by
  have stopped : x.Runs call (.turns element separator false none) cx s (.hard f) s' :=
    .turns_hard (.turn_first (Or.inr rfl) run)
  exact ⟨_, _, .repeated_hard stopped, rfl⟩

/-- A turn that stops the list ends its turns. -/
theorem rest_none (stops : r.stops s.position = true)
    (h : x.Runnable call (.turn element separator hasItems) cx s r) :
    ∃ last, x.Runnable call (.turns element separator hasItems last) cx s
      (.success [] s.position) := by
  obtain ⟨o, s', run, rfl⟩ := h
  cases o with
  | success values => exact ⟨none, _, _, .turns_idle run (not_moved_of_stops stops), rfl⟩
  | soft f => exact ⟨some f, _, _, .turns_soft run, rfl⟩
  | hard f => cases stops

/-- Turns go on behind one that moves. -/
theorem rest_some
    (run : x.Runs call (.turn element separator hasItems) cx s (.success values) s₁)
    (moved : s.position < s₁.position ∧ s₁.position ≤ x.tokens.lastPosition)
    (h : x.Runnable call (.turns element separator (hasItems || !values.isEmpty) last) cx s₁ r) :
    x.Runnable call (.turns element separator hasItems last) cx s (r.prepend values) := by
  obtain ⟨o, s', later, rfl⟩ := h
  cases o with
  | success more => exact ⟨_, _, .turns_next run moved later, rfl⟩
  | soft f => cases later
  | hard f => exact ⟨_, _, .turns_later run moved later, rfl⟩

end Lists

end Runnable

/-- The form is made of parts of the program. -/
def FormParts (x : Session) : Form → Prop
  | .matcher m => m ∈ x.program.parts
  | .items _ ms => ∀ m ∈ ms, m ∈ x.program.parts
  | .alternatives ms => ∀ m ∈ ms, m ∈ x.program.parts
  | .iterations repetition element separator => x.RepeatedParts repetition element separator
  | .next element separator => x.ListParts element separator
  | .rest element separator => x.ListParts element separator

/-- A run realizes the verdict of each form. -/
def Realizes (x : Session) (call : Call) : Form → Context → State → Verdict → Prop
  | .matcher m, cx, s, r => x.Runnable call (.matcher m) cx s r
  | .items committed ms, cx, s, r => x.Runnable call (.items committed ms) cx s r
  | .alternatives ms, cx, s, r => ∀ start best, start.position = s.position →
    x.Runnable call (.alternatives false start best none ms) cx s (best.elim r r.orFurther)
  | .iterations repetition element separator, cx, s, r =>
    x.Runnable call (.repeated repetition element separator) cx s r
  | .next element separator, cx, s, r => ∀ hasItems, Alike separator hasItems →
    x.Runnable call (.turn element separator hasItems) cx s r
  | .rest element separator, cx, s, r => ∀ hasItems, Alike separator hasItems →
    ∃ last, x.Runnable call (.turns element separator hasItems last) cx s r

/-- No rule in progress has a match where it was entered, with rules nested so deep. -/
def Fresh (x : Session) (n : Nat) (active : List (RuleRef × Nat)) : Prop :=
  ∀ ref i r, (ref, i) ∈ active → ¬ x.Matches n (.matcher (.rule ref)) i r

/-- What is new to more rules is new to fewer. -/
theorem Fresh.mono {n k : Nat} {active : List (RuleRef × Nat)} (h : x.Fresh n active)
    (le : k ≤ n) : x.Fresh k active :=
  fun ref i r member matched => h ref i r member (matched.mono le)

/-- The verdicts of all matches with rules nested at most so deep are realized by runs, at every
level from which so many remain. -/
def RealizedWithin (x : Session) (n : Nat) : Prop :=
  ∀ remaining depth, n ≤ remaining → ∀ form i r, x.Matches n form i r →
    x.FormParts form → ∀ cx s, x.Fresh n cx.active → s.position = i →
    x.Realizes (x.call remaining depth) form cx s r

/-- A match of a rule is realized if the matches of shallower nesting are. -/
theorem runnable_rule {n remaining depth : Nat} {ref : RuleRef} {r : Verdict}
    (shallower : ∀ k < n, x.RealizedWithin k) (le : n ≤ remaining)
    (fresh : x.Fresh n cx.active) (matched : x.Matches n (.matcher (.rule ref)) s.position r) :
    x.Runnable (x.call remaining depth) (.matcher (.rule ref)) cx s r := by
  induction n using Nat.strongRecOn generalizing r with
  | ind n ih =>
  by_cases earlier : ∃ k < n, ∃ r, x.Matches k (.matcher (.rule ref)) s.position r
  · obtain ⟨k, lt, r', other⟩ := earlier
    obtain rfl : r' = r := other.unique matched
    exact ih k lt (fun j below => shallower j (Nat.lt_trans below lt))
      (Nat.le_trans (Nat.le_of_lt lt) le) (fresh.mono (Nat.le_of_lt lt)) other
  have new : cx.active.contains (ref, s.position) = false := by
    rw [← Bool.not_eq_true, List.contains_iff_mem]
    exact fun member => fresh ref _ _ member matched
  obtain ⟨rest, rfl⟩ : ∃ rest, remaining = rest + 1 := by
    cases remaining with
    | zero =>
      obtain rfl := Nat.le_zero.mp le
      cases matched
    | succ rest => exact ⟨rest, rfl⟩
  cases matched with
  | @rule k _ _ rule _ found body =>
    have inner : x.Fresh k ((ref, s.position) :: cx.active) := by
      intro ref' i r member other
      rcases List.mem_cons.mp member with same | outer
      · cases same
        exact earlier ⟨k, Nat.lt_succ_self k, r, other⟩
      · exact fresh.mono (Nat.le_succ k) ref' i r outer other
    obtain ⟨o, s', run, rfl⟩ := shallower k (Nat.lt_succ_self k) rest (depth + 1)
      (Nat.le_of_succ_le_succ le) _ _ _ body (Program.body_mem_parts found)
      ⟨(ref, s.position) :: cx.active, cx.guards⟩ s inner rfl
    refine ⟨o, s', .rule (call_eq_ok_iff.mpr ⟨rest, rfl, new, ?_⟩), rfl⟩
    rw [enter, found]
    exact parser_eq_ok_iff.mpr run
  | rule_missing missing =>
    refine ⟨.soft (.plain s.position), s.record (.plain s.position),
      .rule (call_eq_ok_iff.mpr ⟨rest, rfl, new, ?_⟩), rfl⟩
    rw [enter, missing]
    rfl

/-- A matched form that moves does so within the tokens. -/
theorem moved_of_matches {n i j : Nat} {form : Form} {values : List Value}
    (matched : x.Matches n form i (.success values j)) (moves : i < j) (here : s.position = i)
    (there : s'.position = j) :
    s.position < s'.position ∧ s'.position ≤ x.tokens.lastPosition := by
  have inside := matched.stop_le j rfl
  omega

/-- The verdict of a form at a position is realized by runs, from every state there and in every
context that is fresh. -/
def RealizedAt (x : Session) (call : Call) (n : Nat) (form : Form) (i : Nat) (r : Verdict) : Prop :=
  x.FormParts form → ∀ cx s, x.Fresh n cx.active → s.position = i → x.Realizes call form cx s r

namespace RealizedAt

variable {n i j : Nat} {r : Verdict} {ms : List Matcher} {values : List Value}

/-- A sequence ends as its items do. -/
theorem seq (h : x.RealizedAt call n (.items false ms) i r) :
    x.RealizedAt call n (.matcher (.seq ms)) i r := by
  intro part cx s fresh here
  have items := fun m among => Program.operand_mem_parts (n := m) part among
  exact (h items cx s fresh here).seq

/-- A choice ends as its alternatives do, which begin with nothing that failed before. -/
theorem choice (strict : x.recovery = false) (h : x.RealizedAt call n (.alternatives ms) i r) :
    x.RealizedAt call n (.matcher (.choice ms)) i r := by
  intro part cx s fresh here
  obtain ⟨o, s', run, same⟩ :=
    h (fun m among => Program.operand_mem_parts part among) cx s fresh here s.mark none rfl
  refine ⟨o, s', .choice ?_, same⟩
  rw [strict, Bool.and_false]
  exact run

/-- A choice without alternatives fails where it began. -/
theorem choice_empty (strict : x.recovery = false) :
    x.RealizedAt call n (.matcher (.choice [])) i (.soft (.plain i)) := by
  rintro _ cx s _ rfl
  refine ⟨.soft (.plain s.position), s, .choice ?_, rfl⟩
  rw [strict, Bool.and_false]
  exact .alternatives_nil

/-- A match in a region is one of its operand in the context of the region. -/
theorem protect {guard : Matcher} (h : x.RealizedAt call n (.matcher m) i r) :
    x.RealizedAt call n (.matcher (.protect m guard)) i r := by
  intro part cx s fresh here
  obtain ⟨o, s', run, same⟩ :=
    h (Program.operand_part part 0 rfl) (cx.protecting guard) s fresh here
  exact ⟨o, s', .protect run, same⟩

/-- The items behind one that matched run from where it ended. -/
theorem items_next {committed : Bool} (cut : m.isCut = false)
    (first : x.RealizedAt call n (.matcher m) i (.success values j))
    (later : x.RealizedAt call n (.items committed ms) j r) :
    x.RealizedAt call n (.items committed (m :: ms)) i (r.prepend values) := by
  intro parts cx s fresh here
  obtain ⟨one, rest⟩ := List.forall_mem_cons.mp parts
  obtain ⟨s₁, run, there⟩ := (first one cx s fresh here).exists_success
  exact .items_next cut run (later rest cx s₁ fresh there)

section Alternatives

variable {f : Failure}

/-- The last alternative fails softly, and so does the choice. -/
theorem alternatives_last (h : x.RealizedAt call n (.matcher m) i (.soft f)) :
    x.RealizedAt call n (.alternatives [m]) i (.soft f) := by
  intro parts cx s fresh here start best _
  obtain ⟨s₁, run⟩ := (h (List.forall_mem_cons.mp parts).1 cx s fresh here).exists_soft
  exact .alternatives_last run

/-- Behind an alternative that fails softly, the others run from where the choice began. -/
theorem alternatives_next (first : x.RealizedAt call n (.matcher m) i (.soft f))
    (later : x.RealizedAt call n (.alternatives ms) i r) :
    x.RealizedAt call n (.alternatives (m :: ms)) i (r.orFurther f) := by
  intro parts cx s fresh here start best begins
  obtain ⟨one, rest⟩ := List.forall_mem_cons.mp parts
  obtain ⟨s₁, run⟩ := (first one cx s fresh here).exists_soft
  exact .alternatives_next run
    (later rest cx (s₁.rewind start) fresh (begins.trans here) start _ rfl)

end Alternatives

section Lists

variable {repetition : Repetition} {element : Matcher} {separator : Option Matcher}

/-- Behind a first iteration that gets on, the rest of a list runs from where it ended. An element
that a list needs has left a value, since it got on. -/
theorem iterations_some
    (matched : x.Matches n (.matcher element) i (.success values j)) (moves : i < j)
    (first : x.RealizedAt call n (.matcher element) i (.success values j))
    (later : x.RealizedAt call n (.rest element separator) j r) :
    x.RealizedAt call n (.iterations repetition element separator) i
      ((r.prepend values).map fun items _ => [.list items]) := by
  intro parts cx s fresh here
  obtain ⟨s₁, run, there⟩ := (first parts.element_mem cx s fresh here).exists_success
  obtain ⟨last, rest⟩ := later parts.toListParts cx s₁ fresh there _ (parts.alike matched moves)
  have moved := moved_of_matches matched moves here there
  exact .iterations_some (fun needed => parts.needed needed _ _ _ _ matched moves) run moved rest

/-- A first iteration that fails for good ends the list. -/
theorem iterations_hard {f : Failure} {stop : Nat}
    (h : x.RealizedAt call n (.matcher element) i (.hard f stop)) :
    x.RealizedAt call n (.iterations repetition element separator) i (.hard f stop) := by
  intro parts cx s fresh here
  obtain ⟨s', run, rfl⟩ := (h parts.element_mem cx s fresh here).exists_hard
  exact .iterations_hard run

/-- Without separators an iteration is the element. -/
theorem next_unseparated (h : x.RealizedAt call n (.matcher element) i r) :
    x.RealizedAt call n (.next element none) i r := by
  intro parts cx s fresh here hasItems _
  obtain ⟨o, s', run, same⟩ := h parts.element_mem cx s fresh here
  exact ⟨o, s', .turn_first (Or.inl rfl) run, same⟩

section Separated

variable {separator : Matcher}

/-- The element of an iteration runs from where its separator ended. -/
theorem next_separated (first : x.RealizedAt call n (.matcher separator) i (.success values j))
    (later : x.RealizedAt call n (.matcher element) j r) :
    x.RealizedAt call n (.next element (some separator)) i r := by
  intro parts cx s fresh here hasItems alike
  obtain rfl : hasItems = true := alike.resolve_right (by simp)
  obtain ⟨s₁, run, there⟩ := (first (parts.separator_mem _ rfl) cx s fresh here).exists_success
  obtain ⟨o, s', rest, same⟩ := later parts.element_mem cx s₁ fresh there
  exact ⟨o, s', .turn_next run rest, same⟩

/-- An iteration whose separator fails is that failure. -/
theorem next_fails (fails : r.isSuccess = false)
    (h : x.RealizedAt call n (.matcher separator) i r) :
    x.RealizedAt call n (.next element (some separator)) i r := by
  intro parts cx s fresh here hasItems alike
  obtain rfl : hasItems = true := alike.resolve_right (by simp)
  obtain ⟨o, s', run, rfl⟩ := h (parts.separator_mem _ rfl) cx s fresh here
  rw [Verdict.isSuccess_ofRun] at fails
  exact ⟨o, s', .turn_fails run fails, rfl⟩

end Separated

/-- Behind an iteration that gets on, the others run from where it ended. -/
theorem rest_some (matched : x.Matches n (.next element separator) i (.success values j))
    (moves : i < j) (first : x.RealizedAt call n (.next element separator) i (.success values j))
    (later : x.RealizedAt call n (.rest element separator) j r) :
    x.RealizedAt call n (.rest element separator) i (r.prepend values) := by
  intro parts cx s fresh here hasItems alike
  obtain ⟨s₁, run, there⟩ := (first parts cx s fresh here hasItems alike).exists_success
  obtain ⟨last, rest⟩ := later parts cx s₁ fresh there _ (alike.or _)
  exact ⟨last, .rest_some run (moved_of_matches matched moves here there) rest⟩

/-- An iteration that fails for good ends the list. -/
theorem rest_hard {f : Failure} {stop : Nat}
    (h : x.RealizedAt call n (.next element separator) i (.hard f stop)) :
    x.RealizedAt call n (.rest element separator) i (.hard f stop) := by
  intro parts cx s fresh here hasItems alike
  obtain ⟨s', run, rfl⟩ := (h parts cx s fresh here hasItems alike).exists_hard
  exact ⟨none, _, _, .turns_hard run, rfl⟩

end Lists

end RealizedAt

/-- All matches are realized. The induction is on the nesting of rules, and for each nesting on the
match; what it says of each construct stands above. -/
theorem realizedWithin (strict : x.recovery = false)
    (yields : x.program.ElementsYield x.names x.tokens) (n : Nat) :
    x.RealizedWithin n := by
  induction n using Nat.strongRecOn with
  | ind n shallower =>
  intro remaining depth le form i r matched
  have settled : ∀ ref active guards s o s',
      x.call remaining depth ref active guards s = .ok (o, s') → o.Settles s s' :=
    fun _ _ _ _ _ _ => call_settles
  change x.RealizedAt _ n form i r
  induction matched with
  | token matched =>
    rintro _ cx s _ rfl
    exact ⟨_, _, .token matched, congrArg (Verdict.success _) (position_advance x s)⟩
  | token_fails mismatched =>
    rintro _ cx s _ rfl
    exact ⟨_, _, .token_fails mismatched, rfl⟩
  | rule found body =>
    rintro _ cx s fresh rfl
    exact runnable_rule shallower le fresh (.rule found body)
  | rule_missing missing =>
    rintro _ cx s fresh rfl
    exact runnable_rule shallower le fresh (.rule_missing missing)
  | seq _ ih => exact (ih shallower le).seq
  | choice _ ih => exact (ih shallower le).choice strict
  | choice_empty => exact .choice_empty strict
  | opt _ ih =>
    rintro part cx s fresh rfl
    exact (ih shallower le (Program.operand_part part 0 rfl) cx s fresh rfl).opt
  | group _ ih =>
    rintro part cx s fresh rfl
    exact (ih shallower le (Program.operand_part part 0 rfl) cx s fresh rfl).group
  | list _ ih =>
    intro part cx s fresh here
    obtain ⟨o, s', run, same⟩ := ih shallower le (repeatedParts_of_list yields part) cx s fresh here
    exact ⟨o, s', .list run, same⟩
  | sepList _ ih =>
    intro part cx s fresh here
    obtain ⟨o, s', run, same⟩ :=
      ih shallower le (repeatedParts_of_sepList yields part) cx s fresh here
    exact ⟨o, s', .sepList run, same⟩
  | cut =>
    rintro _ cx s _ rfl
    exact ⟨_, _, .cut, rfl⟩
  | predicate _ ih =>
    rintro part cx s fresh rfl
    exact (ih shallower le (Program.operand_part part 0 rfl) cx s fresh rfl).predicate _
  | skip =>
    rintro _ cx s _ rfl
    exact ⟨_, _, .skip_refused (Or.inl strict), rfl⟩
  | protect _ ih => exact (ih shallower le).protect
  | null =>
    rintro _ cx s _ rfl
    exact ⟨_, _, .null, rfl⟩
  | node _ ih =>
    rintro part cx s fresh rfl
    exact (ih shallower le (Program.operand_part part 0 rfl) cx s fresh rfl).node _ _
  | enum _ ih =>
    rintro part cx s fresh rfl
    exact (ih shallower le (Program.operand_part part 0 rfl) cx s fresh rfl).enum _ _
  | items_nil =>
    rintro _ cx s _ rfl
    exact ⟨_, _, .items_nil, rfl⟩
  | items_cut cut _ ih =>
    intro parts cx s fresh here
    obtain ⟨o, s', run, same⟩ := ih shallower le (List.forall_mem_cons.mp parts).2 cx s fresh here
    exact ⟨o, s', .items_cut cut run, same⟩
  | items_next cut _ _ ihm ihms => exact (ihm shallower le).items_next cut (ihms shallower le)
  | items_fail cut _ fails ih =>
    rintro parts cx s fresh rfl
    have first := (List.forall_mem_cons.mp parts).1
    exact .items_fail settled cut fails (ih shallower le first cx s fresh rfl)
  | alternatives_decide _ decides ih =>
    intro parts cx s fresh here start best _
    have first := (List.forall_mem_cons.mp parts).1
    exact .alternatives_decide decides (ih shallower le first cx s fresh here)
  | alternatives_last _ ih => exact (ih shallower le).alternatives_last
  | alternatives_next _ _ ihm ihms =>
    exact (ihm shallower le).alternatives_next (ihms shallower le)
  | iterations_none _ stops ih =>
    rintro parts cx s fresh rfl
    exact .iterations_none stops (ih shallower le parts.element_mem cx s fresh rfl)
  | iterations_some matched moves _ ihe ihr =>
    exact (ihe shallower le).iterations_some matched moves (ihr shallower le)
  | iterations_hard _ ih => exact (ih shallower le).iterations_hard
  | next_unseparated _ ih => exact (ih shallower le).next_unseparated
  | next_separated _ _ ihs ihe => exact (ihs shallower le).next_separated (ihe shallower le)
  | next_fails _ fails ih => exact (ih shallower le).next_fails fails
  | rest_none _ stops ih =>
    rintro parts cx s fresh rfl hasItems alike
    exact Runnable.rest_none stops (ih shallower le parts cx s fresh rfl hasItems alike)
  | rest_some matched moves _ ihn ihr =>
    exact (ihn shallower le).rest_some matched moves (ihr shallower le)
  | rest_hard _ ih => exact (ih shallower le).rest_hard

end Session

end CombinatorGrammar
