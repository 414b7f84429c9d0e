import CombinatorGrammar.Proofs.Program.Parts
import CombinatorGrammar.Proofs.Run.Transaction
import CombinatorGrammar.Proofs.Semantics.Matches

/-!
# Runs without recovery are matches

Every end of a run without recovery is a verdict of the relation: the state matters only for its
position. The interpreter tells by the values that it has collected whether a list has an element
and whether a separator is due. So where a list needs an element, or has separators, its elements
must not get on without a value; in other lists they may.
-/

namespace CombinatorGrammar

namespace Program

/-- The matcher never gets on without a value. -/
def Yields (p : Program) (names : Interner) (tokens : TokenStream) (m : Matcher) : Prop :=
  ∀ n i values j, p.Matches names tokens n (.matcher m) i (.success values j) → i < j →
    values ≠ []

/-- In every list of the program that needs an element or has separators, the element never gets
on without a value. -/
structure ElementsYield (p : Program) (names : Interner) (tokens : TokenStream) : Prop where
  list : ∀ element, .list .oneOrMore element ∈ p.parts → p.Yields names tokens element
  sepList : ∀ repetition element separator, .sepList repetition element separator ∈ p.parts →
    p.Yields names tokens element

end Program

/-- The verdict of a run that ended with the outcome in the state. -/
def Verdict.ofRun (s : State) : Outcome → Verdict
  | .success values => .success values s.position
  | .soft f => .soft f
  | .hard f => .hard f s.position

theorem Verdict.isSuccess_ofRun (s : State) (o : Outcome) :
    (ofRun s o).isSuccess = o.isSuccess := by
  cases o <;> rfl

namespace Session

variable {x : Session} {call : Call} {cx : Context} {s s' : State} {o : Outcome}

/-- What the program of a session matches. -/
def Matches (x : Session) (n : Nat) (form : Form) (i : Nat) (r : Verdict) : Prop :=
  x.program.Matches x.names x.tokens n form i r

/-- The matcher never gets on without a value, among the tokens of a session. -/
def Yields (x : Session) (m : Matcher) : Prop := x.program.Yields x.names x.tokens m

/-- From here on the turns of a list are alike: a separator is due before each, or before none. -/
def Alike (separator : Option Matcher) (hasItems : Bool) : Prop :=
  hasItems = true ∨ separator = none

/-- Turns that are alike remain so. -/
theorem Alike.or {separator : Option Matcher} {hasItems : Bool} (h : Alike separator hasItems)
    (more : Bool) : Alike separator (hasItems || more) := by
  rcases h with rfl | unseparated
  · exact Or.inl rfl
  · exact Or.inr unseparated

/-- The matchers are those of a list of the program, whose element never gets on without a value
if there are separators. -/
structure ListParts (x : Session) (element : Matcher) (separator : Option Matcher) : Prop where
  element_mem : element ∈ x.program.parts
  separator_mem : ∀ m ∈ separator, m ∈ x.program.parts
  yields : separator = none ∨ x.Yields element

/-- The matchers are those of a list of the program, whose element never gets on without a value
if that matters. -/
structure RepeatedParts (x : Session) (repetition : Repetition) (element : Matcher)
    (separator : Option Matcher) : Prop extends x.ListParts element separator where
  needed : repetition = .oneOrMore → x.Yields element

/-- The parts of a plain list are parts of the program. -/
theorem repeatedParts_of_list (yields : x.program.ElementsYield x.names x.tokens)
    {repetition : Repetition} {element : Matcher}
    (part : .list repetition element ∈ x.program.parts) :
    x.RepeatedParts repetition element none where
  element_mem := Program.operand_part part 0 rfl
  separator_mem := by simp
  yields := Or.inl rfl
  needed := by
    rintro rfl
    exact yields.list _ part

/-- The parts of a separated list are parts of the program. -/
theorem repeatedParts_of_sepList (yields : x.program.ElementsYield x.names x.tokens)
    {repetition : Repetition} {element separator : Matcher}
    (part : .sepList repetition element separator ∈ x.program.parts) :
    x.RepeatedParts repetition element (some separator) where
  element_mem := Program.operand_part part 0 rfl
  separator_mem := by simpa using Program.operand_part part 1 rfl
  yields := Or.inr (yields.sepList _ _ _ part)
  needed := fun _ => yields.sepList _ _ _ part

/-- Behind an iteration that got on, the turns are alike. -/
theorem ListParts.alike {element : Matcher} {separator : Option Matcher}
    (parts : x.ListParts element separator) {n i j : Nat} {values : List Value}
    (matched : x.Matches n (.matcher element) i (.success values j)) (moves : i < j) :
    Alike separator (false || !values.isEmpty) := by
  rcases parts.yields with unseparated | yields
  · exact Or.inr unseparated
  · have some : values ≠ [] := yields _ _ _ _ matched moves
    exact Or.inl (by simpa using some)

/-- The job runs parts of the program. -/
def RunsParts (x : Session) : Job → Prop
  | .matcher m => m ∈ x.program.parts
  | .items _ ms => ∀ m ∈ ms, m ∈ x.program.parts
  | .alternatives recovers _ _ committed ms =>
    recovers = false ∧ committed = none ∧ ∀ m ∈ ms, m ∈ x.program.parts
  | .repeated repetition element separator => x.RepeatedParts repetition element separator
  | .turn element separator _ => x.ListParts element separator
  | .turns element separator _ _ => x.ListParts element separator
  | .probe _ => True

/-- The verdict that a run of each job stands for. -/
def Agrees (x : Session) (n : Nat) : Job → State → Outcome → State → Prop
  | .matcher m, s, o, s' => x.Matches n (.matcher m) s.position (.ofRun s' o)
  | .items committed ms, s, o, s' => x.Matches n (.items committed ms) s.position (.ofRun s' o)
  | .alternatives _ start best _ ms, s, o, s' => start.position = s.position →
    (ms = [] ∧ o = .soft (best.getD (.plain s.position))) ∨
    ∃ r, x.Matches n (.alternatives ms) s.position r ∧ .ofRun s' o = best.elim r r.orFurther
  | .repeated repetition element separator, s, o, s' =>
    x.Matches n (.iterations repetition element separator) s.position (.ofRun s' o)
  | .turn element _ false, s, o, s' => x.Matches n (.matcher element) s.position (.ofRun s' o)
  | .turn element separator true, s, o, s' =>
    x.Matches n (.next element separator) s.position (.ofRun s' o)
  | .turns element separator true _, s, o, s' =>
    x.Matches n (.rest element separator) s.position (.ofRun s' o)
  | .turns element separator false last, s, o, s' =>
    (∃ values j r, x.Matches n (.matcher element) s.position (.success values j) ∧
      s.position < j ∧ x.Matches n (.rest element separator) j r ∧
      .ofRun s' o = r.prepend values) ∨
    (∃ r, x.Matches n (.matcher element) s.position r ∧ r.stops s.position = true ∧
      o = .success [] ∧ s'.position = s.position ∧
      last.getD (.plain s.position) = r.lack s.position) ∨
    (∃ f, o = .hard f ∧ x.Matches n (.matcher element) s.position (.ofRun s' o))
  | .probe _, _, _, _ => True

theorem position_advance (x : Session) (s : State) :
    (x.advance s).position = x.tokens.after s.position := by
  unfold advance atEnd current TokenStream.after
  split <;> rfl

/-- An iteration that does not get on stops the list. -/
theorem stops_of_idle {n i j : Nat} {form : Form} {values : List Value}
    (matched : x.Matches n form i (.success values j))
    (idle : ¬ (i < j ∧ j ≤ x.tokens.lastPosition)) :
    (Verdict.success values j).stops i = true := by
  have inside := matched.stop_le j rfl
  have stays : ¬ i < j := by omega
  simp [Verdict.stops, stays]

/-- Turns that are alike are the rest of a list. -/
theorem Agrees.rest {n : Nat} {element : Matcher} {separator : Option Matcher} {hasItems : Bool}
    {last : Option Failure} (h : x.Agrees n (.turns element separator hasItems last) s o s')
    (alike : Alike separator hasItems) :
    x.Matches n (.rest element separator) s.position (.ofRun s' o) := by
  cases hasItems with
  | true => exact h
  | false =>
    obtain rfl : separator = none := alike.resolve_left (by simp)
    rcases h with ⟨values, j, r, first, moves, others, same⟩ | ⟨r, only, stops, rfl, stays, _⟩ |
      ⟨f, rfl, only⟩
    · rw [same]
      exact .rest_some (.next_unseparated first) moves others
    · rw [Verdict.ofRun, stays]
      exact .rest_none (.next_unseparated only) stops
    · exact .rest_hard (.next_unseparated only)

section Constructs

variable {n : Nat} {m : Matcher} {ms : List Matcher} {values : List Value} {f : Failure}
  {s₁ : State} {o₁ : Outcome}

/-- What a predicate accepts remains as it is. -/
theorem Agrees.predicate {ref : PredicateRef} (holds : x.program.accepts x.names ref values = true)
    (h : x.Agrees n (.matcher m) s (.success values) s') :
    x.Agrees n (.matcher (.predicate ref m)) s (.success values) s' := by
  have checked : x.Matches n (.matcher (.predicate ref m)) _ _ := .predicate h
  rwa [Verdict.ofRun, Verdict.check, if_pos holds] at checked

/-- What a predicate rejects has failed where it began. -/
theorem Agrees.predicate_rejects {ref : PredicateRef}
    (rejects : x.program.accepts x.names ref values = false)
    (h : x.Agrees n (.matcher m) s (.success values) s₁) :
    x.Agrees n (.matcher (.predicate ref m)) s (.soft ⟨s.position, [.predicate ref]⟩) s' := by
  have checked : x.Matches n (.matcher (.predicate ref m)) _ _ := .predicate h
  rwa [Verdict.ofRun, Verdict.check, if_neg (Bool.eq_false_iff.mp rejects)] at checked

/-- What has failed is not checked. -/
theorem Agrees.predicate_fails {ref : PredicateRef} (fails : o.isSuccess = false)
    (h : x.Agrees n (.matcher m) s o s') : x.Agrees n (.matcher (.predicate ref m)) s o s' := by
  have checked : x.Matches n (.matcher (.predicate ref m)) _ _ := .predicate h
  rwa [Verdict.check_of_fails _ _ (by rwa [Verdict.isSuccess_ofRun])] at checked

/-- No node is built of what has failed. -/
theorem Agrees.node_fails {type : NodeRef} {layout : List FieldKind} (fails : o.isSuccess = false)
    (h : x.Agrees n (.matcher m) s o s') : x.Agrees n (.matcher (.node type layout m)) s o s' := by
  have built : x.Matches n (.matcher (.node type layout m)) _ _ := .node h
  rwa [Verdict.map_of_fails _ (by rwa [Verdict.isSuccess_ofRun])] at built

/-- No enumeration value is built of what has failed. -/
theorem Agrees.enum_fails {type : EnumRef} {alternative : Nat} (fails : o.isSuccess = false)
    (h : x.Agrees n (.matcher m) s o s') :
    x.Agrees n (.matcher (.enum type alternative m)) s o s' := by
  have built : x.Matches n (.matcher (.enum type alternative m)) _ _ := .enum h
  rwa [Verdict.map_of_fails _ (by rwa [Verdict.isSuccess_ofRun])] at built

/-- A failure of a later item is that of the items. -/
theorem Agrees.items_later {committed : Bool} (cut : m.isCut = false) (fails : o.isSuccess = false)
    (first : x.Agrees n (.matcher m) s (.success values) s₁)
    (later : x.Agrees n (.items committed ms) s₁ o s') :
    x.Agrees n (.items committed (m :: ms)) s o s' := by
  have passed : x.Matches n (.items committed (m :: ms)) _ _ := .items_next cut first later
  rwa [Verdict.prepend, Verdict.map_of_fails _ (by rwa [Verdict.isSuccess_ofRun])] at passed

/-- Behind a cut a soft failure of an item becomes a hard one. -/
theorem Agrees.items_commit (cut : m.isCut = false) (stays : s'.position = s.position)
    (h : x.Agrees n (.matcher m) s (.soft f) s') :
    x.Agrees n (.items true (m :: ms)) s (.hard f) s' := by
  have failed : x.Matches n (.items true (m :: ms)) _ _ := .items_fail cut h rfl
  rw [Agrees, Verdict.ofRun, stays]
  exact failed

section Alternatives

variable {recovers : Bool} {start : Mark} {best committed : Option Failure}

/-- An alternative that does not fail softly decides the choice. -/
theorem Agrees.alternatives_decide (decides : (Verdict.ofRun s' o).isSoft = false)
    (h : x.Agrees n (.matcher m) s o s') :
    x.Agrees n (.alternatives recovers start best committed (m :: ms)) s o s' := by
  intro _
  refine Or.inr ⟨_, .alternatives_decide h decides, ?_⟩
  cases best with
  | none => rfl
  | some b =>
    cases o with
    | success values => rfl
    | soft f => cases decides
    | hard f => rfl

/-- Behind an alternative that fails softly, the others decide from where the choice began. -/
theorem Agrees.alternatives_soft (first : x.Agrees n (.matcher m) s (.soft f) s₁)
    (later : x.Agrees n
      (.alternatives recovers start (some (best.elim f (·.further f))) committed ms)
      (s₁.rewind start) o s') :
    x.Agrees n (.alternatives recovers start best committed (m :: ms)) s o s' := by
  intro here
  have later := later rfl
  rw [show (s₁.rewind start).position = s.position from here] at later
  rcases later with ⟨rfl, rfl⟩ | ⟨r, others, same⟩
  · refine Or.inr ⟨.soft f, .alternatives_last first, ?_⟩
    cases best <;> rfl
  · refine Or.inr ⟨_, .alternatives_next first others, same.trans ?_⟩
    cases best with
    | none => rfl
    | some b => exact (Verdict.orFurther_orFurther b f r).symm

end Alternatives

section Lists

variable {repetition : Repetition} {element : Matcher} {separator : Option Matcher}
  {hasItems : Bool} {last : Option Failure}

/-- A turn without a separator is the element alone. -/
theorem Agrees.turn_first (without : separator = none ∨ hasItems = false)
    (h : x.Agrees n (.matcher element) s o s') :
    x.Agrees n (.turn element separator hasItems) s o s' := by
  cases hasItems with
  | false => exact h
  | true =>
    obtain rfl := without.resolve_right (by simp)
    exact .next_unseparated h

/-- Behind a turn that gets on, the others follow. -/
theorem Agrees.turns_next (parts : x.ListParts element separator)
    (first : x.Agrees n (.turn element separator hasItems) s (.success values) s₁)
    (moves : s.position < s₁.position)
    (later : x.Agrees n (.turns element separator (hasItems || !values.isEmpty) last) s₁ o₁ s')
    (same : Verdict.ofRun s' o = (Verdict.ofRun s' o₁).prepend values) :
    x.Agrees n (.turns element separator hasItems last) s o s' := by
  cases hasItems with
  | true =>
    rw [Agrees, same]
    exact .rest_some first moves later
  | false => exact Or.inl ⟨_, _, _, first, moves, later.rest (parts.alike first moves), same⟩

/-- A turn that succeeds without getting on stops the list. -/
theorem Agrees.turn_stops
    (h : x.Agrees n (.turn element separator hasItems) s (.success values) s₁)
    (idle : ¬ (s.position < s₁.position ∧ s₁.position ≤ x.tokens.lastPosition)) :
    (Verdict.ofRun s₁ (.success values)).stops s.position = true := by
  cases hasItems with
  | true => exact stops_of_idle h idle
  | false => exact stops_of_idle h idle

/-- A turn that does not get on is the last one. -/
theorem Agrees.turns_stop (h : x.Agrees n (.turn element separator hasItems) s o₁ s₁)
    (stops : (Verdict.ofRun s₁ o₁).stops s.position = true) (stays : s'.position = s.position)
    (lacks : last.getD (.plain s.position) = (Verdict.ofRun s₁ o₁).lack s.position) :
    x.Agrees n (.turns element separator hasItems last) s (.success []) s' := by
  cases hasItems with
  | true =>
    rw [Agrees, Verdict.ofRun, stays]
    exact .rest_none h stops
  | false => exact Or.inr (Or.inl ⟨_, h, stops, rfl, stays, lacks⟩)

/-- A turn that fails for good ends the list. -/
theorem Agrees.turns_hard (h : x.Agrees n (.turn element separator hasItems) s (.hard f) s') :
    x.Agrees n (.turns element separator hasItems last) s (.hard f) s' := by
  cases hasItems with
  | true => exact .rest_hard h
  | false => exact Or.inr (Or.inr ⟨_, rfl, h⟩)

/-- A list has the items of its turns. If it needs one and has none, it fails as its first element
did; an element that got on has left an item. -/
theorem Agrees.repeated {items : List Value} (parts : x.RepeatedParts repetition element separator)
    (h : x.Agrees n (.turns element separator false last) s (.success items) s₁)
    (done : finishList repetition s.mark items last s₁ = .ok (o, s')) :
    x.Agrees n (.repeated repetition element separator) s o s' := by
  rcases h with ⟨values, j, r, first, moves, others, same⟩ | ⟨r, only, stops, none, stays, lacks⟩ |
    ⟨f, none, _⟩
  · have taken : x.Matches n (.iterations repetition element separator) _ _ :=
      .iterations_some first moves others
    rw [← same] at taken
    rcases finishList_cases done with ⟨⟨needed, rfl⟩, _, _⟩ | ⟨_, rfl, rfl⟩
    · have some : values ≠ [] := parts.needed needed _ _ _ _ first moves
      cases r with
      | success more k =>
        cases values with
        | nil => exact absurd rfl some
        | cons => cases same
      | soft f | hard f k => cases same
    · exact taken
  · cases none
    have taken : x.Matches n (.iterations repetition element separator) _ _ :=
      .iterations_none only stops
    rcases finishList_cases done with ⟨⟨rfl, _⟩, rfl, rfl⟩ | ⟨enough, rfl, rfl⟩
    · rw [Agrees, Verdict.ofRun]
      rw [Verdict.ofNone, ← lacks] at taken
      exact taken
    · cases repetition with
      | oneOrMore => exact absurd ⟨rfl, rfl⟩ enough
      | zeroOrMore =>
        rw [Agrees, Verdict.ofRun, stays]
        exact taken
  · cases none

/-- A list fails for good as one of its turns does. -/
theorem Agrees.repeated_hard (h : x.Agrees n (.turns element separator false last) s (.hard f) s') :
    x.Agrees n (.repeated repetition element separator) s (.hard f) s' := by
  rcases h with ⟨values, j, r, first, moves, others, same⟩ | ⟨_, _, _, none, _⟩ | ⟨f, same, only⟩
  · have taken : x.Matches n (.iterations repetition element separator) _ _ :=
      .iterations_some first moves others
    rw [← same] at taken
    exact taken
  · cases none
  · cases same
    exact .iterations_hard only

end Lists

end Constructs

/-- Every run without recovery is a match, if the calls of rules are. The induction is on the run;
what it says of each construct stands above. -/
theorem Runs.agrees {n : Nat} {job : Job} (strict : x.recovery = false)
    (yields : x.program.ElementsYield x.names x.tokens)
    (settled : ∀ ref active guards s o s',
      call ref active guards s = .ok (o, s') → o.Settles s s')
    (calls : ∀ ref active guards s o s', call ref active guards s = .ok (o, s') →
      x.Matches n (.matcher (.rule ref)) s.position (.ofRun s' o))
    (run : x.Runs call job cx s o s') (parts : x.RunsParts job) : x.Agrees n job s o s' := by
  induction run with
  | token matched =>
    rw [Agrees, Verdict.ofRun, position_advance]
    exact .token matched
  | token_fails mismatched => exact .token_fails mismatched
  | rule called => exact calls _ _ _ _ _ _ called
  | seq _ ih => exact .seq (ih fun m among => Program.operand_mem_parts parts among)
  | seq_soft _ ih => exact .seq (ih fun m among => Program.operand_mem_parts parts among)
  | seq_hard _ ih => exact .seq (ih fun m among => Program.operand_mem_parts parts among)
  | choice _ ih =>
    have below := ih ⟨by rw [strict, Bool.and_false], rfl,
      fun m among => Program.operand_mem_parts parts among⟩ rfl
    rcases below with ⟨rfl, rfl⟩ | ⟨r, matched, same⟩
    · exact .choice_empty
    · rw [Agrees, same]
      exact .choice matched
  | opt _ ih | opt_soft _ ih | opt_hard _ ih =>
    exact .opt (ih (Program.operand_part parts 0 rfl))
  | group _ ih | group_soft _ ih | group_hard _ ih =>
    exact .group (ih (Program.operand_part parts 0 rfl))
  | list _ ih => exact .list (ih (repeatedParts_of_list yields parts))
  | sepList _ ih => exact .sepList (ih (repeatedParts_of_sepList yields parts))
  | cut => exact .cut
  | predicate _ holds ih => exact (ih (Program.operand_part parts 0 rfl)).predicate holds
  | predicate_rejects _ rejects ih =>
    exact (ih (Program.operand_part parts 0 rfl)).predicate_rejects rejects
  | predicate_fails _ fails ih =>
    exact (ih (Program.operand_part parts 0 rfl)).predicate_fails fails
  | skip recovery | skip_guarded recovery =>
    rw [strict] at recovery
    cases recovery
  | skip_refused => exact .skip
  | protect _ ih => exact .protect (ih (Program.operand_part parts 0 rfl))
  | null => exact .null
  | node _ ih => exact .node (ih (Program.operand_part parts 0 rfl))
  | node_fails _ fails ih => exact (ih (Program.operand_part parts 0 rfl)).node_fails fails
  | enum _ ih => exact .enum (ih (Program.operand_part parts 0 rfl))
  | enum_fails _ fails ih => exact (ih (Program.operand_part parts 0 rfl)).enum_fails fails
  | items_nil => exact .items_nil
  | items_cut cut _ ih => exact .items_cut cut (ih (List.forall_mem_cons.mp parts).2)
  | items_next cut _ _ ihm ihms =>
    obtain ⟨first, rest⟩ := List.forall_mem_cons.mp parts
    exact .items_next cut (ihm first) (ihms rest)
  | items_later cut _ _ fails ihm ihms =>
    obtain ⟨first, rest⟩ := List.forall_mem_cons.mp parts
    exact (ihm first).items_later cut fails (ihms rest)
  | items_soft cut _ ih =>
    exact .items_fail cut (ih (List.forall_mem_cons.mp parts).1) rfl
  | items_commit cut run ih =>
    have failed := ih (List.forall_mem_cons.mp parts).1
    exact failed.items_commit cut (run.settles settled).position_eq
  | items_hard cut _ ih =>
    exact .items_fail cut (ih (List.forall_mem_cons.mp parts).1) rfl
  | alternatives_nil => exact fun here => Or.inl ⟨rfl, by rw [here]⟩
  | alternatives_given_up => cases parts.2.1
  | alternatives_passed passed =>
    rw [parts.2.1] at passed
    cases passed
  | alternatives_success _ _ ih | alternatives_hard _ _ ih =>
    exact (ih (List.forall_mem_cons.mp parts.2.2).1).alternatives_decide rfl
  | alternatives_soft _ _ _ ihm ihms =>
    obtain ⟨first, rest⟩ := List.forall_mem_cons.mp parts.2.2
    exact (ihm first).alternatives_soft (ihms ⟨parts.1, parts.2.1, rest⟩)
  | alternatives_recover => cases parts.1
  | repeated _ done ih => exact (ih parts.toListParts).repeated parts done
  | repeated_hard _ ih => exact (ih parts.toListParts).repeated_hard
  | turn_first without _ ih => exact (ih parts.element_mem).turn_first without
  | turn_next _ _ ihs ihe =>
    exact .next_separated (ihs (parts.separator_mem _ rfl)) (ihe parts.element_mem)
  | turn_fails _ fails ih =>
    exact .next_fails (ih (parts.separator_mem _ rfl)) (by rwa [Verdict.isSuccess_ofRun])
  | turns_next _ moved _ ih ihms | turns_later _ moved _ ih ihms =>
    exact (ih parts).turns_next parts moved.1 (ihms parts) rfl
  | turns_hard _ ih => exact (ih parts).turns_hard
  | turns_soft _ ih => exact (ih parts).turns_stop rfl rfl rfl
  | turns_idle _ idle ih =>
    have first := ih parts
    exact first.turns_stop (first.turn_stops idle) rfl rfl
  | probe_nil | probe_match | probe_next => trivial

/-- Every call without recovery is a match, with rules nested as deeply as levels remain. -/
theorem call_agrees (strict : x.recovery = false)
    (yields : x.program.ElementsYield x.names x.tokens) {remaining depth : Nat} {ref : RuleRef}
    {active : List (RuleRef × Nat)} {guards : List Matcher}
    (h : x.call remaining depth ref active guards s = .ok (o, s')) :
    x.Matches remaining (.matcher (.rule ref)) s.position (.ofRun s' o) := by
  induction remaining generalizing depth ref active guards s o s' with
  | zero =>
    obtain ⟨rest, none, _⟩ := call_eq_ok_iff.mp h
    cases none
  | succ remaining ih =>
    obtain ⟨rest, same, _, entered⟩ := call_eq_ok_iff.mp h
    cases same
    rcases enter_cases entered with ⟨rule, found, run⟩ | ⟨missing, rfl, rfl⟩
    · exact .rule found (run.agrees strict yields
        (fun _ _ _ _ _ _ => call_settles) (fun _ _ _ _ _ _ called => ih called)
        (Program.body_mem_parts found))
    · exact .rule_missing missing

/-- The reports from before a mark survive going back to it. -/
theorem pending_rewind {m : Mark} (same : s'.pending = s.pending)
    (count : m.pending = s.pending.length) : (s'.rewind m).pending = s.pending := by
  rw [State.rewind, same, count, Nat.sub_self, List.drop_zero]

/-- The job adds and drops no diagnostic. -/
def Quiet : Job → State → State → Prop
  | .alternatives recovers start _ committed _, s, s' => recovers = false → committed = none →
    start.pending = s.pending.length → s'.pending = s.pending
  | _, s, s' => s'.pending = s.pending

/-- Without recovery nothing is reported. -/
theorem Runs.quiet {job : Job} (strict : x.recovery = false)
    (calls : ∀ ref active guards s o s', call ref active guards s = .ok (o, s') →
      s'.pending = s.pending)
    (run : x.Runs call job cx s o s') : Quiet job s s' := by
  induction run with
  | token =>
    unfold advance
    split <;> rfl
  | rule called => exact calls _ _ _ _ _ _ called
  | seq_soft _ ih | opt_soft _ ih | group_soft _ ih | predicate_rejects _ _ ih | turns_soft _ ih
  | turns_idle _ _ ih | probe_match _ ih => exact pending_rewind ih rfl
  | choice _ ih => exact ih (by rw [strict, Bool.and_false]) rfl rfl
  | skip recovery | skip_guarded recovery =>
    rw [strict] at recovery
    cases recovery
  | items_next _ _ _ ihm ihms | items_later _ _ _ _ ihm ihms | turn_next _ _ ihm ihms
  | turns_next _ _ _ ihm ihms | turns_later _ _ _ ihm ihms => exact ihms.trans ihm
  | alternatives_nil => exact fun _ _ _ => rfl
  | alternatives_given_up => exact fun _ none => nomatch none
  | alternatives_passed _ _ ih => exact ih
  | alternatives_success _ _ ih | alternatives_hard _ _ ih => exact fun _ _ _ => ih
  | alternatives_soft _ _ _ ihm ihms =>
    intro plain none count
    have undone := pending_rewind ihm count
    exact (ihms plain none (by rw [undone]; exact count)).trans undone
  | alternatives_recover => exact fun recovers => nomatch recovers
  | repeated _ done ih =>
    rcases finishList_cases done with ⟨_, _, rfl⟩ | ⟨_, _, rfl⟩
    · exact pending_rewind ih rfl
    · exact ih
  | probe_next _ _ _ ihm ihms => exact ihms.trans (pending_rewind ihm rfl)
  | token_fails | cut | skip_refused | null | items_nil | probe_nil => rfl
  | seq _ ih | seq_hard _ ih | opt _ ih | opt_hard _ ih | group _ ih | group_hard _ ih | list _ ih
  | sepList _ ih | predicate _ _ ih | predicate_fails _ _ ih | protect _ ih | node _ ih
  | node_fails _ _ ih | enum _ ih | enum_fails _ _ ih | items_cut _ _ ih | items_soft _ _ ih
  | items_commit _ _ ih | items_hard _ _ ih | repeated_hard _ ih | turn_first _ _ ih
  | turn_fails _ _ ih | turns_hard _ ih => exact ih

/-- Without recovery no call reports anything. -/
theorem call_quiet (strict : x.recovery = false) {remaining depth : Nat} {ref : RuleRef}
    {active : List (RuleRef × Nat)} {guards : List Matcher}
    (h : x.call remaining depth ref active guards s = .ok (o, s')) : s'.pending = s.pending := by
  refine call_induction (Q := fun _ s _ s' => s'.pending = s.pending) ?_ h
  intro call calls ref active guards s o s' entered
  rcases enter_cases entered with ⟨rule, _, run⟩ | ⟨_, _, rfl⟩
  · exact run.quiet strict calls
  · rfl

end Session

end CombinatorGrammar
