import CombinatorGrammar.Proofs.Lkt.Chart
import CombinatorGrammar.Proofs.Run.Levels

/-!
# How many values a success has

Every success of a matcher has the number of values that inference found for it, under two
conditions that resolving does not establish. Where an optional is passed over, nulls stand for
the values of its operand, and of an operand without a signature nobody knows how many; and the
last round of inference may give a rule another number of values than the one it read.
-/

namespace CombinatorGrammar

namespace Program

mutual

/-- Whether none of the values of the matcher stand for an optional operand of which it is not
known how many values it has. -/
def definite (p : Program) : Matcher → Bool
  | .seq items => definiteAll p items
  | .choice alternatives => definiteAll p alternatives
  | .opt m => (p.arity? m).isSome && definite p m
  | .predicate _ m => definite p m
  | .protect m _ => definite p m
  | _ => true

/-- Whether all of the matchers are definite. -/
def definiteAll (p : Program) : List Matcher → Bool
  | [] => true
  | m :: ms => definite p m && definiteAll p ms

end

variable {p : Program} {m : Matcher} {ms : List Matcher}

/-- A list of matchers is definite if each one of them is. -/
theorem definiteAll_iff : p.definiteAll ms = true ↔ ∀ m ∈ ms, p.definite m = true := by
  induction ms with
  | nil => simp [definiteAll]
  | cons m ms ih => simp [definiteAll, ih]

/-- The body of every rule has the number of values that references to the rule count on. -/
def Settled (p : Program) : Prop :=
  ∀ i : Fin p.rules.size, p.arity? p.rules[i].body = p.arity? (.rule ⟨i⟩)

instance (p : Program) : Decidable p.Settled := inferInstanceAs (Decidable (∀ _, _))

/-- A program in which the numbers of values of rules can be relied on. -/
structure Tallied (p : Program) : Prop where
  settled : p.Settled
  definite_bodies : ∀ rule ∈ p.rules, p.definite rule.body = true

instance (p : Program) : Decidable p.Tallied :=
  decidable_of_iff (p.Settled ∧ ∀ rule ∈ p.rules, p.definite rule.body = true)
    ⟨fun ⟨settled, bodies⟩ => ⟨settled, bodies⟩, fun ⟨settled, bodies⟩ => ⟨settled, bodies⟩⟩

/-- A rule of a settled program has the arity of its body. -/
theorem Settled.arity?_body (settled : p.Settled) {ref : RuleRef} {rule : Rule}
    (found : p.rule? ref = some rule) : p.arity? rule.body = p.arity? (.rule ref) := by
  obtain ⟨inside, rfl⟩ := Array.getElem?_eq_some_iff.mp found
  exact settled ⟨ref.index, inside⟩

/-- A matcher whose number of values can be relied on. -/
structure Countable (p : Program) (m : Matcher) : Prop where
  valid : p.Valid m
  definite : p.definite m = true

/-- The items of a countable sequence are countable. -/
theorem Countable.item (h : p.Countable (.seq ms)) : ∀ m ∈ ms, p.Countable m :=
  fun m among => ⟨h.valid.operand among, definiteAll_iff.mp h.definite m among⟩

/-- The alternatives of a countable choice are countable. -/
theorem Countable.alternative (h : p.Countable (.choice ms)) : ∀ m ∈ ms, p.Countable m :=
  fun m among => ⟨h.valid.operand among, definiteAll_iff.mp h.definite m among⟩

/-- The operand of a countable optional has a known arity and is countable. -/
theorem Countable.optional (h : p.Countable (.opt m)) :
    (p.arity? m).isSome = true ∧ p.Countable m := by
  obtain ⟨known, below⟩ := Bool.and_eq_true_iff.mp h.definite
  exact ⟨known, h.valid.operand (List.mem_singleton_self m), below⟩

theorem Countable.predicate {ref : PredicateRef} (h : p.Countable (.predicate ref m)) :
    p.Countable m :=
  ⟨h.valid.operand (List.mem_singleton_self m), h.definite⟩

theorem Countable.protect {guard : Matcher} (h : p.Countable (.protect m guard)) :
    p.Countable m :=
  ⟨h.valid.operand (List.mem_cons_self ..), h.definite⟩

/-- Where all numbers of values are known, every part is definite. -/
theorem definite_of_known (known : ∀ m ∈ p.parts, (p.arity? m).isSome = true)
    (part : m ∈ p.parts) : p.definite m = true := by
  induction m with
  | seq items ih | choice alternatives ih =>
    exact definiteAll_iff.mpr fun m among => ih m among (operand_mem_parts part among)
  | opt m ih =>
    have operand := operand_part part 0 rfl
    exact Bool.and_eq_true_iff.mpr ⟨known _ operand, ih operand⟩
  | predicate _ m ih => exact ih (operand_part part 0 rfl)
  | protect m guard ih => exact ih (operand_part part 0 rfl)
  | token | rule | group | list | sepList | cut | skip | null | node | enum => rfl

/-- Where all numbers of values are known and settled, those of rules can be relied on. -/
theorem tallied_of_known (settled : p.Settled)
    (known : ∀ m ∈ p.parts, (p.arity? m).isSome = true) : p.Tallied where
  settled := settled
  definite_bodies rule among := by
    obtain ⟨i, inside, rfl⟩ := Array.mem_iff_getElem.mp among
    have found : p.rule? ⟨i⟩ = some p.rules[i] := Array.getElem?_eq_getElem inside
    exact definite_of_known known (body_mem_parts found)

/-- Where choices have alternatives and numbers of values are settled, they are all known. -/
theorem Settled.isSome_arity? (settled : p.Settled) (checked : p.Checked)
    (choices : .choice [] ∉ p.parts) (part : m ∈ p.parts) : (p.arity? m).isSome = true := by
  rw [arity?_eq_length, Option.isSome_map]
  refine isSome_signature?_of_rules choices (fun ref reference => ?_) part
  have inside : ref.index < p.rules.size := checked.rule_lt reference
  have found : p.rule? ref = some p.rules[ref.index] := Array.getElem?_eq_getElem inside
  have productive := checked.productive _ (Array.mem_of_getElem? found)
  have same := settled.arity?_body found
  rw [arity?_eq_length, arity?_eq_length] at same
  rw [← Option.isSome_map (f := List.length), ← same, Option.isSome_map]
  exact productive

namespace Inferred

/-- Where inference knows everything, all numbers of values are known. -/
theorem isSome_arity? (inferred : p.Inferred) (checked : p.Checked) :
    ∀ m ∈ p.parts, (p.arity? m).isSome = true := by
  intro m part
  rw [arity?_eq_length, Option.isSome_map]
  exact inferred.isSome_signature? checked part

/-- Where inference knows everything, every part is definite. -/
theorem definite (inferred : p.Inferred) (checked : p.Checked) (part : m ∈ p.parts) :
    p.definite m = true :=
  definite_of_known (inferred.isSome_arity? checked) part

/-- Where inference knows everything, the numbers of values of rules can be relied on. -/
theorem tallied (inferred : p.Inferred) (checked : p.Checked) : p.Tallied := by
  refine tallied_of_known (fun i => ?_) (inferred.isSome_arity? checked)
  have found : p.rule? ⟨i⟩ = some p.rules[i] := Array.getElem?_eq_getElem i.isLt
  rw [arity?_eq_length, arity?_eq_length, inferred.signature?_body found]

end Inferred

end Program

/-- In the LKT grammar all numbers of values can be relied on. -/
theorem Lkt.exists_definite :
    ∃ g : Grammar, ∃ p names, Lkt.grammar = .ok g ∧ g.resolve .initial = .ok (p, names) ∧
      p.Tallied ∧ ∀ m ∈ p.parts, p.definite m = true := by
  obtain ⟨g, p, names, assembled, resolved, inferred⟩ := Lkt.exists_inferred
  have checked := (Grammar.checked_of_resolve resolved).2
  exact ⟨g, p, names, assembled, resolved, inferred.tallied checked,
    fun _ part => inferred.definite checked part⟩

namespace Session

variable {x : Session} {call : Call} {cx : Context} {s s' : State} {o : Outcome}

/-- What the values of a successful job are in number. -/
def Counts (p : Program) : Job → List Value → Prop
  | .matcher m, values => p.Countable m → p.arity? m = some values.length
  | .items _ ms, values => (∀ m ∈ ms, p.Countable m) → p.arity? (.seq ms) = some values.length
  | .alternatives _ _ _ _ ms, values =>
    (∀ m ∈ ms, p.Countable m) → ∃ m ∈ ms, p.arity? m = some values.length
  | .repeated _ _ _, values => values.length = 1
  | _, _ => True

/-- Every success has the number of values that was inferred, if the calls of rules do. -/
theorem Runs.counts {job : Job}
    (calls : ∀ ref active guards s values s', call ref active guards s = .ok (.success values, s') →
      x.program.arity? (.rule ref) = some values.length)
    (run : x.Runs call job cx s o s') :
    ∀ values, o = .success values → Counts x.program job values := by
  induction run with
  | @token _ _ keep =>
    rintro values ⟨⟩ _
    cases keep <;> rfl
  | rule called =>
    rintro values rfl _
    exact calls _ _ _ _ _ _ called
  | seq _ ih =>
    rintro values ⟨⟩ h
    exact ih _ rfl h.item
  | choice _ ih =>
    intro values same h
    obtain ⟨m, among, known⟩ := ih values same h.alternative
    exact h.valid.choice among known
  | opt _ ih =>
    rintro values ⟨⟩ h
    exact ih _ rfl h.optional.2
  | opt_soft =>
    rintro values ⟨⟩ h
    obtain ⟨i, known⟩ := Option.isSome_iff_exists.mp h.optional.1
    rw [List.length_replicate, Program.arity_eq_getD, known]
    exact known
  | group | group_soft | skip | null | node | enum =>
    rintro values ⟨⟩ _
    rfl
  | list _ ih | sepList _ ih =>
    intro values same _
    exact congrArg some (ih values same).symm
  | cut | items_nil =>
    rintro values ⟨⟩ _
    rfl
  | predicate _ _ ih =>
    rintro values ⟨⟩ h
    exact ih _ rfl h.predicate
  | protect _ ih => exact fun values same h => ih values same h.protect
  | @items_cut _ m _ _ _ _ _ cut _ ih =>
    intro values same h
    have rest := ih values same (List.forall_mem_cons.mp h).2
    have none : x.program.arity? m = some 0 := by cases m <;> first | rfl | cases cut
    rw [Program.arity?_seq_cons _ _ _ none rest, Nat.zero_add]
  | items_next _ _ _ ihm ihms =>
    rintro values ⟨⟩ h
    obtain ⟨first, rest⟩ := List.forall_mem_cons.mp h
    rw [Program.arity?_seq_cons _ _ _ (ihm _ rfl first) (ihms _ rfl rest), List.length_append]
  | alternatives_passed _ _ ih | alternatives_soft _ _ _ _ ih | alternatives_recover _ _ _ _ ih =>
    intro values same h
    obtain ⟨m, among, known⟩ := ih values same (List.forall_mem_cons.mp h).2
    exact ⟨m, List.mem_cons_of_mem _ among, known⟩
  | alternatives_success _ _ ih =>
    rintro values ⟨⟩ h
    exact ⟨_, List.mem_cons_self .., ih _ rfl (List.forall_mem_cons.mp h).1⟩
  | repeated _ done =>
    rintro values rfl
    rcases finishList_cases done with ⟨_, none, _⟩ | ⟨_, only, _⟩
    · cases none
    · cases only
      rfl
  | predicate_fails _ fails | node_fails _ fails | enum_fails _ fails
  | items_later _ _ _ fails =>
    rintro values rfl
    cases fails
  | turn_first | turn_next | turn_fails => exact fun _ _ => trivial
  | turns_next | turns_later | turns_hard | turns_soft | turns_idle => exact fun _ _ => trivial
  | probe_nil | probe_match | probe_next => exact fun _ _ => trivial
  -- what fails has no values
  | _ => exact fun _ none => nomatch none

/-- Every call of a rule that succeeds has the number of values that references count on. -/
theorem call_counts (checked : x.program.Checked) (tallied : x.program.Tallied)
    {remaining depth : Nat} {ref : RuleRef} {active : List (RuleRef × Nat)}
    {guards : List Matcher} {values : List Value}
    (h : x.call remaining depth ref active guards s = .ok (.success values, s')) :
    x.program.arity? (.rule ref) = some values.length := by
  refine call_induction (Q := fun ref _ o _ => ∀ values, o = .success values →
    x.program.arity? (.rule ref) = some values.length) ?_ h values rfl
  intro call calls ref active guards s o s' entered values same
  subst same
  rcases enter_cases entered with ⟨rule, found, run⟩ | ⟨_, none, _⟩
  · have among := Array.mem_of_getElem? found
    have counted : x.program.arity? rule.body = some values.length :=
      run.counts (fun ref active guards s values s' called => calls _ _ _ _ _ _ called values rfl)
        values rfl ⟨⟨rule.name, checked.valid rule among⟩, tallied.definite_bodies rule among⟩
    exact (tallied.settled.arity?_body found).symm.trans counted
  · cases none

end Session

end CombinatorGrammar
