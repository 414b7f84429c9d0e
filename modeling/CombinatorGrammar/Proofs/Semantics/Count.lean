import CombinatorGrammar.Proofs.Semantics.Soundness
import CombinatorGrammar.Proofs.Values.Count

/-!
# How many values a match has

Every match of a matcher has the number of values that inference found for it, under the same
conditions as every success of a run. Validation asks for one value of the elements of lists, so
none that is definite gets on without a value; that is so in the LKT grammar.
-/

namespace CombinatorGrammar

namespace Program

variable {p : Program} {names : Interner} {tokens : TokenStream}

/-- Whether a list that needs an element or has separators has a definite element; nothing is asked
of other matchers. -/
def definiteElement (p : Program) : Matcher → Bool
  | .list .oneOrMore element => p.definite element
  | .sepList _ element _ => p.definite element
  | _ => true

/-- Every list of the program that needs an element or has separators has a definite element. -/
def DefiniteElements (p : Program) : Prop := ∀ m ∈ p.parts, p.definiteElement m = true

instance (p : Program) : Decidable p.DefiniteElements := inferInstanceAs (Decidable (∀ _ ∈ _, _))

/-- What the values of a form that matches are in number. -/
def Counts (p : Program) : Form → List Value → Prop
  | .matcher m, values => p.Countable m → p.arity? m = some values.length
  | .items _ ms, values => (∀ m ∈ ms, p.Countable m) → p.arity? (.seq ms) = some values.length
  | .alternatives ms, values =>
    (∀ m ∈ ms, p.Countable m) → ∃ m ∈ ms, p.arity? m = some values.length
  | .iterations _ _ _, values => values.length = 1
  | _, _ => True

/-- Every match has the number of values that was inferred. -/
theorem Matches.counts (checked : p.Checked) (tallied : p.Tallied) {n i : Nat} {form : Form}
    {r : Verdict} (h : p.Matches names tokens n form i r) :
    ∀ values stop, r = .success values stop → p.Counts form values := by
  induction h with
  | @token _ _ _ _ keep =>
    rintro values stop ⟨⟩ _
    cases keep <;> rfl
  | rule found _ ih =>
    intro values stop same _
    have among := Array.mem_of_getElem? found
    have counted := ih values stop same
      ⟨⟨_, checked.valid _ among⟩, tallied.definite_bodies _ among⟩
    exact (tallied.settled.arity?_body found).symm.trans counted
  | seq _ ih => exact fun values stop same h => ih values stop same h.item
  | choice _ ih =>
    intro values stop same h
    obtain ⟨m, among, known⟩ := ih values stop same h.alternative
    exact h.valid.choice among known
  | @opt _ _ m r _ ih =>
    intro values stop same h
    obtain ⟨known, below⟩ := h.optional
    cases r with
    | success more j => exact ih values stop same below
    | soft f =>
      cases same
      obtain ⟨k, number⟩ := Option.isSome_iff_exists.mp known
      rw [List.length_replicate, arity_eq_getD, number]
      exact number
    | hard f j => cases same
  | @group _ _ _ r =>
    intro values stop same _
    cases r <;> cases same <;> rfl
  | list _ ih | sepList _ ih =>
    exact fun values stop same _ => congrArg some (ih values stop same).symm
  | cut | null | items_nil =>
    rintro values stop ⟨⟩ _
    rfl
  | @predicate _ _ ref _ r _ ih =>
    intro values stop same h
    cases r with
    | success more j =>
      rw [Verdict.check] at same
      split at same
      · exact ih values stop same h.predicate
      · cases same
    | soft f | hard f j => cases same
  | protect _ ih => exact fun values stop same h => ih values stop same h.protect
  | node | enum =>
    intro values stop same _
    obtain ⟨more, _, rfl⟩ := Verdict.exists_of_map same
    rfl
  | @items_cut _ _ _ m _ _ cut _ ih =>
    intro values stop same h
    have rest := ih values stop same (List.forall_mem_cons.mp h).2
    have none : p.arity? m = some 0 := by cases m <;> first | rfl | cases cut
    rw [arity?_seq_cons _ _ _ none rest, Nat.zero_add]
  | items_next _ _ _ ihm ihms =>
    intro values stop same h
    obtain ⟨more, rfl, rfl⟩ := Verdict.exists_of_map same
    obtain ⟨first, rest⟩ := List.forall_mem_cons.mp h
    rw [arity?_seq_cons _ _ _ (ihm _ _ rfl first) (ihms _ _ rfl rest), List.length_append]
  | @items_fail _ _ committed _ _ r _ _ fails =>
    intro values stop same
    cases r with
    | success more j => cases fails
    | soft f => cases committed <;> cases same
    | hard f j => cases same
  | alternatives_decide _ _ ih =>
    intro values stop same h
    exact ⟨_, List.mem_cons_self .., ih values stop same (List.forall_mem_cons.mp h).1⟩
  | @alternatives_next _ _ _ _ _ r _ _ _ ih =>
    intro values stop same h
    cases r with
    | success more j =>
      obtain ⟨m, among, known⟩ := ih values stop same (List.forall_mem_cons.mp h).2
      exact ⟨m, List.mem_cons_of_mem _ among, known⟩
    | soft f | hard f j => cases same
  | @iterations_none _ _ repetition =>
    intro values stop same
    cases repetition with
    | oneOrMore => cases same
    | zeroOrMore =>
      cases same
      rfl
  | iterations_some =>
    intro values stop same
    obtain ⟨more, _, rfl⟩ := Verdict.exists_of_map same
    rfl
  | next_unseparated | next_separated | next_fails | rest_none | rest_some | rest_hard =>
    exact fun _ _ _ => trivial
  | token_fails | rule_missing | choice_empty | skip | alternatives_last | iterations_hard =>
    intro values stop none
    cases none

/-- In a checked program with definite elements these do not get on without a value. -/
theorem DefiniteElements.elementsYield (elements : p.DefiniteElements) (checked : p.Checked)
    (tallied : p.Tallied) : p.ElementsYield names tokens where
  list element part := by
    rintro n i values j matched _ rfl
    have valid := checked.valid_part part
    have counted := matched.counts checked tallied [] j rfl
      ⟨valid.operand (List.mem_singleton_self _), elements _ part⟩
    cases valid.list counted
  sepList _ element _ part := by
    rintro n i values j matched _ rfl
    have valid := checked.valid_part part
    have counted := matched.counts checked tallied [] j rfl
      ⟨valid.operand (List.mem_cons_self ..), elements _ part⟩
    cases valid.sepList counted

end Program

/-- In the LKT grammar elements do not get on without a value where that matters. -/
theorem Lkt.exists_elementsYield :
    ∃ g : Grammar, ∃ p names, Lkt.grammar = .ok g ∧ g.resolve .initial = .ok (p, names) ∧
      ∀ names tokens, p.ElementsYield names tokens := by
  obtain ⟨g, p, names, assembled, resolved, tallied, definite⟩ := Lkt.exists_definite
  have checked := (Grammar.checked_of_resolve resolved).2
  have elements : p.DefiniteElements := by
    intro m part
    cases m with
    | list repetition element =>
      cases repetition with
      | zeroOrMore => rfl
      | oneOrMore => exact definite _ (Program.operand_part part 0 rfl)
    | sepList _ element separator =>
      exact definite _ (Program.operand_part part 0 rfl)
    | _ => rfl
  exact ⟨g, p, names, assembled, resolved, fun _ _ => elements.elementsYield checked tallied⟩

end CombinatorGrammar
