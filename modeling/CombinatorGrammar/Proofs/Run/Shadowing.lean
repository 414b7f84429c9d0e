import CombinatorGrammar.Proofs.Recovery.Protection
import CombinatorGrammar.Proofs.Run.SoftEnds

/-!
# Alternatives that are never left anything

Where a mark in front of one expression fails softly, parentheses behind the mark hold nothing: if
they held expressions, they would be an expression themselves. The two ways to write what is
optional look at those expressions on different levels and behind different rules; but what ends
further down and behind more rules also ends further up, and alike.
-/

namespace CombinatorGrammar

namespace Session

variable {x : Session} {call : Call} {cx : Context} {s s' t t' : State} {o : Outcome} {f : Failure}
  {remaining depth : Nat} {values : List Value}

/-- A matcher that ends further down and behind more rules ends alike at the same position. -/
theorem Runs.further_up {m : Matcher} {rest depth' : Nat} {active : List (RuleRef × Nat)}
    (run : x.Runs (x.call rest depth') (.matcher m) ⟨active, cx.guards⟩ s o s')
    (levels : rest ≤ remaining) (fewer : cx.active ⊆ active) (here : t.position = s.position) :
    ∃ t', x.Runs (x.call remaining depth) (.matcher m) cx t o t' := by
  have calls : CallsTransfer s.pending t.pending (x.call rest depth') (x.call remaining depth) :=
    callsTransfer x levels depth' depth
  obtain ⟨t', run', _⟩ := run.transfers calls _ cx.active t rfl fewer (.refl here)
  exact ⟨t', run'⟩

/-- A list that has found items would have found them if it needed one. -/
theorem Runs.list_success {repetition : Repetition} {element : Matcher}
    (run : x.Runs call (.matcher (.list repetition element)) cx s (.success values) s') :
    ∃ items, values = [.list items] ∧ (items ≠ [] →
      x.Runs call (.matcher (.list .oneOrMore element)) cx s (.success values) s') := by
  cases run with
  | list run =>
    cases run with
    | repeated turns done =>
      rcases finishList_cases done with ⟨_, none, _⟩ | ⟨_, only, rfl⟩
      · cases none
      · cases only
        refine ⟨_, rfl, fun some => .list (.repeated turns ?_)⟩
        rw [finishList, if_neg (by simpa using some)]
        rfl

end Session

namespace OptionalGroups

variable {x : Session} {call : Call} {cx : Context} {s s' t t' : State} {o : Outcome} {f : Failure}
  {remaining depth : Nat} {values : List Value} {l : OptionalGroups}

/-- Expressions in parentheses are a list, which would have been found if it needed an item. -/
theorem parenthesized_success {repetition : Repetition}
    (run : x.Runs call (.matcher (.seq (l.parenthesized repetition))) cx s (.success values) s') :
    ∃ items, values = [.list items] ∧ (items ≠ [] →
      x.Runs call (.matcher (.seq (l.parenthesized .oneOrMore))) cx s (.success values) s') := by
  obtain ⟨opened, inside, s₁, rfl, opening, rest⟩ := run.seq_success.items_success rfl
  obtain ⟨listed, closed, s₂, rfl, list, rest⟩ := rest.items_success rfl
  obtain ⟨closed, none, s₃, rfl, closing, rest⟩ := rest.items_success rfl
  obtain ⟨rfl, rfl⟩ := rest.items_nil_success
  obtain rfl : opened = [] := opening.token_success.2.2
  obtain rfl : closed = [] := closing.token_success.2.2
  obtain ⟨items, rfl, more⟩ := list.list_success
  refine ⟨items, rfl, fun some => .seq (.items_next rfl opening ?_)⟩
  exact .items_next rfl (more some) (.items_next rfl closing .items_nil)

/-- A mark that is taken, in front of what is then no expression. -/
theorem expr_soft {asked : List Value}
    (single : x.Runs call (.matcher l.one) cx s (.soft f) s')
    (question : x.Runs call (.matcher (.token l.question none false)) cx s (.success asked) t) :
    ∃ g t', call l.expr cx.active cx.guards t = .ok (.soft g, t') := by
  cases single with
  | node_fails run _ =>
    cases run with
    | seq_soft run =>
      cases run with
      | items_cut cut _ => cases cut
      | items_soft _ fails => cases (fails.outcome_unique question)
      | items_later _ taken rest _ =>
        obtain ⟨_, rfl⟩ := taken.matcher_unique question
        cases rest with
        | items_cut cut _ => cases cut
        | items_soft _ fails =>
          cases fails with
          | rule called => exact ⟨_, _, called⟩
        | items_later _ _ none _ => cases none

/-- Where expressions fail softly, those in parentheses do, further down and behind more rules. -/
theorem Rules.pick_soft (rules : l.Rules x.program) {active : List (RuleRef × Nat)}
    {guards : List Matcher}
    (called : x.call remaining depth l.expr active guards s = .ok (.soft f, s')) :
    ∃ rest depth' active' t g t', rest ≤ remaining ∧ active ⊆ active' ∧ t.position = s.position ∧
      x.Runs (x.call rest depth') (.matcher (.seq (l.parenthesized .oneOrMore))) ⟨active', guards⟩ t
        (.soft g) t' := by
  obtain ⟨_, _, expr, primary_among⟩ := rules.expr
  obtain ⟨_, _, primary, pick_among⟩ := rules.primary
  obtain ⟨_, _, _, pick⟩ := rules.pick
  obtain ⟨rest, t, _, _, rfl, here, called⟩ :=
    Session.call_soft_of_choice expr primary_among called
  obtain ⟨rest, t', _, _, rfl, here', called⟩ :=
    Session.call_soft_of_choice primary pick_among called
  obtain ⟨rest, rfl, _, entered⟩ := Session.call_eq_ok_iff.mp called
  rcases Session.enter_cases entered with ⟨rule, known, run⟩ | ⟨missing, _⟩
  · obtain rfl := Option.some.inj (pick.symm.trans known)
    cases run with
    | node_fails run _ =>
      refine ⟨rest, _, _, t', _, _, by omega, ?_, here'.trans here, run⟩
      exact fun entry among => by simp [among]
  · rw [pick] at missing
    cases missing

/-- Behind a mark in front of no expression, parentheses hold nothing. -/
theorem Rules.several_of_soft (rules : l.Rules x.program)
    (single : x.Runs (x.call remaining depth) (.matcher l.one) cx s (.soft f) s')
    (here : t.position = s.position)
    (several : x.Runs (x.call remaining depth) (.matcher l.several) cx t (.success values) t') :
    values = [.node l.group (x.spanSince t t') [.list []]] := by
  obtain ⟨s₁, single⟩ := single.elsewhere here
  obtain ⟨fields, rfl, operand⟩ := several.node_success
  obtain ⟨asked, inside, t₁, rfl, question, rest⟩ := operand.seq_success.items_success rfl
  obtain ⟨items, rfl, more⟩ := parenthesized_success (.seq rest)
  obtain ⟨g, u, called⟩ := expr_soft single question
  obtain ⟨rest, depth', active, v, _, _, levels, fewer, there, fails⟩ := rules.pick_soft called
  obtain ⟨u', fails⟩ := fails.further_up levels fewer there.symm
  have none : items = [] := by
    by_contra some
    cases (more some).outcome_unique fails
  obtain rfl : asked = [] := question.token_success.2.2
  rw [none]
  rfl

/-- Where parentheses with expressions match behind a mark, a mark in front of one expression does
match, if it ends at all and expressions come to no cut. -/
theorem Rules.single_isSuccess (rules : l.Rules x.program) {uncut : RuleRef → Bool}
    (plain : x.program.Uncut uncut) (known : uncut l.expr = true)
    (single : x.Runs (x.call remaining depth) (.matcher l.one) cx s o s')
    (here : t.position = s.position) {span : Span} {items : List Value} (some : items ≠ [])
    (several : x.Runs (x.call remaining depth) (.matcher l.several) cx t
      (.success [.node l.group span [.list items]]) t') : o.isSuccess = true := by
  cases o with
  | success => rfl
  | soft f =>
    have none := rules.several_of_soft single here several
    simp only [List.cons.injEq, Value.node.injEq, Value.list.injEq, and_true] at none
    exact absurd none.2.2 some
  | hard f =>
    have free : Session.UncutJob uncut (.matcher l.one) := by
      intro m part
      simp only [one, Matcher.parts, Matcher.partsOfAll, List.append_nil, List.cons_append,
        List.nil_append, List.mem_cons, List.not_mem_nil, or_false] at part
      rcases part with rfl | rfl | rfl | rfl
      · rfl
      · rfl
      · rfl
      · exact known
    refine absurd rfl (single.not_hard ?_ free f)
    exact fun _ _ _ _ _ _ known => Session.call_not_hard plain known

end OptionalGroups

end CombinatorGrammar
