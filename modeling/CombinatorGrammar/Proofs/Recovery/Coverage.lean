import CombinatorGrammar.Proofs.Program.ItemList
import CombinatorGrammar.Proofs.Recovery.Agreement

/-!
# Lists of which every token is taken

A list outside protected regions whose elements may be skipped never fails with recovery, and it
ends at the end of the input only: where an element does not match, a token is skipped, and an
element that fails behind a cut has moved on, so there is a token to be skipped in its place. The
elements take the tokens of the input one stretch after the other.
-/

namespace CombinatorGrammar

namespace TokenStream

variable {t : TokenStream} {start middle stop : Nat}

/-- The tokens of a stretch of the input, from one position up to another. -/
def between (t : TokenStream) (start stop : Nat) : List Token :=
  (t.body.toList.drop start).take (stop - start)

/-- The tokens up to a position and those behind it are the tokens of both stretches. -/
theorem between_append (first : start ≤ middle) (second : middle ≤ stop) :
    t.between start middle ++ t.between middle stop = t.between start stop := by
  obtain ⟨m, rfl⟩ := Nat.exists_eq_add_of_le first
  obtain ⟨n, rfl⟩ := Nat.exists_eq_add_of_le second
  rw [between, between, between, Nat.add_sub_cancel_left, Nat.add_sub_cancel_left, Nat.add_assoc,
    Nat.add_sub_cancel_left, List.take_add, List.drop_drop]

theorem between_self : t.between start start = [] := by
  rw [between, Nat.sub_self, List.take_zero]

/-- From the first position to the last there are all tokens but the termination token. -/
theorem between_zero_lastPosition : t.between 0 t.lastPosition = t.body.toList := by
  rw [between, List.drop_zero, Nat.sub_zero, lastPosition, ← Array.length_toList,
    List.take_length]

/-- A token of a stretch is the token at its position. -/
theorem getElem?_between {i : Nat} (inside : start + i < stop) (last : stop ≤ t.lastPosition) :
    (t.between start stop)[i]? = some (t.token (start + i)) := by
  have bound : start + i < t.body.size := Nat.lt_of_lt_of_le inside last
  rw [between, List.getElem?_take_of_lt (by omega), List.getElem?_drop, Array.getElem?_toList,
    Array.getElem?_eq_getElem bound, token, Array.getD, dif_pos bound]
  rfl

/-- The tokens of a stretch that is not empty begin with the first and end with the last one that
its span covers. -/
theorem ends_of_between (inside : start < stop) (last : stop ≤ t.lastPosition) :
    (t.between start stop).head? = some (t.token start) ∧
      (t.between start stop).getLast? = some (t.token (stop - 1)) ∧
      t.spanOf start stop = (t.token start).span.merge (t.token (stop - 1)).span := by
  have length : (t.between start stop).length = stop - start := by
    simp only [between, List.length_take, List.length_drop, Array.length_toList]
    simp only [lastPosition] at last
    omega
  refine ⟨?_, ?_, by rw [spanOf, if_pos inside]⟩
  · rw [List.head?_eq_getElem?, getElem?_between (by omega) last, Nat.add_zero]
  · rw [List.getLast?_eq_getElem?, length, getElem?_between (by omega) last]
    congr 2
    omega

end TokenStream

/-- An item of a list, with the positions from which and up to which it has taken tokens. -/
structure Stretch where
  item : Value
  start : Nat
  stop : Nat

/-- The item is a node of the list or a token skipped, it has taken a token, and its span is that of
the tokens that it has taken. -/
structure ItemList.Covers (l : ItemList) (tokens : TokenStream) (d : Stretch) : Prop where
  start_lt_stop : d.start < d.stop
  stop_le : d.stop ≤ tokens.lastPosition
  node : ∃ type fields, (type = l.node ∨ type = l.error) ∧
    d.item = .node type (tokens.spanOf d.start d.stop) fields

namespace Session

/-- Runs of the element follow each other from the first state to the second one; each yields one
item. -/
inductive Chain (x : Session) (call : Call) (element : Matcher) (cx : Context) :
    State → List Stretch → State → Prop
  | done {s : State} : Chain x call element cx s [] s
  | next {s s₁ s' : State} {item : Value} {rest : List Stretch} :
      x.Runs call (.matcher element) cx s (.success [item]) s₁ →
      Chain x call element cx s₁ rest s' →
      Chain x call element cx s (⟨item, s.position, s₁.position⟩ :: rest) s'

variable {x : Session} {call : Call} {cx : Context} {s s' : State} {o : Outcome} {k : IdleFacts}
  {remaining depth : Nat} {m : Matcher} {errorType : NodeRef}

section Elements

/-- Outside protected regions a skip that may take tokens fails at the end only. -/
theorem Runs.atEnd_of_skip_soft {f : Failure} (recovers : x.recovery = true)
    (unguarded : cx.guards = [])
    (run : x.Runs call (.matcher (.skip errorType)) cx s (.soft f) s') : x.atEnd s = true := by
  cases run with
  | skip_guarded _ _ probed =>
    rw [unguarded] at probed
    cases probed
  | skip_refused refused =>
    rcases refused with strict | ends
    · rw [recovers] at strict
      cases strict
    · exact ends

/-- Whether the end is reached depends on the position only. -/
theorem atEnd_of_position_eq (same : s'.position = s.position) : x.atEnd s' = x.atEnd s := by
  rw [atEnd, atEnd, current, current, same]

/-- Before the end an element is matched or skipped, and at the end it fails softly. -/
theorem Runs.element_cases (recovers : x.recovery = true) (fits : k.Fits x.program)
    (holds : m.breaks k = false) (unguarded : cx.guards = [])
    (run : x.Runs (x.call remaining depth) (.matcher (.choice [m, .skip errorType])) cx s o s') :
    (∃ values, o = .success values) ∨ (∃ f, o = .soft f) ∧ x.atEnd s = true := by
  have settled := x.callsSettle remaining depth
  rcases run.choice_skip_cases settled with
    ⟨values, rfl, _⟩ | ⟨values, _, rfl, _⟩ | ⟨f, g, s₁, s₂, rfl, _, _, refused⟩ |
      ⟨f, s₁, rfl, fails, strict | ⟨g, s₂, s₃, here, refused⟩⟩
  · exact Or.inl ⟨values, rfl⟩
  · exact Or.inl ⟨values, rfl⟩
  · have ends := refused.atEnd_of_skip_soft recovers unguarded
    exact Or.inr ⟨⟨_, rfl⟩, ends⟩
  · rw [recovers] at strict
    cases strict
  · -- the element has moved on before it failed, so this is not the end
    have ends := refused.atEnd_of_skip_soft recovers unguarded
    rw [atEnd_of_position_eq here, atEnd_iff] at ends
    have moved := fails.position_lt_of_hard fits holds
    have bound := fails.position_le_last moved
    omega

end Elements

section Stretches

variable {l : ItemList} {values : List Value} {stretches : List Stretch}

/-- A rule that matches is there, and its body matches one level down. -/
theorem Runs.rule_success {ref : RuleRef} {rule : Rule}
    (found : x.program.rule? ref = some rule)
    (run : x.Runs (x.call remaining depth) (.matcher (.rule ref)) cx s (.success values) s') :
    ∃ rest, remaining = rest + 1 ∧ x.Runs (x.call rest (depth + 1)) (.matcher rule.body)
      ⟨(ref, s.position) :: cx.active, cx.guards⟩ s (.success values) s' := by
  cases run with
  | rule called =>
    obtain ⟨rest, rfl, _, entered⟩ := call_eq_ok_iff.mp called
    rcases enter_cases entered with ⟨rule', found', body⟩ | ⟨_, none, _⟩
    · obtain rfl := Option.some.inj (found'.symm.trans found)
      exact ⟨rest, rfl, body⟩
    · cases none

/-- An element that matches yields one item, whose span is that of the tokens that it takes. -/
theorem Runs.element_covers (fits : k.Fits x.program) (rules : l.Rules x.program)
    (takes : k.idles l.item = false)
    (run : x.Runs (x.call remaining depth) (.matcher l.element) cx s (.success values) s') :
    ∃ item, values = [item] ∧ l.Covers x.tokens ⟨item, s.position, s'.position⟩ := by
  have settled := x.callsSettle remaining depth
  have moved := run.element_moves (m := .rule l.item) fits takes
  have last := run.position_le_last moved
  rcases run.choice_skip_cases settled with
    ⟨_, same, run⟩ | ⟨_, s₁, same, here, _, taken⟩ | ⟨_, _, _, _, none, _⟩ | ⟨_, _, none, _⟩
  · cases same
    obtain ⟨name, layout, m, found⟩ := rules.item
    obtain ⟨rest, _, body⟩ := run.rule_success found
    obtain ⟨fields, rfl, _⟩ := body.node_success
    exact ⟨_, rfl, moved, last, _, _, Or.inl rfl, rfl⟩
  · cases same
    obtain ⟨_, rfl, next, _⟩ := taken.skip_takes settled
    refine ⟨_, rfl, moved, last, l.error, [], Or.inr rfl, ?_⟩
    -- the one token that is skipped
    rw [current, here, TokenStream.spanOf, if_pos moved, next, here, Nat.add_sub_cancel,
      Span.merge_self]
  · cases none
  · cases none

/-- A chain of elements never goes back. -/
theorem Chain.position_le (settled : CallsSettle call) {element : Matcher}
    (chain : x.Chain call element cx s stretches s') : s.position ≤ s'.position := by
  induction chain with
  | done => exact Nat.le_refl _
  | next run _ ih => exact Nat.le_trans (run.onward settled).position_le ih

/-- The tokens that a chain of runs takes, put together, are those between its ends. -/
theorem Chain.flatten_between (settled : CallsSettle call) {element : Matcher}
    (chain : x.Chain call element cx s stretches s') :
    (stretches.map fun d => x.tokens.between d.start d.stop).flatten =
      x.tokens.between s.position s'.position := by
  induction chain with
  | done => rw [TokenStream.between_self, List.map_nil, List.flatten_nil]
  | next run rest ih =>
    rw [List.map_cons, List.flatten_cons, ih]
    exact TokenStream.between_append (run.onward settled).position_le (rest.position_le settled)

/-- In a chain of runs of the element, every item covers its stretch. -/
theorem Chain.covers (fits : k.Fits x.program) (rules : l.Rules x.program)
    (takes : k.idles l.item = false)
    (chain : x.Chain (x.call remaining depth) l.element cx s stretches s') :
    ∀ d ∈ stretches, l.Covers x.tokens d := by
  induction chain with
  | done => exact List.forall_mem_nil _
  | next run _ ih =>
    obtain ⟨_, ⟨⟩, covers⟩ := run.element_covers fits rules takes
    exact List.forall_mem_cons.mpr ⟨covers, ih⟩

/-- The turns of the list are a chain of runs of its element up to the end of the input. -/
theorem Runs.turns_chain (recovers : x.recovery = true) (fits : k.Fits x.program)
    (rules : l.Rules x.program) (takes : k.idles l.item = false) (holds : k.breaks l.item = false)
    (unguarded : cx.guards = []) {job : Job} (run : x.Runs (x.call remaining depth) job cx s o s') :
    ∀ hasItems last, job = .turns l.element none hasItems last →
      ∃ stretches s₁, o = .success (stretches.map Stretch.item) ∧
        x.Chain (x.call remaining depth) l.element cx s stretches s₁ ∧
        s₁.position = s'.position ∧ x.atEnd s' = true := by
  have element_cases {cx s o s'} (unguarded : cx.guards = [])
      (run : x.Runs (x.call remaining depth) (.matcher l.element) cx s o s') :=
    run.element_cases (m := .rule l.item) recovers fits holds unguarded
  induction run with
  | turns_next turn _ _ _ ih =>
    rintro _ _ ⟨⟩
    have element := turn.turn_unseparated
    obtain ⟨item, rfl, _⟩ := element.element_covers fits rules takes
    obtain ⟨stretches, s₁, same, chain, here, ends⟩ := ih unguarded _ _ rfl
    cases same
    exact ⟨_ :: stretches, s₁, rfl, .next element chain, here, ends⟩
  | turns_later _ _ _ _ ih =>
    rintro _ _ ⟨⟩
    obtain ⟨_, _, none, _⟩ := ih unguarded _ _ rfl
    cases none
  | turns_hard turn _ =>
    rintro _ _ ⟨⟩
    rcases element_cases unguarded turn.turn_unseparated with ⟨_, none⟩ | ⟨⟨_, none⟩, _⟩
    · cases none
    · cases none
  | turns_soft turn _ =>
    rintro _ _ ⟨⟩
    rcases element_cases unguarded turn.turn_unseparated with ⟨_, none⟩ | ⟨_, ends⟩
    · cases none
    · exact ⟨[], _, rfl, .done, rfl, ends⟩
  | turns_idle turn idle _ =>
    rintro _ _ ⟨⟩
    have moved := turn.turn_unseparated.element_moves (m := .rule l.item) fits takes
    exact absurd ⟨moved, turn.turn_unseparated.position_le_last moved⟩ idle
  | _ =>
    intro _ _ other
    cases other

/-- The whole list yields the items of a chain of runs of its element up to the end of the input. -/
theorem Runs.list_chain (recovers : x.recovery = true) (fits : k.Fits x.program)
    (rules : l.Rules x.program) (takes : k.idles l.item = false) (holds : k.breaks l.item = false)
    (unguarded : cx.guards = [])
    (run : x.Runs (x.call remaining depth) (.matcher (.rule l.list)) cx s o s') :
    ∃ rest stretches s₁, remaining = rest + 1 ∧
      o = .success [.list (stretches.map Stretch.item)] ∧
      x.Chain (x.call rest (depth + 1)) l.element ⟨(l.list, s.position) :: cx.active, []⟩
        s stretches s₁ ∧
      s₁.position = s'.position ∧ x.atEnd s' = true := by
  obtain ⟨name, found⟩ := rules.list
  cases run with
  | rule called =>
    obtain ⟨rest, rfl, _, entered⟩ := call_eq_ok_iff.mp called
    rcases enter_cases entered with ⟨rule, found', body⟩ | ⟨missing, _, _⟩
    · obtain rfl := Option.some.inj (found'.symm.trans found)
      rw [unguarded] at body
      let inner : Context := ⟨(l.list, s.position) :: cx.active, []⟩
      have chain {o s'} {job : Job} (run : x.Runs (x.call rest (depth + 1)) job inner s o s') :=
        run.turns_chain recovers fits rules takes holds rfl
      cases body with
      | list run =>
        cases run with
        | repeated turns done =>
          obtain ⟨stretches, s₁, same, chain, here, ends⟩ := chain turns _ _ rfl
          cases same
          rcases finishList_cases done with ⟨⟨none, _⟩, _⟩ | ⟨_, rfl, rfl⟩
          · cases none
          · exact ⟨rest, stretches, s₁, rfl, rfl, chain, here, ends⟩
        | repeated_hard turns =>
          obtain ⟨_, _, none, _⟩ := chain turns _ _ rfl
          cases none
    · rw [found] at missing
      cases missing

/-- The list with the termination token behind it yields the list only. -/
theorem Runs.items_chain (recovers : x.recovery = true) (fits : k.Fits x.program)
    (rules : l.Rules x.program) (takes : k.idles l.item = false) (holds : k.breaks l.item = false)
    (unguarded : cx.guards = [])
    (run : x.Runs (x.call remaining depth)
      (.items false [.rule l.list, .token .termination none false]) cx s o s') :
    ∃ rest stretches s₁, remaining = rest + 1 ∧
      o = .success [.list (stretches.map Stretch.item)] ∧
      x.Chain (x.call rest (depth + 1)) l.element ⟨(l.list, s.position) :: cx.active, []⟩
        s stretches s₁ ∧
      s₁.position = s'.position ∧ x.atEnd s' = true := by
  have list {o s'} (run : x.Runs (x.call remaining depth) (.matcher (.rule l.list)) cx s o s') :=
    run.list_chain recovers fits rules takes holds unguarded
  cases run with
  | items_cut cut => cases cut
  | items_soft _ run | items_hard _ run =>
    obtain ⟨_, _, _, _, none, _⟩ := list run
    cases none
  | items_next _ run later =>
    obtain ⟨rest, stretches, s₁, here, same, chain, position, ends⟩ := list run
    cases same
    obtain ⟨_, _, s₂, rfl, token, done⟩ := later.items_success rfl
    obtain ⟨_, rfl, rfl⟩ := token.token_success
    obtain ⟨rfl, rfl⟩ := done.items_nil_success
    -- the termination token is not passed
    rw [advance, if_pos ends]
    exact ⟨rest, stretches, s₁, here, rfl, chain, position, ends⟩
  | @items_later _ _ _ _ _ s₂ _ _ _ _ run later fails =>
    obtain ⟨_, _, _, _, _, _, _, ends⟩ := list run
    have matched : (x.current s₂).kind = .termination := beq_iff_eq.mp ends
    cases later with
    | items_cut cut => cases cut
    | items_next => cases fails
    | items_later _ _ done fails =>
      cases done
      cases fails
    | items_soft _ token =>
      cases token with
      | token_fails mismatched => exact absurd ⟨matched, rfl⟩ mismatched
    | items_hard _ token => cases token

theorem Runs.seq_chain (recovers : x.recovery = true) (fits : k.Fits x.program)
    (rules : l.Rules x.program) (takes : k.idles l.item = false) (holds : k.breaks l.item = false)
    (unguarded : cx.guards = [])
    (run : x.Runs (x.call remaining depth)
      (.matcher (.seq [.rule l.list, .token .termination none false])) cx s o s') :
    ∃ rest stretches s₁, remaining = rest + 1 ∧
      o = .success [.list (stretches.map Stretch.item)] ∧
      x.Chain (x.call rest (depth + 1)) l.element ⟨(l.list, s.position) :: cx.active, []⟩
        s stretches s₁ ∧
      s₁.position = s'.position ∧ x.atEnd s' = true := by
  cases run with
  | seq run => exact run.items_chain recovers fits rules takes holds unguarded
  | seq_soft run | seq_hard run =>
    obtain ⟨_, _, _, _, none, _⟩ := run.items_chain recovers fits rules takes holds unguarded
    cases none

/-- A run with recovery yields one root node over the items of a chain of runs of the element, which
takes all tokens of the input. -/
theorem run_chain (recovers : x.recovery = true) (fits : k.Fits x.program)
    (rules : l.Rules x.program) (takes : k.idles l.item = false) (holds : k.breaks l.item = false)
    {maxDepth : Nat} (ran : x.run maxDepth x.program.entry (.initial 0) = .ok (o, s)) :
    ∃ rest span stretches s₁, maxDepth = rest + 2 ∧
      o = .success [.node l.root span [.list (stretches.map Stretch.item)]] ∧
      x.Chain (x.call rest 2) l.element ⟨[(l.list, 0), (x.program.entry, 0)], []⟩ (.initial 0)
        stretches s₁ ∧
      s₁.position = x.tokens.lastPosition ∧ x.atEnd s = true := by
  obtain ⟨name, kind, found⟩ := rules.entry
  have inside : s.position ≤ x.tokens.lastPosition :=
    call_position_le (Nat.le_refl _) ran (Nat.zero_le _)
  obtain ⟨remaining, limit, _, entered⟩ := call_eq_ok_iff.mp ran
  rcases enter_cases entered with ⟨rule, found', body⟩ | ⟨missing, _, _⟩
  · obtain rfl := Option.some.inj (found'.symm.trans found)
    cases body with
    | node run =>
      obtain ⟨rest, stretches, s₁, rfl, same, chain, here, ends⟩ :=
        run.seq_chain recovers fits rules takes holds rfl
      cases same
      have last : s₁.position = x.tokens.lastPosition :=
        here.trans (Nat.le_antisymm inside (atEnd_iff.mp ends))
      exact ⟨rest, _, stretches, s₁, limit, rfl, chain, last, ends⟩
    | node_fails run fails =>
      obtain ⟨_, _, _, _, rfl, _⟩ := run.seq_chain recovers fits rules takes holds rfl
      cases fails
  · rw [found] at missing
    cases missing

end Stretches

end Session

end CombinatorGrammar
