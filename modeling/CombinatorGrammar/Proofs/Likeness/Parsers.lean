import CombinatorGrammar.Proofs.Likeness.Basic

/-!
# Runs of sessions that are alike

Whatever is run in two sessions that are alike ends alike, from states that are alike: in one
outcome up to places and numbers of texts, or in one fault. The second session may also have more
levels of nesting left than the first; then the first may be stopped by the limit where the second
goes on. There is one lemma for each way of combining parsers, and the interpreter is put together
from them.
-/

namespace CombinatorGrammar

/-- Both end, with results that are related, or both are stopped by one fault. Where the second has
so many levels more, the first may be stopped by the limit of nesting alone. -/
inductive EndsLike {α β : Type} (slack : Nat) (R : α → β → Prop) :
    Except Fault α → Except Fault β → Prop
  | ended {a : α} {b : β} : R a b → EndsLike slack R (.ok a) (.ok b)
  | stopped {fault : Fault} : EndsLike slack R (.error fault) (.error fault)
  | limited {limit position : Nat} {b : Except Fault β} :
      0 < slack → EndsLike slack R (.error (.nestingLimit limit position)) b

section Parsers

variable (l : Likeness) (p : Program) (slack : Nat)

/-- Both runs end in a match with values that are alike, or in one failure, and in states that are
alike; or they are stopped, as `EndsLike` says. -/
inductive StepsLike : Step → Step → Prop
  | success {values values' : List Value} {s t : State} :
      List.Forall₂ (Value.Like l) values values' → s.Like l p t →
      StepsLike (.ok (.success values, s)) (.ok (.success values', t))
  | soft {f : Failure} {s t : State} :
      f.Of p → s.Like l p t → StepsLike (.ok (.soft f, s)) (.ok (.soft f, t))
  | hard {f : Failure} {s t : State} :
      f.Of p → s.Like l p t → StepsLike (.ok (.hard f, s)) (.ok (.hard f, t))
  | stopped {fault : Fault} : StepsLike (.error fault) (.error fault)
  | limited {limit position : Nat} {b : Step} :
      0 < slack → StepsLike (.error (.nestingLimit limit position)) b

/-- The guards are of one part of the program, and their attempts end alike. -/
structure Guard.Like (g g' : Guard) : Prop where
  pattern_eq : g'.pattern = g.pattern
  part : g.pattern ∈ p.parts
  attempt : ∀ ⦃s t : State⦄, s.Like l p t → StepsLike l p slack (g.attempt s) (g'.attempt t)

/-- The same rules are in progress, and the guards are alike. -/
structure Scope.Like (scope scope' : Scope) : Prop where
  active_eq : scope'.active = scope.active
  guards : List.Forall₂ (Guard.Like l p slack) scope.guards scope'.guards

/-- The parsers end alike in scopes and from states that are alike. -/
def ParsersLike (P Q : Parser) : Prop :=
  ∀ ⦃scope scope' : Scope⦄ ⦃s t : State⦄, scope.Like l p slack scope' → s.Like l p t →
    StepsLike l p slack (P scope s) (Q scope' t)

/-- The operands have one matcher, and their parsers end alike. -/
structure Operand.Like (a b : Operand) : Prop where
  pattern_eq : b.pattern = a.pattern
  parse : ParsersLike l p slack a.parse b.parse

/-- The calls end alike in regions that protect parts of the program. -/
def CallsLike (call call' : Call) : Prop :=
  ∀ ⦃ref : RuleRef⦄ ⦃active : List (RuleRef × Nat)⦄ ⦃guards : List Matcher⦄ ⦃s t : State⦄,
    (∀ g ∈ guards, g ∈ p.parts) → s.Like l p t →
    StepsLike l p slack (call ref active guards s) (call' ref active guards t)

end Parsers

variable {l : Likeness} {p : Program} {slack : Nat} {P Q : Parser}

/-- No rules in progress and no guards are alike. -/
theorem Scope.Like.empty : Scope.Like l p slack .empty .empty := ⟨rfl, .nil⟩

/-- Guards that are alike are attempts of the same matchers. -/
theorem patterns_eq_of_like {guards guards' : List Guard}
    (h : List.Forall₂ (Guard.Like l p slack) guards guards') :
    guards'.map Guard.pattern = guards.map Guard.pattern := by
  induction h with
  | nil => rfl
  | cons first _ ih => rw [List.map_cons, List.map_cons, first.pattern_eq, ih]

/-- Guards that are alike are attempts of parts of the program. -/
theorem parts_of_like {guards guards' : List Guard}
    (h : List.Forall₂ (Guard.Like l p slack) guards guards') :
    ∀ g ∈ guards.map Guard.pattern, g ∈ p.parts := by
  induction h with
  | nil => exact List.forall_mem_nil _
  | cons first _ ih => exact List.forall_mem_cons.mpr ⟨first.part, ih⟩

/-- One failure of the program ends two runs alike. -/
theorem StepsLike.fail {f : Failure} {s t : State} (of : f.Of p) (states : s.Like l p t) :
    StepsLike l p slack (s.fail f) (t.fail f) :=
  .soft of (states.record of)

theorem Value.like_nulls (n : Nat) :
    List.Forall₂ (Value.Like l) (List.replicate n .null) (List.replicate n .null) :=
  List.forall₂_same.mpr fun _ among => List.eq_of_mem_replicate among ▸ .null

namespace ParsersLike

/-- Operands that are alike make sequences that end alike. -/
theorem sequence {as bs : List Operand} (operands : List.Forall₂ (Operand.Like l p slack) as bs)
    (start : Mark) (committed : Bool) {values values' : List Value}
    (before : List.Forall₂ (Value.Like l) values values') :
    ParsersLike l p slack (Session.sequence start committed values as)
      (Session.sequence start committed values' bs) := by
  induction operands generalizing committed values values' with
  | nil => exact fun _ _ _ _ _ states => .success before states
  | @cons a b _ _ first _ ih =>
    intro scope scope' s t scopes states
    simp only [Session.sequence, first.pattern_eq]
    split
    · exact ih true before scopes states
    · have ends := first.parse scopes states
      generalize a.parse scope s = u at ends ⊢
      generalize b.parse scope' t = w at ends ⊢
      cases ends with
      | success more after => exact ih committed (List.rel_append before more) scopes after
      | soft of after =>
        cases committed with
        | true => exact .hard of after
        | false => exact .soft of (after.rewind start)
      | hard of after => exact .hard of after
      | stopped => exact .stopped
      | limited more => exact .limited more

/-- Operands that are alike are optional alike. -/
theorem optional (h : ParsersLike l p slack P Q) (arity : Nat) :
    ParsersLike l p slack (Session.optional arity P) (Session.optional arity Q) := by
  intro scope scope' s t scopes states
  have ends := h scopes states
  rw [Session.optional, Session.optional, states.mark_eq]
  generalize P scope s = u at ends ⊢
  generalize Q scope' t = w at ends ⊢
  cases ends with
  | success values after => exact .success values after
  | soft _ after => exact .success (Value.like_nulls arity) (after.rewind s.mark)
  | hard of after => exact .hard of after
  | stopped => exact .stopped
  | limited more => exact .limited more

/-- Operands that are alike are grouped alike. -/
theorem grouped (h : ParsersLike l p slack P Q) :
    ParsersLike l p slack (Session.grouped P) (Session.grouped Q) := by
  intro scope scope' s t scopes states
  have ends := h scopes states
  rw [Session.grouped, Session.grouped, states.mark_eq]
  generalize P scope s = u at ends ⊢
  generalize Q scope' t = w at ends ⊢
  cases ends with
  | success values after => exact .success (.cons (.list values) .nil) after
  | soft _ after => exact .success (.cons (.list .nil) .nil) (after.rewind s.mark)
  | hard of after => exact .hard of after
  | stopped => exact .stopped
  | limited more => exact .limited more

/-- Elements and separators that are alike make turns that end alike. -/
theorem turn (elements : ParsersLike l p slack P Q) {separator separator' : Option Parser}
    (separators : Option.Rel (ParsersLike l p slack) separator separator') (hasItems : Bool) :
    ParsersLike l p slack (Session.turn P separator hasItems)
      (Session.turn Q separator' hasItems) := by
  intro scope scope' s t scopes states
  cases separators with
  | none => exact elements scopes states
  | @some S S' between =>
    cases hasItems with
    | false => exact elements scopes states
    | true =>
      have ends := between scopes states
      simp only [Session.turn, if_true]
      generalize S scope s = u at ends ⊢
      generalize S' scope' t = w at ends ⊢
      cases ends with
      | success _ after => exact elements scopes after
      | soft of after => exact .soft of after
      | hard of after => exact .hard of after
      | stopped => exact .stopped
      | limited more => exact .limited more

/-- Operands that are alike end alike behind guards that are alike. -/
theorem protecting {g g' : Guard} (guards : g.Like l p slack g') (h : ParsersLike l p slack P Q) :
    ParsersLike l p slack (Session.protecting g P) (Session.protecting g' Q) :=
  fun _ _ _ _ scopes states => h ⟨scopes.active_eq, .cons guards scopes.guards⟩ states

end ParsersLike

namespace Session

/-- Items that are alike finish a list alike. -/
theorem finishList_like {repetition : Repetition} {start : Mark} {items items' : List Value}
    {last : Option Failure} {s t : State} (values : List.Forall₂ (Value.Like l) items items')
    (of : ∀ f ∈ last, f.Of p) (states : s.Like l p t) :
    StepsLike l p slack (finishList repetition start items last s)
      (finishList repetition start items' last t) := by
  have same : items'.isEmpty = items.isEmpty := by cases values <;> rfl
  rw [finishList, finishList, same]
  split
  · refine .soft ?_ (states.rewind start)
    cases last with
    | none => exact Failure.of_plain _
    | some f => exact of f rfl
  · exact .success (.cons (.list values) .nil) states

namespace Like

variable {x y : Session}

/-- A token match of the program ends alike at tokens that are alike. -/
theorem matchToken (sessions : x.Like l y) {kind : TokenKind} {text : Option Name} {keep : Bool}
    (part : .token kind text keep ∈ x.program.parts) {s t : State}
    (states : s.Like l x.program t) :
    StepsLike l x.program slack (x.matchToken kind text keep s)
      (y.matchToken kind text keep t) := by
  have tokens := sessions.current states
  have same : text.all (· = (y.current t).text) = text.all (· = (x.current s).text) := by
    cases text with
    | none => rfl
    | some n =>
      have asked := sessions.asked_iff ⟨kind, keep, part⟩ tokens.text
      simp only [Option.all_some, decide_eq_decide]
      exact ⟨fun found => (asked.mpr found.symm).symm, fun found => (asked.mp found.symm).symm⟩
  simp only [Session.matchToken, tokens.kind_eq, same, states.position_eq]
  split
  · refine .success ?_ (sessions.advance states)
    cases keep with
    | true => exact .cons (.token tokens) .nil
    | false => exact .nil
  · exact .fail (Failure.of_token _ part) states

/-- Operands that are alike make choices that end alike. -/
theorem ordered (sessions : x.Like l y) {as bs : List Operand}
    (operands : List.Forall₂ (Operand.Like l x.program slack) as bs) (recovers : Bool)
    (start : Mark) {best committed : Option Failure} (bestOf : ∀ f ∈ best, f.Of x.program)
    (committedOf : ∀ f ∈ committed, f.Of x.program) :
    ParsersLike l x.program slack (x.ordered recovers start best committed as)
      (y.ordered recovers start best committed bs) := by
  induction operands generalizing best committed with
  | nil =>
    intro scope scope' s t _ states
    cases committed with
    | some f => exact .hard (committedOf f rfl) (states.rewind start)
    | none =>
      refine .soft ?_ states
      cases best with
      | none => exact Failure.of_plain _
      | some f => exact bestOf f rfl
  | @cons a b _ _ first _ ih =>
    intro scope scope' s t scopes states
    simp only [Session.ordered, first.pattern_eq]
    split
    · exact ih bestOf committedOf scopes states
    · have ends := first.parse scopes states
      generalize a.parse scope s = u at ends ⊢
      generalize b.parse scope' t = w at ends ⊢
      cases ends with
      | success values after => exact .success values after
      | soft of after =>
        refine ih ?_ committedOf scopes (after.rewind start)
        rintro _ ⟨⟩
        cases best with
        | none => exact of
        | some f => exact (bestOf f rfl).further of
      | hard of after =>
        cases recovers with
        | true =>
          refine ih bestOf ?_ scopes (sessions.reportRecovered of (after.rewind start))
          rintro _ ⟨⟩
          exact of
        | false => exact .hard of after
      | stopped => exact .stopped
      | limited more => exact .limited more

/-- Elements and separators that are alike make lists that end alike. -/
theorem repeated (sessions : x.Like l y) (elements : ParsersLike l x.program slack P Q)
    {separator separator' : Option Parser}
    (separators : Option.Rel (ParsersLike l x.program slack) separator separator')
    (repetition : Repetition) (start : Mark) {scope scope' : Scope} {items items' : List Value}
    {s t : State} (scopes : scope.Like l x.program slack scope')
    (values : List.Forall₂ (Value.Like l) items items') (states : s.Like l x.program t) :
    StepsLike l x.program slack (x.repeated P separator repetition start scope items s)
      (y.repeated Q separator' repetition start scope' items' t) := by
  induction left : x.tokens.lastPosition - s.position using Nat.strongRecOn
    generalizing items items' s t with
  | ind n ih =>
    have same : items'.isEmpty = items.isEmpty := by cases values <;> rfl
    have ends := elements.turn separators (!items.isEmpty) scopes states
    rw [Session.repeated, Session.repeated, same, states.mark_eq]
    generalize Session.turn P separator (!items.isEmpty) scope s = u at ends ⊢
    generalize Session.turn Q separator' (!items.isEmpty) scope' t = w at ends ⊢
    cases ends with
    | success more after =>
      simp only [states.position_eq, after.position_eq, sessions.lastPosition_eq]
      split
      · exact ih _ (by omega) (List.rel_append values more) after rfl
      · exact finishList_like values (fun _ none => nomatch none) (after.rewind s.mark)
    | soft of after =>
      refine finishList_like values ?_ (after.rewind s.mark)
      rintro _ ⟨⟩
      exact of
    | hard of after => exact .hard of after
    | stopped => exact .stopped
    | limited more => exact .limited more

/-- A predicate holds of the first value in both sessions or in neither. -/
theorem holds_eq (sessions : x.Like l y) (ref : PredicateRef) {values values' : List Value}
    (h : List.Forall₂ (Value.Like l) values values') :
    ((y.program.predicate? ref).any fun q =>
      values'.head?.any fun value => q.check y.program.schema y.names value) =
    ((x.program.predicate? ref).any fun q =>
      values.head?.any fun value => q.check x.program.schema x.names value) := by
  rw [sessions.program_eq]
  cases found : x.program.predicate? ref with
  | none => rfl
  | some q =>
    cases h with
    | nil => rfl
    | cons first _ => exact sessions.check_eq q (Array.mem_of_getElem? found) first

/-- A predicate accepts values that are alike, or it rejects both. -/
theorem checked (sessions : x.Like l y) (h : ParsersLike l x.program slack P Q)
    (ref : PredicateRef) :
    ParsersLike l x.program slack (x.checked ref P) (y.checked ref Q) := by
  intro scope scope' s t scopes states
  have ends := h scopes states
  simp only [Session.checked, states.mark_eq, states.position_eq]
  generalize P scope s = u at ends ⊢
  generalize Q scope' t = w at ends ⊢
  cases ends with
  | success values after =>
    simp only [sessions.holds_eq ref values]
    split
    · exact .success values after
    · exact .fail (Failure.of_predicate _ ref) (after.rewind s.mark)
  | soft of after => exact .soft of after
  | hard of after => exact .hard of after
  | stopped => exact .stopped
  | limited more => exact .limited more

/-- Guards that are alike are found alike. -/
theorem probe {guards guards' : List Guard}
    (h : List.Forall₂ (Guard.Like l p slack) guards guards') {s t : State}
    (states : s.Like l p t) :
    EndsLike slack (fun a b => b.1 = a.1 ∧ a.2.Like l p b.2) (Session.probe s guards)
      (Session.probe t guards') := by
  induction h generalizing s t with
  | nil => exact .ended ⟨rfl, states⟩
  | @cons g g' _ _ first _ ih =>
    have ends := first.attempt states
    simp only [Session.probe, states.mark_eq]
    generalize g.attempt s = u at ends ⊢
    generalize g'.attempt t = w at ends ⊢
    cases ends with
    | success _ after => exact .ended ⟨rfl, after.rewind s.mark⟩
    | soft _ after | hard _ after => exact ih (after.rewind s.mark)
    | stopped => exact .stopped
    | limited more => exact .limited more

/-- A position is guarded alike, and the probe leaves states that are alike. -/
theorem guarded {guards guards' : List Guard}
    (h : List.Forall₂ (Guard.Like l p slack) guards guards') {s t : State}
    (states : s.Like l p t) :
    EndsLike slack (fun a b => b.1 = a.1 ∧ a.2.Like l p b.2) (Session.guarded s guards)
      (Session.guarded t guards') := by
  have ends := probe h states.withoutFurthest
  rw [Session.guarded, Session.guarded]
  generalize Session.probe { s with furthest := none } guards = u at ends ⊢
  generalize Session.probe { t with furthest := none } guards' = w at ends ⊢
  cases ends with
  | ended both => exact .ended ⟨both.1, both.2.withFurthest states⟩
  | stopped => exact .stopped
  | limited more => exact .limited more

/-- Skipping a token ends alike, whatever the tokens are called. -/
theorem skipToken (sessions : x.Like l y) (errorType : NodeRef) :
    ParsersLike l x.program slack (x.skipToken errorType) (y.skipToken errorType) := by
  intro scope scope' s t scopes states
  have ends := guarded scopes.guards states
  simp only [Session.skipToken, sessions.recovery_eq, sessions.atEnd_eq states,
    states.position_eq]
  split
  · exact .fail (Failure.of_plain _) states
  · generalize Session.guarded s scope.guards = u at ends ⊢
    generalize Session.guarded t scope'.guards = w at ends ⊢
    cases ends with
    | @ended a b both =>
      obtain ⟨answer, s₁⟩ := a
      obtain ⟨answer', t₁⟩ := b
      obtain ⟨same, after⟩ : answer' = answer ∧ s₁.Like l x.program t₁ := both
      obtain rfl := same
      cases answer' with
      | true =>
        simp only [after.position_eq]
        exact .fail (Failure.of_plain _) after
      | false =>
        have tokens := sessions.current after
        simp only [sessions.describeFound_eq tokens]
        exact .success (.cons (.node tokens.span .nil) .nil)
          ((sessions.advance after).report (Diagnostic.like_atSpan tokens.span ..))
    | stopped => exact .stopped
    | limited more => exact .limited more

/-- Operands that are alike build nodes that are alike. -/
theorem build (sessions : x.Like l y) (h : ParsersLike l x.program slack P Q) (type : NodeRef)
    (layout : List FieldKind) :
    ParsersLike l x.program slack (x.build type layout P) (y.build type layout Q) := by
  intro scope scope' s t scopes states
  have ends := h scopes states
  rw [Session.build, Session.build]
  generalize P scope s = u at ends ⊢
  generalize Q scope' t = w at ends ⊢
  cases ends with
  | success values after =>
    exact .success (.cons (.node (sessions.spanSince states after)
      (Value.like_zipWith_fitNull values layout)) .nil) after
  | soft of after => exact .soft of after
  | hard of after => exact .hard of after
  | stopped => exact .stopped
  | limited more => exact .limited more

/-- Operands that are alike select one alternative. -/
theorem select (sessions : x.Like l y) (h : ParsersLike l x.program slack P Q) (type : EnumRef)
    (alternative : Nat) :
    ParsersLike l x.program slack (x.select type alternative P) (y.select type alternative Q) := by
  intro scope scope' s t scopes states
  have ends := h scopes states
  rw [Session.select, Session.select]
  generalize P scope s = u at ends ⊢
  generalize Q scope' t = w at ends ⊢
  cases ends with
  | success _ after =>
    exact .success (.cons (.enum (sessions.spanSince states after)) .nil) after
  | soft of after => exact .soft of after
  | hard of after => exact .hard of after
  | stopped => exact .stopped
  | limited more => exact .limited more

variable {call call' : Call}

/-- Matchers whose parsers end alike are operands that are alike. -/
theorem operands {ms : List Matcher}
    (h : ∀ m ∈ ms, ParsersLike l p slack (x.parser call m) (y.parser call' m)) :
    List.Forall₂ (Operand.Like l p slack) (x.operands call ms) (y.operands call' ms) := by
  induction ms with
  | nil => exact .nil
  | cons m ms ih =>
    obtain ⟨first, others⟩ := List.forall_mem_cons.mp h
    exact .cons ⟨rfl, first⟩ (ih others)

/-- The parsers of a part of the program end alike if calls of rules do. -/
theorem parser (sessions : x.Like l y) (calls : CallsLike l x.program slack call call')
    {m : Matcher} (part : m ∈ x.program.parts) :
    ParsersLike l x.program slack (x.parser call m) (y.parser call' m) := by
  have below {m n : Matcher} (part : m ∈ x.program.parts) (operand : n ∈ m.operands) :
      n ∈ x.program.parts := Program.operand_mem_parts part operand
  have only {m n : Matcher} (part : m ∈ x.program.parts) (one : m.operands = [n]) :
      n ∈ x.program.parts := below part (one ▸ List.mem_singleton_self n)
  induction m with
  | token kind text keep => exact fun _ _ _ _ _ states => sessions.matchToken part states
  | rule ref =>
    intro scope scope' s t scopes states
    simp only [Session.parser, scopes.active_eq, patterns_eq_of_like scopes.guards]
    exact calls (parts_of_like scopes.guards) states
  | seq items ih =>
    intro scope scope' s t scopes states
    rw [Session.parser, Session.parser, states.mark_eq]
    exact ParsersLike.sequence (operands fun m among => ih m among (below part among)) _ _ .nil
      scopes states
  | choice alternatives ih =>
    intro scope scope' s t scopes states
    rw [Session.parser, Session.parser, states.mark_eq, sessions.recovery_eq]
    have nothing : ∀ f ∈ (none : Option Failure), f.Of x.program := fun _ none => nomatch none
    exact sessions.ordered (operands fun m among => ih m among (below part among)) _ _ nothing
      nothing scopes states
  | opt m ih =>
    intro scope scope' s t scopes states
    rw [Session.parser, Session.parser, sessions.program_eq]
    exact (ih (only part rfl)).optional _ scopes states
  | group m ih => exact (ih (only part rfl)).grouped
  | list repetition element ih =>
    intro scope scope' s t scopes states
    rw [Session.parser, Session.parser, states.mark_eq]
    exact sessions.repeated (ih (only part rfl)) .none _ _ scopes .nil states
  | sepList repetition element separator ihe ihs =>
    intro scope scope' s t scopes states
    rw [Session.parser, Session.parser, states.mark_eq]
    have inner := below part (List.mem_cons_self ..)
    have between := below part (List.mem_cons_of_mem _ (List.mem_singleton_self _))
    exact sessions.repeated (ihe inner) (.some (ihs between)) _ _ scopes .nil states
  | cut => exact fun _ _ _ _ _ states => .success .nil states
  | predicate ref m ih => exact sessions.checked (ih (only part rfl)) ref
  | skip errorType => exact sessions.skipToken errorType
  | protect m guard ihm ihg =>
    have inner := below part (List.mem_cons_self ..)
    have protected_ := below part (List.mem_cons_of_mem _ (List.mem_singleton_self _))
    exact (ihm inner).protecting ⟨rfl, protected_, fun _ _ states => ihg protected_ .empty states⟩
  | null type => exact fun _ _ _ _ _ states => .success (.cons .absent .nil) states
  | node type layout m ih => exact sessions.build (ih (only part rfl)) type layout
  | enum type alternative m ih => exact sessions.select (ih (only part rfl)) type alternative

/-- Calls end alike where the second session has so many levels more. -/
theorem calls (sessions : x.Like l y) (slack remaining depth : Nat) :
    CallsLike l x.program slack (x.call remaining depth) (y.call (remaining + slack) depth) := by
  induction remaining generalizing depth with
  | zero =>
    intro ref active guards s t _ states
    rw [Nat.zero_add, Session.call]
    split
    · next again =>
      cases slack <;> rw [Session.call, states.position_eq, if_pos again, sessions.program_eq] <;>
        exact .stopped
    · next new =>
      cases slack with
      | zero =>
        rw [Session.call, states.position_eq, if_neg new]
        exact .stopped
      | succ more => exact .limited (Nat.succ_pos more)
  | succ remaining ih =>
    intro ref active guards s t parts states
    rw [Nat.add_right_comm, Session.call, Session.call, states.position_eq, sessions.program_eq]
    split
    · exact .stopped
    · rw [enter, enter, sessions.program_eq]
      cases found : x.program.rule? ref with
      | none =>
        rw [states.position_eq]
        exact .fail (Failure.of_plain _) states
      | some rule =>
        have parsers {m : Matcher} (part : m ∈ x.program.parts) :=
          sessions.parser (ih (depth + 1)) part
        have guarding : List.Forall₂ (Guard.Like l x.program slack)
            (guards.map (x.guard (x.call remaining (depth + 1))))
            (guards.map (y.guard (y.call (remaining + slack) (depth + 1)))) := by
          rw [List.forall₂_map_left_iff, List.forall₂_map_right_iff, List.forall₂_same]
          exact fun g among =>
            ⟨rfl, parts g among, fun _ _ states => parsers (parts g among) .empty states⟩
        exact parsers (Program.body_mem_parts found) ⟨by rw [states.position_eq], guarding⟩ states

/-- Runs of a rule end alike where the second session has so many levels more. -/
theorem run (sessions : x.Like l y) (slack maxDepth : Nat) (ref : RuleRef) {s t : State}
    (states : s.Like l x.program t) :
    StepsLike l x.program slack (x.run maxDepth ref s) (y.run (maxDepth + slack) ref t) :=
  sessions.calls slack maxDepth 0 (List.forall_mem_nil _) states

end Like

end Session

end CombinatorGrammar
