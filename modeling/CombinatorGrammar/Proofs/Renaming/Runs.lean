import CombinatorGrammar.Proofs.Renaming.Basic

/-!
# Runs of renamed sessions

A run of a renamed session is the run of the session, renamed: it ends in the same way and at the
same place, or it is stopped by the same fault. There is one lemma for each way of combining
parsers, and from these the parse of a whole input is put together.
-/

namespace CombinatorGrammar

section Parsers

variable (ρ : Name → Name)

/-- The second guard attempts on renamed states what the first one attempts. -/
structure Guard.Renamed (g g' : Guard) : Prop where
  pattern_eq : g'.pattern = g.pattern.rename ρ
  attempt_eq : ∀ s, g'.attempt (s.rename ρ) = Step.rename ρ (g.attempt s)

/-- The same rules are in progress, and the guards are renamed. -/
structure Scope.Renamed (scope scope' : Scope) : Prop where
  active_eq : scope'.active = scope.active
  guards : List.Forall₂ (Guard.Renamed ρ) scope.guards scope'.guards

/-- The second parser does to renamed states what the first one does. -/
def Parser.Renamed (P Q : Parser) : Prop :=
  ∀ ⦃scope scope' : Scope⦄, scope.Renamed ρ scope' →
    ∀ s, Q scope' (s.rename ρ) = Step.rename ρ (P scope s)

/-- The matcher is renamed, and so is the parser. -/
structure Operand.Renamed (a b : Operand) : Prop where
  pattern_eq : b.pattern = a.pattern.rename ρ
  parse : Parser.Renamed ρ a.parse b.parse

/-- The second call does to renamed states, within renamed regions, what the first one does. -/
def Call.Renamed (call call' : Call) : Prop :=
  ∀ ref active guards s,
    call' ref active (guards.map (Matcher.rename ρ)) (s.rename ρ) =
      Step.rename ρ (call ref active guards s)

end Parsers

variable {ρ : Name → Name} {P Q : Parser}

/-- No rules in progress and no guards are the same under other names. -/
theorem Scope.renamed_empty : Scope.Renamed ρ .empty .empty := ⟨rfl, .nil⟩

/-- Renamed guards are attempts of the renamed matchers. -/
theorem Guard.patterns_eq {guards guards' : List Guard}
    (h : List.Forall₂ (Guard.Renamed ρ) guards guards') :
    guards'.map Guard.pattern = (guards.map Guard.pattern).map (Matcher.rename ρ) := by
  induction h with
  | nil => rfl
  | cons first _ ih => rw [List.map_cons, List.map_cons, List.map_cons, first.pattern_eq, ih]

namespace Parser.Renamed

/-- Renamed operands make a sequence that ends as under other names. -/
theorem sequence {as bs : List Operand} (operands : List.Forall₂ (Operand.Renamed ρ) as bs)
    (start : Mark) (committed : Bool) (values : List Value) :
    Parser.Renamed ρ (Session.sequence start committed values as)
      (Session.sequence start committed (values.map (Value.rename ρ)) bs) := by
  induction operands generalizing committed values with
  | nil => exact fun _ _ _ _ => rfl
  | @cons a b _ _ first _ ih =>
    intro scope scope' scopes s
    simp only [Session.sequence, first.pattern_eq, Matcher.isCut_rename]
    split
    · exact ih true values scopes s
    · rw [first.parse scopes]
      rcases a.parse scope s with fault | ⟨o, t⟩
      · rfl
      · cases o with
        | success more =>
          have both := ih committed (values ++ more) scopes t
          rw [List.map_append] at both
          exact both
        | soft f => cases committed <;> rfl
        | hard f => rfl

/-- A renamed operand is optional as under other names. -/
theorem optional (h : Parser.Renamed ρ P Q) (arity : Nat) :
    Parser.Renamed ρ (Session.optional arity P) (Session.optional arity Q) := by
  intro scope scope' scopes s
  rw [Session.optional, Session.optional, h scopes]
  rcases P scope s with fault | ⟨o, t⟩
  · rfl
  · cases o with
    | success values => rfl
    | soft f =>
      simp only [Step.rename_soft, State.rename_yield, List.map_replicate]
      rfl
    | hard f => rfl

/-- A renamed operand is grouped as under other names. -/
theorem grouped (h : Parser.Renamed ρ P Q) :
    Parser.Renamed ρ (Session.grouped P) (Session.grouped Q) := by
  intro scope scope' scopes s
  rw [Session.grouped, Session.grouped, h scopes]
  rcases P scope s with fault | ⟨o, t⟩
  · rfl
  · cases o with
    | success values =>
      simp only [Step.rename_success, State.rename_yield, List.map_cons, List.map_nil,
        Value.rename, Value.renameAll_eq_map]
    | soft f => rfl
    | hard f => rfl

/-- Renamed elements and separators make turns that end as under other names. -/
theorem turn (element : Parser.Renamed ρ P Q) {separator separator' : Option Parser}
    (between : Option.Rel (Parser.Renamed ρ) separator separator') (hasItems : Bool) :
    Parser.Renamed ρ (Session.turn P separator hasItems)
      (Session.turn Q separator' hasItems) := by
  intro scope scope' scopes s
  cases between with
  | none => exact element scopes s
  | @some S S' between =>
    cases hasItems with
    | false => exact element scopes s
    | true =>
      simp only [Session.turn, if_true]
      rw [between scopes]
      rcases S scope s with fault | ⟨o, t⟩
      · rfl
      · cases o with
        | success _ => exact element scopes t
        | soft f => rfl
        | hard f => rfl

/-- A renamed operand ends behind a renamed guard as under other names. -/
theorem protecting {g g' : Guard} (guards : g.Renamed ρ g') (h : Parser.Renamed ρ P Q) :
    Parser.Renamed ρ (Session.protecting g P) (Session.protecting g' Q) := by
  intro scope scope' scopes s
  have within : Scope.Renamed ρ { scope with guards := g :: scope.guards }
      { scope' with guards := g' :: scope'.guards } :=
    ⟨scopes.active_eq, .cons guards scopes.guards⟩
  exact h within s

end Parser.Renamed

namespace Session

/-- A list is finished as under other names. -/
theorem finishList_rename (repetition : Repetition) (start : Mark) (items : List Value)
    (last : Option Failure) (s : State) :
    finishList repetition start (items.map (Value.rename ρ)) (last.map (Failure.rename ρ))
        (s.rename ρ) =
      Step.rename ρ (finishList repetition start items last s) := by
  rw [finishList, finishList, List.isEmpty_map]
  split
  · cases last <;> rfl
  · simp only [State.rename_yield, List.map_cons, List.map_nil, Value.rename,
      Value.renameAll_eq_map]

/-- What probing the guards answers, in a renamed state. -/
theorem probe_rename {guards guards' : List Guard}
    (h : List.Forall₂ (Guard.Renamed ρ) guards guards') (s : State) :
    probe (s.rename ρ) guards' = (probe s guards).map fun r => (r.1, r.2.rename ρ) := by
  induction h generalizing s with
  | nil => rfl
  | @cons g g' _ _ first _ ih =>
    rw [probe, probe, first.attempt_eq]
    rcases g.attempt s with fault | ⟨o, t⟩
    · rfl
    · cases o with
      | success values => rfl
      | soft f | hard f => exact ih (t.rewind s.mark)

/-- A position is guarded as under other names. -/
theorem guarded_rename {guards guards' : List Guard}
    (h : List.Forall₂ (Guard.Renamed ρ) guards guards') (s : State) :
    guarded (s.rename ρ) guards' = (guarded s guards).map fun r => (r.1, r.2.rename ρ) := by
  have probed : probe { s.rename ρ with furthest := none } guards' =
      (probe { s with furthest := none } guards).map fun r => (r.1, r.2.rename ρ) :=
    probe_rename h { s with furthest := none }
  rw [guarded, guarded, probed]
  cases probe { s with furthest := none } guards <;> rfl

namespace Renamed

variable {x y : Session}

/-- A token match ends as under other names, since names stay apart. -/
theorem matchToken (h : x.Renamed ρ y) (kind : TokenKind) (text : Option Name) (keep : Bool)
    (s : State) :
    y.matchToken kind (text.map ρ) keep (s.rename ρ) =
      Step.rename ρ (x.matchToken kind text keep s) := by
  have same : (text.map ρ).all (· = ((x.current s).rename ρ).text) =
      text.all (· = (x.current s).text) := by
    cases text with
    | none => rfl
    | some n => simp only [Option.map_some, Option.all_some, Token.rename, h.injective.eq_iff]
  have kinds : ((x.current s).rename ρ).kind = (x.current s).kind := rfl
  simp only [Session.matchToken, h.current_eq, h.advance_eq, same, kinds]
  split
  · cases keep <;> rfl
  · rw [State.rename_fail h.injective]
    rfl

/-- Renamed operands make a choice that ends as under other names. -/
theorem ordered (h : x.Renamed ρ y) {as bs : List Operand}
    (operands : List.Forall₂ (Operand.Renamed ρ) as bs) (recovers : Bool) (start : Mark)
    (best committed : Option Failure) :
    Parser.Renamed ρ (x.ordered recovers start best committed as)
      (y.ordered recovers start (best.map (Failure.rename ρ)) (committed.map (Failure.rename ρ))
        bs) := by
  induction operands generalizing best committed with
  | nil =>
    intro scope scope' _ s
    cases committed with
    | some f => rfl
    | none => cases best <;> rfl
  | @cons a b _ _ first _ ih =>
    intro scope scope' scopes s
    simp only [Session.ordered, first.pattern_eq, Matcher.isSkip_rename, Option.isSome_map]
    split
    · exact ih best committed scopes s
    · rw [first.parse scopes]
      rcases a.parse scope s with fault | ⟨o, t⟩
      · rfl
      · cases o with
        | success values => rfl
        | soft f =>
          cases best with
          | none => exact ih (some f) committed scopes (t.rewind start)
          | some b =>
            have further := ih (some (b.further f)) committed scopes (t.rewind start)
            rw [Option.map_some, Failure.rename_further] at further
            exact further
        | hard f =>
          cases recovers with
          | false => rfl
          | true =>
            have reported := ih best (some f) scopes (x.reportRecovered f (t.rewind start))
            rw [← h.reportRecovered_eq] at reported
            exact reported

/-- Renamed elements and separators make a list that ends as under other names. -/
theorem repeated (h : x.Renamed ρ y) (element : Parser.Renamed ρ P Q)
    {separator separator' : Option Parser}
    (between : Option.Rel (Parser.Renamed ρ) separator separator') (repetition : Repetition)
    (start : Mark) {scope scope' : Scope} (scopes : scope.Renamed ρ scope') (items : List Value)
    (s : State) :
    y.repeated Q separator' repetition start scope' (items.map (Value.rename ρ)) (s.rename ρ) =
      Step.rename ρ (x.repeated P separator repetition start scope items s) := by
  induction left : x.tokens.lastPosition - s.position using Nat.strongRecOn
    generalizing items s with
  | ind n ih =>
    rw [Session.repeated, Session.repeated, List.isEmpty_map,
      element.turn between (!items.isEmpty) scopes]
    rcases Session.turn P separator (!items.isEmpty) scope s with fault | ⟨o, t⟩
    · rfl
    · cases o with
      | success more =>
        simp only [Step.rename_success, h.lastPosition_eq, State.position_rename]
        split
        · rw [← List.map_append]
          exact ih _ (by omega) (items ++ more) t rfl
        · exact finishList_rename repetition start items none (t.rewind s.mark)
      | soft f => exact finishList_rename repetition start items (some f) (t.rewind s.mark)
      | hard f => rfl

/-- A predicate answers as under other names, since it sees texts only. -/
theorem checked (h : x.Renamed ρ y) (operand : Parser.Renamed ρ P Q) (ref : PredicateRef) :
    Parser.Renamed ρ (x.checked ref P) (y.checked ref Q) := by
  intro scope scope' scopes s
  rw [Session.checked, Session.checked, operand scopes]
  rcases P scope s with fault | ⟨o, t⟩
  · rfl
  · cases o with
    | success values =>
      have holds : ((y.program.predicate? ref).any fun q =>
            (values.map (Value.rename ρ)).head?.any fun v =>
              q.check y.program.schema y.names v) =
          ((x.program.predicate? ref).any fun q =>
            values.head?.any fun v => q.check x.program.schema x.names v) := by
        rw [h.program_eq, show (x.program.rename ρ).predicate? ref = x.program.predicate? ref
          from rfl]
        cases found : x.program.predicate? ref with
        | none => rfl
        | some q =>
          cases values with
          | nil => rfl
          | cons v values => exact h.check_eq q (Array.mem_of_getElem? found) v
      simp only [Step.rename_success, holds]
      split
      · rfl
      · exact (State.rename_fail h.injective (t.rewind s.mark)
          ⟨s.position, [.predicate ref]⟩).symm
    | soft f => rfl
    | hard f => rfl

/-- A token is skipped as under other names. -/
theorem skipToken (h : x.Renamed ρ y) (errorType : NodeRef) :
    Parser.Renamed ρ (x.skipToken errorType) (y.skipToken errorType) := by
  intro scope scope' scopes s
  rw [Session.skipToken, Session.skipToken, h.recovery_eq, h.atEnd_eq,
    guarded_rename scopes.guards]
  split
  · exact (State.rename_fail h.injective s (.plain s.position)).symm
  · rcases guarded s scope.guards with fault | ⟨answer, t⟩
    · rfl
    · cases answer with
      | true => exact (State.rename_fail h.injective t (.plain t.position)).symm
      | false =>
        simp only [Except.map, h.current_eq, h.advance_eq, h.describeFound_eq]
        rfl

/-- A node is built as under other names. -/
theorem build (h : x.Renamed ρ y) (operand : Parser.Renamed ρ P Q) (type : NodeRef)
    (layout : List FieldKind) :
    Parser.Renamed ρ (x.build type layout P) (y.build type layout Q) := by
  intro scope scope' scopes s
  rw [Session.build, Session.build, operand scopes]
  rcases P scope s with fault | ⟨o, t⟩
  · rfl
  · cases o with
    | success values =>
      simp only [Step.rename_success, State.rename_yield, h.spanSince_eq, List.map_cons,
        List.map_nil, Value.rename, Value.renameAll_eq_map, Value.map_rename_zipWith_fitNull]
    | soft f => rfl
    | hard f => rfl

/-- An alternative is selected as under other names. -/
theorem select (h : x.Renamed ρ y) (operand : Parser.Renamed ρ P Q) (type : EnumRef)
    (alternative : Nat) :
    Parser.Renamed ρ (x.select type alternative P) (y.select type alternative Q) := by
  intro scope scope' scopes s
  rw [Session.select, Session.select, operand scopes]
  rcases P scope s with fault | ⟨o, t⟩
  · rfl
  · cases o with
    | success values =>
      simp only [Step.rename_success, State.rename_yield, h.spanSince_eq, List.map_cons,
        List.map_nil, Value.rename]
    | soft f => rfl
    | hard f => rfl

variable {call call' : Call}

/-- Matchers whose parsers end as under other names are renamed operands. -/
theorem operands {ms : List Matcher}
    (each : ∀ m ∈ ms, Parser.Renamed ρ (x.parser call m) (y.parser call' (m.rename ρ))) :
    List.Forall₂ (Operand.Renamed ρ) (x.operands call ms)
      (y.operands call' (Matcher.renameAll ρ ms)) := by
  induction ms with
  | nil => exact .nil
  | cons m ms ih =>
    obtain ⟨first, others⟩ := List.forall_mem_cons.mp each
    exact .cons ⟨rfl, first⟩ (ih others)

/-- The parser of a renamed matcher does what the parser of the matcher does, if calls of rules do
so. -/
theorem parser (h : x.Renamed ρ y) (calls : Call.Renamed ρ call call') (m : Matcher) :
    Parser.Renamed ρ (x.parser call m) (y.parser call' (m.rename ρ)) := by
  induction m with
  | token kind text keep => exact fun _ _ _ s => h.matchToken kind text keep s
  | rule ref =>
    intro scope scope' scopes s
    simp only [Matcher.rename, Session.parser, scopes.active_eq, Guard.patterns_eq scopes.guards]
    exact calls ref scope.active _ s
  | seq items ih =>
    intro scope scope' scopes s
    exact Parser.Renamed.sequence (operands ih) s.mark false [] scopes s
  | choice alternatives ih =>
    intro scope scope' scopes s
    rw [Matcher.rename, Session.parser, Session.parser, Matcher.recovers_renameAll,
      h.recovery_eq]
    exact h.ordered (operands ih) _ s.mark none none scopes s
  | opt m ih =>
    intro scope scope' scopes s
    rw [Matcher.rename, Session.parser, Session.parser, h.program_eq, Program.arity_rename]
    exact ih.optional _ scopes s
  | group m ih => exact ih.grouped
  | list repetition element ih =>
    exact fun _ _ scopes s => h.repeated ih .none repetition s.mark scopes [] s
  | sepList repetition element separator ihe ihs =>
    exact fun _ _ scopes s => h.repeated ihe (.some ihs) repetition s.mark scopes [] s
  | cut => exact fun _ _ _ _ => rfl
  | predicate ref m ih => exact h.checked ih ref
  | skip errorType => exact h.skipToken errorType
  | protect m guard ihm ihg =>
    exact ihm.protecting ⟨rfl, fun s => ihg Scope.renamed_empty s⟩
  | null type => exact fun _ _ _ _ => rfl
  | node type layout m ih => exact h.build ih type layout
  | enum type alternative m ih => exact h.select ih type alternative

/-- Calls of rules end as under other names, on every level. -/
theorem calls (h : x.Renamed ρ y) (remaining depth : Nat) :
    Call.Renamed ρ (x.call remaining depth) (y.call remaining depth) := by
  induction remaining generalizing depth with
  | zero =>
    intro ref active guards s
    rw [Session.call, Session.call, h.program_eq, Program.ruleName_rename,
      State.position_rename]
    split <;> rfl
  | succ remaining ih =>
    intro ref active guards s
    rw [Session.call, Session.call, h.program_eq, Program.ruleName_rename,
      State.position_rename]
    split
    · rfl
    · rw [enter, enter, h.program_eq, Program.rule?_rename]
      cases x.program.rule? ref with
      | none => exact (State.rename_fail h.injective s (.plain s.position)).symm
      | some rule =>
        have within : Scope.Renamed ρ
            ⟨(ref, s.position) :: active, guards.map (x.guard (x.call remaining (depth + 1)))⟩
            ⟨(ref, s.position) :: active, (guards.map (Matcher.rename ρ)).map
              (y.guard (y.call remaining (depth + 1)))⟩ := by
          refine ⟨rfl, ?_⟩
          rw [List.map_map, List.forall₂_map_left_iff, List.forall₂_map_right_iff,
            List.forall₂_same]
          exact fun g _ =>
            ⟨rfl, fun s => h.parser (ih (depth + 1)) g Scope.renamed_empty s⟩
        exact h.parser (ih (depth + 1)) rule.body within s

/-- A run of a rule in a renamed session is the run in the session, renamed. -/
theorem run_eq (h : x.Renamed ρ y) (maxDepth : Nat) (ref : RuleRef) (s : State) :
    y.run maxDepth ref (s.rename ρ) = Step.rename ρ (x.run maxDepth ref s) :=
  h.calls maxDepth 0 ref [] [] s

end Renamed

end Session

end CombinatorGrammar
