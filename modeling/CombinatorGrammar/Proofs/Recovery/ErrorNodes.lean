import CombinatorGrammar.Proofs.Recovery.Reports
import CombinatorGrammar.Proofs.Recovery.Skipless
import CombinatorGrammar.Proofs.Values.Whole

/-!
# Warnings and error nodes

A skip reports the token that it takes and yields an error node in its place. The report and the
node then go separate ways, the one among the diagnostics and the other among the values, and both
are undone when the run goes back. They stay together where no values are dropped: so the places
of the warnings are those of the error nodes in the tree, in the same order.
-/

namespace CombinatorGrammar

namespace Value

mutual

/-- The spans of the error nodes in a value, in the order of the tree. -/
def errorSpans (schema : Schema) : Value → List Span
  | node type span fields =>
    if schema.isError type then span :: errorSpansOfAll schema fields
    else errorSpansOfAll schema fields
  | list items => errorSpansOfAll schema items
  | _ => []

/-- The spans of the error nodes in several values, from left to right. -/
def errorSpansOfAll (schema : Schema) : List Value → List Span
  | [] => []
  | value :: rest => errorSpans schema value ++ errorSpansOfAll schema rest

end

variable {schema : Schema}

/-- The error nodes of one list of values come before those of the next. -/
theorem errorSpansOfAll_append (values more : List Value) :
    errorSpansOfAll schema (values ++ more) =
      errorSpansOfAll schema values ++ errorSpansOfAll schema more := by
  induction values with
  | nil => rfl
  | cons value values ih =>
    rw [List.cons_append, errorSpansOfAll, errorSpansOfAll, ih, List.append_assoc]

@[simp] theorem errorSpansOfAll_singleton (value : Value) :
    errorSpansOfAll schema [value] = errorSpans schema value := by
  rw [errorSpansOfAll, errorSpansOfAll, List.append_nil]

/-- Nulls hold no error nodes. -/
theorem errorSpansOfAll_replicate_null (n : Nat) :
    errorSpansOfAll schema (List.replicate n .null) = [] := by
  induction n with
  | zero => rfl
  | succ n ih => rw [List.replicate_succ, errorSpansOfAll, ih]; rfl

/-- A null has no error nodes in either form. -/
theorem errorSpans_fitNull (kind : FieldKind) (value : Value) :
    errorSpans schema (fitNull kind value) = errorSpans schema value := by
  unfold fitNull
  split <;> rfl

/-- Fitting one value for each field keeps all error nodes. -/
theorem errorSpansOfAll_zipWith_fitNull {layout : List FieldKind} {values : List Value}
    (enough : values.length = layout.length) :
    errorSpansOfAll schema (List.zipWith fitNull layout values) =
      errorSpansOfAll schema values := by
  induction values generalizing layout with
  | nil => simp [errorSpansOfAll]
  | cons value values ih =>
    cases layout with
    | nil => simp at enough
    | cons kind layout =>
      have later : values.length = layout.length := by simpa using enough
      rw [List.zipWith_cons_cons, errorSpansOfAll, errorSpansOfAll, errorSpans_fitNull, ih later]

end Value

namespace Diagnostic

/-- The places of the skipped tokens that are reported, in order. -/
def skippedSpans (ds : List Diagnostic) : List (Option Span) :=
  (ds.filter fun d => d.code == .skippedToken).map primarySpan?

/-- The tokens skipped in one list of reports come before those in the next. -/
theorem skippedSpans_append (ds es : List Diagnostic) :
    skippedSpans (ds ++ es) = skippedSpans ds ++ skippedSpans es := by
  rw [skippedSpans, List.filter_append, List.map_append]
  rfl

/-- A report of a skipped token is at the token. -/
@[simp] theorem skippedSpans_skippedToken (span : Span) (found : String) :
    skippedSpans [.skippedToken span found] = [some span] := rfl

end Diagnostic

namespace Session

open Diagnostic (skippedSpans skippedSpans_append)
open Value (errorSpansOfAll errorSpansOfAll_append)

variable {x : Session} {call : Call} {cx : Context} {s s' : State} {o : Outcome}

/-- The second state has reported a skipped token for each error node of the values, in order. -/
def ReportsAll (x : Session) (s s' : State) (values : List Value) : Prop :=
  skippedSpans s'.diagnostics =
    skippedSpans s.diagnostics ++ (errorSpansOfAll x.program.schema values).map some

/-- Where nothing more was skipped, all error nodes of no values are reported. -/
theorem reportsAll_nil (same : skippedSpans s'.diagnostics = skippedSpans s.diagnostics) :
    x.ReportsAll s s' [] := by
  rw [ReportsAll, same, errorSpansOfAll, List.map_nil, List.append_nil]

/-- A state that has not moved has reported nothing more. -/
theorem reportsAll_of_unmoved (h : s.Unmoved s') : x.ReportsAll s s' [] :=
  reportsAll_nil (by rw [h.diagnostics_eq])

/-- Values without error nodes are reported by nothing. -/
theorem ReportsAll.congr {values more : List Value} (h : x.ReportsAll s s' values)
    (same : errorSpansOfAll x.program.schema more = errorSpansOfAll x.program.schema values) :
    x.ReportsAll s s' more := by
  rw [ReportsAll, same]
  exact h

/-- What is reported of some values and of those behind them is reported of all. -/
theorem ReportsAll.append {s₁ : State} {values more : List Value}
    (h : x.ReportsAll s s₁ values) (h' : x.ReportsAll s₁ s' more) :
    x.ReportsAll s s' (values ++ more) := by
  unfold ReportsAll at *
  rw [h', h, errorSpansOfAll_append, List.map_append, List.append_assoc]

/-- What a successful job reports, if it runs parts of the program. A choice counts from its
mark. -/
def JobReports (x : Session) : Job → State → State → List Value → Prop
  | .matcher m, s, s', values => m ∈ x.program.parts → x.ReportsAll s s' values
  | .items _ ms, s, s', values => (∀ m ∈ ms, m ∈ x.program.parts) → x.ReportsAll s s' values
  | .alternatives _ start _ _ ms, s, s', values => (∀ m ∈ ms, m ∈ x.program.parts) →
    ∀ s₀ : State, s₀.mark = start → s₀.Onward s →
      skippedSpans s.diagnostics = skippedSpans s₀.diagnostics → x.ReportsAll s₀ s' values
  | .repeated _ element separator, s, s', values => element ∈ x.program.parts →
    (∀ m ∈ separator, x.program.Skipless m) → x.ReportsAll s s' values
  | .turn element separator _, s, s', values => element ∈ x.program.parts →
    (∀ m ∈ separator, x.program.Skipless m) → x.ReportsAll s s' values
  | .turns element separator _ _, s, s', values => element ∈ x.program.parts →
    (∀ m ∈ separator, x.program.Skipless m) → x.ReportsAll s s' values
  | .probe _, _, _, _ => True

/-- Taking a token reports nothing, so values without error nodes are reported. -/
theorem reportsAll_advance (s : State) {values : List Value}
    (none : errorSpansOfAll x.program.schema values = []) :
    x.ReportsAll s (x.advance s) values :=
  (reportsAll_nil (by rw [diagnostics_advance])).congr none

/-- Staying reports nothing, so values without error nodes are reported. -/
theorem reportsAll_refl (s : State) {values : List Value}
    (none : errorSpansOfAll x.program.schema values = []) : x.ReportsAll s s values :=
  (reportsAll_nil rfl).congr none

/-- What is undone has reported nothing, and a recovered failure is no skipped token. -/
theorem skippedSpans_reportRecovered {s₀ : State} {f : Failure} (h : s₀.Unmoved s) :
    skippedSpans (x.reportRecovered f s).diagnostics = skippedSpans s₀.diagnostics := by
  rw [reportRecovered, State.diagnostics_report, skippedSpans_append, h.diagnostics_eq]
  exact List.append_nil _

/-- A state with the same reports stands for the first one. -/
theorem ReportsAll.of_eq {s₀ : State} {values : List Value} (h : x.ReportsAll s s' values)
    (same : skippedSpans s.diagnostics = skippedSpans s₀.diagnostics) :
    x.ReportsAll s₀ s' values := by
  rw [ReportsAll, ← same]
  exact h

/-- A skip that takes a token reports the error node that it yields. -/
theorem Runs.reportsAll_skip {errorType : NodeRef} {values : List Value}
    (isError : x.program.schema.isError errorType = true) (settled : CallsSettle call)
    (run : x.Runs call (.matcher (.skip errorType)) cx s (.success values) s') :
    x.ReportsAll s s' values := by
  obtain ⟨span, found, rfl, more⟩ := run.skip_success settled
  rw [ReportsAll, more, skippedSpans_append, Diagnostic.skippedSpans_skippedToken,
    Value.errorSpansOfAll_singleton, Value.errorSpans, if_pos isError, errorSpansOfAll,
    List.map_cons, List.map_nil]

/-- What stands behind an alternative of an enum type has no values. -/
theorem Runs.length_of_enum_operand {remaining depth : Nat} {type : EnumRef} {alternative : Nat}
    {m : Matcher} {values : List Value} (checked : x.program.Checked)
    (tallied : x.program.Tallied)
    (known : ∀ m ∈ x.program.parts, (x.program.arity? m).isSome = true)
    (part : .enum type alternative m ∈ x.program.parts)
    (run : x.Runs (x.call remaining depth) (.matcher m) cx s (.success values) s') :
    values.length = 0 := by
  have operand := Program.operand_part part 0 rfl
  have countable : x.program.Countable m :=
    ⟨checked.valid_part operand, Program.definite_of_known known operand⟩
  have counted : x.program.arity? m = some values.length :=
    run.counts (fun _ _ _ _ _ _ => call_counts checked tallied) values rfl countable
  exact (checked.valid_part part).enum counted

/-- Every successful job reports a skipped token for each error node, if the calls of rules do. -/
theorem Runs.reports {remaining depth : Nat} {job : Job} (checked : x.program.Checked)
    (settled : x.program.Settled) (openly : x.program.SkipsOpenly)
    (calls : ∀ ref active guards s values s',
      x.call remaining depth ref active guards s = .ok (.success values, s') →
        x.ReportsAll s s' values)
    (run : x.Runs (x.call remaining depth) job cx s o s') :
    ∀ values, o = .success values → x.JobReports job s s' values := by
  have known := fun m part => settled.isSome_arity? checked openly.alternatives (m := m) part
  have tallied := Program.tallied_of_known settled known
  have definite : x.program.DefiniteOperands := Program.definiteOperands_of_known known
  have transactions := x.callsSettle remaining depth
  induction run with
  | @token _ _ keep =>
    rintro values ⟨⟩ _
    refine reportsAll_advance _ ?_
    cases keep <;> rfl
  | rule called =>
    rintro values rfl _
    exact calls _ _ _ _ _ _ called
  | seq _ ih =>
    rintro values ⟨⟩ part
    exact ih _ rfl fun m among => Program.operand_mem_parts part among
  | @choice _ _ s _ _ _ ih =>
    intro values same part
    exact ih values same (fun m among => Program.operand_mem_parts part among) s rfl (.refl s) rfl
  | opt _ ih =>
    rintro values ⟨⟩ part
    exact ih _ rfl (Program.operand_part part 0 rfl)
  | opt_soft run _ =>
    rintro values ⟨⟩ _
    exact (reportsAll_of_unmoved (run.onward transactions).rewind_mark).congr
      (Value.errorSpansOfAll_replicate_null _)
  | group _ ih =>
    rintro values ⟨⟩ part
    exact (ih _ rfl (Program.operand_part part 0 rfl)).congr (by simp [Value.errorSpans])
  | group_soft run _ =>
    rintro values ⟨⟩ _
    have unmoved := (run.onward transactions).rewind_mark
    exact (reportsAll_of_unmoved unmoved).congr (by simp [Value.errorSpans])
  | list _ ih =>
    intro values same part
    exact ih values same (Program.operand_part part 0 rfl) (by simp)
  | sepList _ ih =>
    intro values same part
    refine ih values same (Program.operand_part part 0 rfl) ?_
    rintro m ⟨⟩
    exact openly.separators _ _ _ part
  | cut | items_nil =>
    rintro values ⟨⟩ _
    exact reportsAll_refl _ rfl
  | null =>
    rintro values ⟨⟩ _
    exact reportsAll_refl _ rfl
  | predicate _ _ ih =>
    rintro values ⟨⟩ part
    exact ih _ rfl (Program.operand_part part 0 rfl)
  | skip recovery inside probed _ =>
    rintro values ⟨⟩ part
    exact (Runs.skip recovery inside probed).reportsAll_skip (checked.valid_part part).skip
      transactions
  | protect _ ih =>
    intro values same part
    exact ih values same (Program.operand_part part 0 rfl)
  | node run ih =>
    rintro values ⟨⟩ part
    have enough := (run.length_of_node_operand checked definite
      (fun _ _ _ _ _ _ => call_counts checked tallied) part).1
    refine (ih _ rfl (Program.operand_part part 0 rfl)).congr ?_
    rw [Value.errorSpansOfAll_singleton, Value.errorSpans, openly.nodes _ _ _ part]
    exact Value.errorSpansOfAll_zipWith_fitNull enough
  | enum run ih =>
    rintro values ⟨⟩ part
    have operand := Program.operand_part part 0 rfl
    have none := run.length_of_enum_operand checked tallied known part
    refine (ih _ rfl operand).congr ?_
    rw [List.eq_nil_of_length_eq_zero none]
    rfl
  | items_cut _ _ ih =>
    exact fun values same parts => ih values same (List.forall_mem_cons.mp parts).2
  | items_next _ _ _ ihm ihms =>
    rintro values ⟨⟩ parts
    obtain ⟨first, rest⟩ := List.forall_mem_cons.mp parts
    exact (ihm _ rfl first).append (ihms _ rfl rest)
  | alternatives_passed _ _ ih =>
    exact fun values same parts => ih values same (List.forall_mem_cons.mp parts).2
  | alternatives_success _ _ ih =>
    rintro values ⟨⟩ parts s₀ _ _ same
    exact (ih _ rfl (List.forall_mem_cons.mp parts).1).of_eq same
  | alternatives_soft _ run _ _ ihms =>
    rintro values same parts s₀ rfl behind _
    have undone := (behind.trans (run.onward transactions)).rewind_mark
    exact ihms values same (List.forall_mem_cons.mp parts).2 s₀ rfl undone.onward
      (by rw [undone.diagnostics_eq])
  | alternatives_recover _ run _ _ ihms =>
    rintro values same parts s₀ rfl behind _
    have undone := (behind.trans (run.onward transactions)).rewind_mark
    exact ihms values same (List.forall_mem_cons.mp parts).2 s₀ rfl
      (undone.onward.trans (State.onward_report _ _)) (skippedSpans_reportRecovered undone)
  | repeated _ done ih =>
    rintro values rfl part silent
    rcases finishList_cases done with ⟨_, none, _⟩ | ⟨_, only, rfl⟩
    · cases none
    · cases only
      exact (ih _ rfl part silent).congr (by simp [Value.errorSpans])
  | turn_first _ _ ih => exact fun values same part _ => ih values same part
  | turn_next separated _ _ ih =>
    intro values same part silent
    have quiet := separated.silent (silent _ rfl)
    exact ReportsAll.of_eq (ih values same part) (by rw [State.diagnostics, quiet]; rfl)
  | turns_next _ _ _ ih ihms =>
    rintro values ⟨⟩ part silent
    exact (ih _ rfl part silent).append (ihms _ rfl part silent)
  | turns_soft run _ | turns_idle run _ _ =>
    rintro values ⟨⟩ _ _
    have went : State.Onward _ _ := run.settles transactions
    exact reportsAll_of_unmoved went.rewind_mark
  | predicate_fails _ fails | node_fails _ fails | enum_fails _ fails | turn_fails _ fails
  | items_later _ _ _ fails =>
    rintro values rfl
    cases fails
  | probe_nil | probe_match | probe_next => exact fun _ _ => trivial
  -- what fails has no values
  | _ =>
    intro _ none
    cases none

/-- Every call of a rule that succeeds reports a skipped token for each error node. -/
theorem call_reports (checked : x.program.Checked) (settled : x.program.Settled)
    (openly : x.program.SkipsOpenly) {remaining depth : Nat} {ref : RuleRef}
    {active : List (RuleRef × Nat)} {guards : List Matcher} {values : List Value}
    (h : x.call remaining depth ref active guards s = .ok (.success values, s')) :
    x.ReportsAll s s' values := by
  induction remaining generalizing depth ref active guards s values s' with
  | zero =>
    obtain ⟨rest, none, _⟩ := call_eq_ok_iff.mp h
    cases none
  | succ remaining ih =>
    obtain ⟨rest, same, _, entered⟩ := call_eq_ok_iff.mp h
    cases same
    rcases enter_cases entered with ⟨rule, found, run⟩ | ⟨_, none, _⟩
    · exact run.reports checked settled openly (fun _ _ _ _ _ _ called => ih called) values rfl
        (Program.body_mem_parts found)
    · cases none

/-- A run from a state without diagnostics reports just the error nodes of its values. -/
theorem skippedSpans_of_run (checked : x.program.Checked) (settled : x.program.Settled)
    (openly : x.program.SkipsOpenly) {maxDepth start : Nat} {ref : RuleRef} {values : List Value}
    (ran : x.run maxDepth ref (.initial start) = .ok (.success values, s)) :
    skippedSpans s.diagnostics = (errorSpansOfAll x.program.schema values).map some := by
  have reported : x.ReportsAll (.initial start) s values := call_reports checked settled openly ran
  exact reported

end Session

/-- The root holds the error nodes of its values. -/
theorem Value.errorSpans_rootOf (schema : Schema) (values : List Value) :
    errorSpans schema (Session.rootOf values) = errorSpansOfAll schema values := by
  unfold Session.rootOf
  split
  · rw [errorSpansOfAll_singleton]
  · rw [errorSpans]

/-- Diagnostics match the tree: in the diagnostics of an attempt or a parse every recovered failure
is followed at once by a skipped token, and where skips are open and the numbers of values of rules
are settled, as they are in LKT, the places of the skipped tokens are those of the error nodes in
the values or the tree, in the same order. -/
theorem Program.diagnostics_match_tree {g : Grammar} {p : Program} {names₁ names₂ : Interner}
    (resolved : g.resolve names₁ = .ok (p, names₂)) :
    (∀ names tokens config ref start attempt,
      p.attempt names tokens config ref start = .ok attempt →
      Diagnostic.Answered attempt.diagnostics) ∧
    (∀ names tokens config output, p.parse names tokens config = .ok output →
      Diagnostic.Answered output.diagnostics) ∧
    (p.Settled → p.SkipsOpenly →
      (∀ names tokens config ref start attempt values,
        p.attempt names tokens config ref start = .ok attempt → attempt.result = .ok values →
        Diagnostic.skippedSpans attempt.diagnostics =
          (Value.errorSpansOfAll p.schema values).map some) ∧
      (∀ names tokens config output root,
        p.parse names tokens config = .ok output → output.root = some root →
        Diagnostic.skippedSpans output.diagnostics = (root.errorSpans p.schema).map some)) ∧
    ∃ f, Lkt.frontEnd = .ok f ∧ f.program.Settled ∧ f.program.SkipsOpenly := by
  refine ⟨?_, ?_, fun settled openly => ⟨?_, ?_⟩, ?_⟩
  · intro names tokens config ref start attempt ran
    exact (attempt_ofRun ran).answered
  · intro names tokens config output ran
    exact parse_answered ran
  · intro names tokens config ref start attempt values ran succeeds
    have checked := (Grammar.checked_of_resolve resolved).2
    simp only [Program.attempt] at ran
    split at ran
    · cases ran
    · next o s called =>
      obtain rfl := Except.ok.inj ran
      cases o with
      | success found =>
        obtain rfl := Except.ok.inj succeeds
        exact Session.skippedSpans_of_run (x := p.session names tokens config) checked settled
          openly called
      | soft f | hard f => cases succeeds
  · intro names tokens config output root ran succeeds
    have checked := (Grammar.checked_of_resolve resolved).2
    obtain ⟨o, s, called, rfl⟩ := exists_run_of_parse ran
    rcases (p.session names tokens config).finish_cases o s with
      ⟨values, rfl, _, finished⟩ | ⟨d, _, finished⟩
    · rw [finished] at succeeds ⊢
      obtain rfl := Option.some.inj succeeds
      rw [Value.errorSpans_rootOf]
      exact Session.skippedSpans_of_run (x := p.session names tokens config) checked settled
        openly called
    · rw [finished] at succeeds
      cases succeeds
  · obtain ⟨f, made, charted⟩ := Lkt.exists_charted
    obtain ⟨g, _, resolved⟩ := Lkt.resolve_of_frontEnd made
    have checked := (Grammar.checked_of_resolve resolved).2
    exact ⟨f, made, (charted.inferred.tallied checked).settled, charted.openly⟩

/-- What an attempt of the entry rule reports, if it succeeds: the codes of its diagnostics, and the
places of the error nodes in its values. -/
def Program.attemptReport? (p : Program) (tokens : TokenStream) :
    Option (List Code × List Span) :=
  match p.attempt .initial tokens .standard p.entry 0 with
  | .ok ⟨.ok values, _, diagnostics⟩ =>
    some (diagnostics.map Diagnostic.code, Value.errorSpansOfAll p.schema values)
  | _ => none

/-- An attempt that the check reports on was made, with these codes and spans. -/
theorem Program.attempt_of_attemptReport? {p : Program} {tokens : TokenStream}
    {codes : List Code} {spans : List Span} (h : p.attemptReport? tokens = some (codes, spans)) :
    ∃ attempt values, p.attempt .initial tokens .standard p.entry 0 = .ok attempt ∧
      attempt.result = .ok values ∧ attempt.diagnostics.map Diagnostic.code = codes ∧
      Value.errorSpansOfAll p.schema values = spans := by
  unfold attemptReport? at h
  split at h
  · next values position diagnostics ran =>
    obtain ⟨rfl, rfl⟩ := Prod.mk.inj (Option.some.inj h)
    exact ⟨_, values, ran, rfl, rfl, rfl⟩
  · cases h

/-- The classes of rules of which none is known. -/
def SkipClasses.unknown : SkipClasses :=
  ⟨fun _ => false, fun _ => false, fun _ => false⟩

/-- What is known of rules that may do anything. -/
def IdleFacts.unknown : IdleFacts := ⟨fun _ => true, fun _ => true, fun _ => 0⟩

/-- Behind a cut something else follows: the failure is reported, and the token that is skipped is
an error node. -/
theorem diagnostics_match_tree_recovered :
    ∃ g : Grammar, ∃ p names, g.resolve .initial = .ok (p, names) ∧ p.Settled ∧ p.SkipsOpenly ∧
      ∃ attempt values, p.attempt .initial (tokensOf [2, 3]) .standard p.entry 0 = .ok attempt ∧
        attempt.result = .ok values ∧
        attempt.diagnostics.map Diagnostic.code = [.recoveredFailure, .skippedToken] ∧
        Value.errorSpansOfAll p.schema values = [.point 0] ∧
        Diagnostic.Answered attempt.diagnostics ∧
        Diagnostic.skippedSpans attempt.diagnostics =
          (Value.errorSpansOfAll p.schema values).map some := by
  have passes : Grammar.passes letters [.node "Err" none false true]
      [("main", .choice [.seq [.lit "a", .cut, .kind "id"], .skip "Err"])]
      (fun p => decide (p.Settled ∧ SkipClasses.unknown.Fits .unknown p ∧
        p.parts.all (p.skipsOpenlyAt .unknown) = true ∧
        p.attemptReport? (tokensOf [2, 3]) =
          some ([.recoveredFailure, .skippedToken], [.point 0]))) = true := by
    decide +kernel
  obtain ⟨g, p, names, _, _, resolved, held⟩ := Grammar.exists_of_passes passes
  obtain ⟨settled, fits, parts, reports⟩ := of_decide_eq_true held
  obtain ⟨attempt, values, ran, succeeds, codes, spans⟩ :=
    Program.attempt_of_attemptReport? reports
  have openly := Program.skipsOpenly_of_parts fits parts
  have matched := Program.diagnostics_match_tree resolved
  exact ⟨g, p, names, resolved, settled, openly, attempt, values, ran, succeeds, codes, spans,
    matched.1 _ _ _ _ _ _ ran, (matched.2.2.1 settled openly).1 _ _ _ _ _ _ _ ran succeeds⟩

/-- Rules whose numbers of values change places from round to round, until the rounds are over:
behind an alternative of an enum type a skip goes unnoticed, and the token that it takes is reported
but has no error node. -/
theorem not_matching_of_unsettled :
    ∃ g : Grammar, ∃ p names, g.resolve .initial = .ok (p, names) ∧ p.SkipsOpenly ∧
      ∃ attempt values, p.attempt .initial (tokensOf [3, 1]) .standard p.entry 0 = .ok attempt ∧
        attempt.result = .ok values ∧
        attempt.diagnostics.map Diagnostic.code = [.skippedToken] ∧
        Value.errorSpansOfAll p.schema values = [] := by
  have passes : Grammar.passes letters [.enum "E" ["x"], .node "Err" none false true]
      [("main", .enum "E" "x" (.rule "even")),
        ("odd", .choice [.seq [.lit "a", .rule "even"], .rule "one"]),
        ("even", .choice [.seq [.lit "a", .rule "odd"], .rule "two"]),
        ("one", .seq [.lit "b"]),
        ("two", .seq [.lit "b", .skip "Err"])]
      (fun p => decide (SkipClasses.unknown.Fits .unknown p ∧
        p.parts.all (p.skipsOpenlyAt .unknown) = true ∧
        p.attemptReport? (tokensOf [3, 1]) = some ([.skippedToken], []))) = true := by
    decide +kernel
  obtain ⟨g, p, names, _, _, resolved, held⟩ := Grammar.exists_of_passes passes
  obtain ⟨fits, parts, reports⟩ := of_decide_eq_true held
  obtain ⟨attempt, values, ran, succeeds, codes, spans⟩ :=
    Program.attempt_of_attemptReport? reports
  exact ⟨g, p, names, resolved, Program.skipsOpenly_of_parts fits parts, attempt, values, ran,
    succeeds, codes, spans⟩

end CombinatorGrammar
