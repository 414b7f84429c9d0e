import CombinatorGrammar.Parse.Basic
import CombinatorGrammar.Proofs.Program.Starts
import CombinatorGrammar.Proofs.Run.Idle
import CombinatorGrammar.Proofs.Run.Steps

/-!
# Rules that are entered again

A rule that is called where it is being run already is a fault. All rules that were entered at the
present position lead to each rule that may be called here, by calls that come before the first
token; so the rule of such a fault leads back to itself. Where the calls fall along ranks this never
happens, and what is left of faults is that rules are nested too deeply.
-/

namespace CombinatorGrammar

/-- The rules that a job may call before it takes a token. -/
def Job.firstCalls (k : IdleFacts) : Job → List RuleRef
  | .matcher m => m.firstCalls k
  | .items _ ms => Matcher.firstCallsOfItems k ms
  | .alternatives _ _ _ _ ms => Matcher.firstCallsOfAll k ms
  | .repeated _ element _ => element.firstCalls k
  | .turn element separator hasItems =>
    (if hasItems then separator.elim [] (Matcher.firstCalls k) else []) ++ element.firstCalls k
  | .turns element separator hasItems _ =>
    (if hasItems then separator.elim [] (Matcher.firstCalls k) else []) ++ element.firstCalls k
  | .probe _ => []

/-- A choice goes back to the given position. -/
def Job.StartsAt (position : Nat) : Job → Prop
  | .alternatives _ start _ _ _ => start.position = position
  | _ => True

/-- The relation leads from each rule to those that it may call before it takes a token, and on from
there. -/
structure IdleFacts.LedBy (k : IdleFacts) (p : Program) (R : RuleRef → RuleRef → Prop) : Prop where
  closed : k.Closed p
  calls : ∀ ref rule, p.rule? ref = some rule → ∀ callee ∈ rule.body.firstCalls k, R ref callee
  trans : ∀ a b c, R a b → R b c → R a c

/-- Ranks lead down. -/
theorem IdleFacts.Fits.ledBy {k : IdleFacts} {p : Program} (fits : k.Fits p) :
    k.LedBy p fun ref callee => k.rank callee < k.rank ref where
  closed := fits.closed
  calls _ _ found _ called := fits.rank_lt found called
  trans _ _ _ first second := Nat.lt_trans second first

/-- From each rule it leads to those that it can start, by way of others or not. -/
theorem Program.ledBy_canStart (p : Program) :
    p.leastFacts.LedBy p (Relation.TransGen p.CanStart) where
  closed := p.leastFacts_closed
  calls _ _ found _ called := .single (canStart_of_mem_firstCalls found called)
  trans _ _ _ first second := first.trans second

/-- The rules in progress were entered at or before the present position, and those entered here
lead to all that may be called here. -/
structure Task.Led (k : IdleFacts) (R : RuleRef → RuleRef → Prop) (t : Task) : Prop where
  entered_le : ∀ entry ∈ t.cx.active, entry.2 ≤ t.state.position
  leads : ∀ entry ∈ t.cx.active, entry.2 = t.state.position →
    ∀ ref ∈ t.job.firstCalls k, R entry.1 ref
  starts : t.job.StartsAt t.state.position

namespace Task.Led

variable {k : IdleFacts} {R : RuleRef → RuleRef → Prop} {t t' : Task}

/-- A task in the same place that calls no more rules. -/
theorem of_subset (h : t.Led k R) (active : t'.cx.active = t.cx.active)
    (position : t'.state.position = t.state.position)
    (calls : ∀ ref ∈ t'.job.firstCalls k, ref ∈ t.job.firstCalls k)
    (starts : t'.job.StartsAt t'.state.position) : t'.Led k R where
  entered_le entry among := by
    rw [position]
    exact h.entered_le entry (active ▸ among)
  leads entry among here ref called :=
    h.leads entry (active ▸ among) (here.trans position) ref (calls ref called)
  starts := starts

/-- A task further on. -/
theorem of_moved (h : t.Led k R) (active : t'.cx.active = t.cx.active)
    (moved : t.state.position < t'.state.position)
    (starts : t'.job.StartsAt t'.state.position) : t'.Led k R where
  entered_le entry among :=
    Nat.le_of_lt (Nat.lt_of_le_of_lt (h.entered_le entry (active ▸ among)) moved)
  leads entry among here := by
    have before := h.entered_le entry (active ▸ among)
    omega
  starts := starts

/-- A task in the same place that calls no more rules, or one further on. -/
theorem of_le (h : t.Led k R) (active : t'.cx.active = t.cx.active)
    (le : t.state.position ≤ t'.state.position)
    (calls : t'.state.position = t.state.position →
      ∀ ref ∈ t'.job.firstCalls k, ref ∈ t.job.firstCalls k)
    (starts : t'.job.StartsAt t'.state.position) : t'.Led k R := by
  rcases Nat.lt_or_eq_of_le le with moved | same
  · exact h.of_moved active moved starts
  · exact h.of_subset active same.symm (calls same.symm) starts

/-- Outside all rules there is nothing to be entered again. -/
theorem of_nil (none : t.cx.active = []) (starts : t.job.StartsAt t.state.position) :
    t.Led k R where
  entered_le entry among := by
    rw [none] at among
    cases among
  leads entry among := by
    rw [none] at among
    cases among
  starts := starts

end Task.Led

namespace Session

variable {x : Session} {call : Call} {k : IdleFacts} {R : RuleRef → RuleRef → Prop} {t t' : Task}
  {s : State} {fault : Fault}

/-- What a task opens in place is led to by the same rules. -/
theorem Opens.led (opens : x.Opens t t') (h : t.Led k R) : t'.Led k R := by
  cases opens with
  | choice => exact h.of_subset rfl rfl (fun _ called => called) rfl
  | items_cut cut =>
    refine h.of_subset rfl rfl (fun ref called => ?_) trivial
    rename_i m _ _ _
    cases m with
    | cut => exact called
    | _ => cases cut
  | item =>
    exact h.of_subset rfl rfl (fun _ called => List.mem_append_left _ called) trivial
  | alternatives_passed =>
    exact h.of_subset rfl rfl (fun _ called => List.mem_append_right _ called) h.starts
  | alternative =>
    exact h.of_subset rfl rfl (fun _ called => List.mem_append_left _ called) trivial
  | turn_first =>
    exact h.of_subset rfl rfl (fun _ called => List.mem_append_right _ called) trivial
  | separator =>
    exact h.of_subset rfl rfl (fun _ called => List.mem_append_left _ called) trivial
  | skip => exact h.of_subset rfl rfl (fun _ none => nomatch none) trivial
  | guard => exact .of_nil rfl trivial
  | _ => exact h.of_subset rfl rfl (fun _ called => called) trivial

/-- What a task goes on with in place is led to by the same rules. -/
theorem Next.led (settled : CallsSettle call) (calls : CallsIdle k call)
    (next : x.Next call t t') (h : t.Led k R) : t'.Led k R := by
  cases next with
  | opens opens => exact opens.led h
  | resumes resumes ends =>
    have run : x.Runs call _ _ _ _ _ := ends
    cases resumes with
    | items item =>
      refine h.of_le rfl (run.onward settled).position_le (fun stays ref called => ?_) trivial
      have idle : Matcher.idles k _ = true := run.idles settled calls _ rfl stays
      simp only [Job.firstCalls, Matcher.firstCallsOfItems, idle, if_true]
      exact List.mem_append_right _ called
    | alternatives_soft | alternatives_recover =>
      exact h.of_subset rfl h.starts (fun _ called => List.mem_append_right _ called) rfl
    | turn =>
      exact h.of_le rfl (run.onward settled).position_le
        (fun _ _ called => List.mem_append_right _ called) trivial
    | turns moved => exact h.of_moved rfl moved.1 trivial
    | probe =>
      exact h.of_subset rfl rfl (fun _ called => absurd called List.not_mem_nil) trivial

/-- Whatever a task comes to in place is led to by the same rules. -/
theorem ComesTo.led (settled : CallsSettle call) (calls : CallsIdle k call)
    (comes : x.ComesTo call t t') (h : t.Led k R) : t'.Led k R := by
  induction comes with
  | refl => exact h
  | tail _ next ih => exact next.led settled calls ih

variable {ref : RuleRef} {active : List (RuleRef × Nat)} {guards : List Matcher}

/-- A rule that is called where it is in progress leads to itself. -/
theorem leads_self_of_contains (led : Task.Led k R ⟨.matcher (.rule ref), ⟨active, guards⟩, s⟩)
    (inProgress : active.contains (ref, s.position) = true) : R ref ref :=
  led.leads _ (List.contains_iff_mem.mp inProgress) rfl ref (List.mem_singleton_self _)

/-- A rule that is entered leads to what its body may call here, and so do those that lead to it. -/
theorem led_body (ledBy : k.LedBy x.program R)
    (led : Task.Led k R ⟨.matcher (.rule ref), ⟨active, guards⟩, s⟩) {rule : Rule}
    (found : x.program.rule? ref = some rule) :
    Task.Led k R ⟨.matcher rule.body, ⟨(ref, s.position) :: active, guards⟩, s⟩ where
  entered_le entry among := by
    rcases List.mem_cons.mp among with rfl | outer
    · exact Nat.le_refl _
    · exact led.entered_le entry outer
  leads entry among here callee called := by
    have step : R ref callee := ledBy.calls ref rule found callee called
    rcases List.mem_cons.mp among with rfl | outer
    · exact step
    · have before : R entry.1 ref := led.leads entry outer here ref (List.mem_singleton_self _)
      exact ledBy.trans _ _ _ before step
  starts := trivial

/-- A call is stopped by the limit of nesting, or by a rule that leads to itself. -/
theorem call_fault (ledBy : k.LedBy x.program R) {remaining depth : Nat}
    (led : Task.Led k R ⟨.matcher (.rule ref), ⟨active, guards⟩, s⟩)
    (h : x.call remaining depth ref active guards s = .error fault) :
    (∃ position, fault = .nestingLimit (depth + remaining) position) ∨
      ∃ ref position, R ref ref ∧ fault = .leftRecursion (x.program.ruleName ref) position := by
  induction remaining generalizing depth ref active guards s with
  | zero =>
    rw [Session.call] at h
    split at h
    · next inProgress =>
      exact Or.inr ⟨ref, s.position, leads_self_of_contains led inProgress,
        (Except.error.inj h).symm⟩
    · exact Or.inl ⟨s.position, (Except.error.inj h).symm⟩
  | succ remaining ih =>
    rw [Session.call] at h
    split at h
    · next inProgress =>
      exact Or.inr ⟨ref, s.position, leads_self_of_contains led inProgress,
        (Except.error.inj h).symm⟩
    · unfold enter at h
      split at h
      · next rule found =>
        let inner : Context := ⟨(ref, s.position) :: active, guards⟩
        have faults : x.Faults _ ⟨.matcher rule.body, inner, s⟩ fault := faults_of_parser_eq h
        obtain ⟨callee, cx, s', comes, stopped⟩ := faults
        have reached := comes.led (x.callsSettle remaining (depth + 1))
          (callsIdle_of_closed ledBy.closed remaining (depth + 1)) (led_body ledBy led found)
        have deeper := ih reached stopped
        rwa [Nat.add_assoc, Nat.add_comm 1 remaining] at deeper
      · cases h

/-- A run from outside all rules that is stopped as left recursion names a left-recursive rule. -/
theorem leftRecursive_of_run {maxDepth position : Nat} {name : String}
    (h : x.run maxDepth ref s = .error (.leftRecursion name position)) :
    ∃ ref rule, x.program.rule? ref = some rule ∧ rule.name = name ∧
      x.program.LeftRecursive ref := by
  rcases call_fault x.program.ledBy_canStart (.of_nil rfl trivial) h with
    ⟨_, none⟩ | ⟨ref, _, cycle, same⟩
  · cases none
  · obtain ⟨_, ⟨rule, found, _⟩, _⟩ := Relation.TransGen.head'_iff.mp cycle
    obtain ⟨named, _⟩ := Fault.leftRecursion.inj same
    refine ⟨ref, rule, found, ?_, cycle⟩
    rw [named, Program.ruleName, found, Option.map_some, Option.getD_some]

/-- Where ranks fall along first calls, a run from outside all rules is stopped by nothing but the
limit of nesting. -/
theorem run_fault (fits : k.Fits x.program) {maxDepth : Nat}
    (h : x.run maxDepth ref s = .error fault) :
    ∃ position, fault = .nestingLimit maxDepth position := by
  rcases call_fault fits.ledBy (.of_nil rfl trivial) h with ⟨position, same⟩ | ⟨_, _, cycle, _⟩
  · exact ⟨position, by rw [same]; simp [Nesting.ofLimit]⟩
  · exact absurd cycle (Nat.lt_irrefl _)

end Session

namespace Program

variable {p : Program} {names : Interner} {tokens : TokenStream} {config : ParseConfig}
  {fault : Fault}

/-- The fault stops the parse, or an attempt of some rule from some position. -/
def StopsBy (p : Program) (names : Interner) (tokens : TokenStream) (config : ParseConfig)
    (fault : Fault) : Prop :=
  p.parse names tokens config = .error fault ∨
    ∃ ref start, p.attempt names tokens config ref start = .error fault

/-- The rule that stops an attempt of the entry rule as left recursion, and where, with so many
levels of nesting. -/
def recursion? (p : Program) (tokens : TokenStream) (maxDepth : Nat) : Option (String × Nat) :=
  match p.attempt .initial tokens ⟨maxDepth, true⟩ p.entry 0 with
  | .error (.leftRecursion name position) => some (name, position)
  | _ => none

/-- A program reported for left recursion stops with that fault. -/
theorem attempt_of_recursion? {maxDepth position : Nat} {name : String}
    (h : p.recursion? tokens maxDepth = some (name, position)) :
    p.attempt .initial tokens ⟨maxDepth, true⟩ p.entry 0 =
      .error (.leftRecursion name position) := by
  unfold recursion? at h
  split at h
  · next stopped =>
    obtain ⟨rfl, rfl⟩ := Prod.mk.inj (Option.some.inj h)
    exact stopped
  · cases h

/-- What is stopped is the run of a rule from one of the tokens. -/
theorem StopsBy.exists_run (h : p.StopsBy names tokens config fault) :
    ∃ ref position, position ≤ tokens.lastPosition ∧
      (p.session names tokens config).run config.maxDepth ref (.initial position) =
        .error fault := by
  rcases h with stopped | ⟨ref, start, stopped⟩
  · simp only [parse] at stopped
    split at stopped
    · next ran =>
      obtain rfl := Except.error.inj stopped
      exact ⟨p.entry, 0, Nat.zero_le _, ran⟩
    · cases stopped
  · simp only [attempt] at stopped
    split at stopped
    · next ran =>
      obtain rfl := Except.error.inj stopped
      exact ⟨ref, _, Nat.min_le_right .., ran⟩
    · cases stopped

end Program

end CombinatorGrammar
