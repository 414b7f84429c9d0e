import CombinatorGrammar.Proofs.Program.Skipping
import CombinatorGrammar.Proofs.Semantics.Soundness

/-!
# Runs that come to no skip

Recovery is read in two places only: a skip asks whether it may take a token, and a choice with a
skip among its alternatives whether it recovers. A run that never comes to a skip goes the same
way with recovery and without, and so it reports nothing.
-/

namespace CombinatorGrammar

namespace Session

/-- The session with recovery switched on or off. -/
def withRecovery (x : Session) (recovery : Bool) : Session := { x with recovery := recovery }

variable {x : Session} {call call' : Call} {cx : Context} {s s' : State} {o : Outcome}
  {recovery : Bool}

/-- The job never comes to a skip. -/
def SkiplessJob (p : Program) : Job → Prop
  | .matcher m => p.Skipless m
  | .items _ ms => ∀ m ∈ ms, p.Skipless m
  | .alternatives recovers _ _ _ ms => recovers = false ∧ ∀ m ∈ ms, p.Skipless m
  | .repeated _ element separator => p.Skipless element ∧ ∀ m ∈ separator, p.Skipless m
  | .turn element separator _ => p.Skipless element ∧ ∀ m ∈ separator, p.Skipless m
  | .turns element separator _ _ => p.Skipless element ∧ ∀ m ∈ separator, p.Skipless m
  | .probe _ => False

/-- The calls of rules that never come to a skip end alike. -/
def CallsAgree (p : Program) (call call' : Call) : Prop :=
  ∀ ref active guards s o s', p.Skipless (.rule ref) →
    call ref active guards s = .ok (o, s') → call' ref active guards s = .ok (o, s')

/-- A job that never comes to a skip runs with recovery as without. -/
theorem Runs.withRecovery {job : Job} (recovery : Bool)
    (calls : CallsAgree x.program call call') (run : x.Runs call job cx s o s')
    (skipless : SkiplessJob x.program job) :
    (x.withRecovery recovery).Runs call' job cx s o s' := by
  have only : ∀ {m n : Matcher}, x.program.Skipless m → m.branches = [n] → x.program.Skipless n :=
    fun h same => h.branch (same ▸ List.mem_singleton_self _)
  induction run with
  | token matched => exact .token matched
  | token_fails mismatched => exact .token_fails mismatched
  | rule called => exact .rule (calls _ _ _ _ _ _ skipless called)
  | seq _ ih => exact .seq (ih fun m among => skipless.branch among)
  | seq_soft _ ih => exact .seq_soft (ih fun m among => skipless.branch among)
  | seq_hard _ ih => exact .seq_hard (ih fun m among => skipless.branch among)
  | @choice alternatives _ _ _ _ _ ih =>
    have plain := skipless.recovers_eq_false
    simp only [plain, Bool.false_and] at ih
    refine .choice ?_
    simp only [plain, Bool.false_and]
    exact ih ⟨rfl, fun m among => skipless.branch among⟩
  | opt _ ih => exact .opt (ih (only skipless rfl))
  | opt_soft _ ih => exact .opt_soft (x := x.withRecovery recovery) (ih (only skipless rfl))
  | opt_hard _ ih => exact .opt_hard (ih (only skipless rfl))
  | group _ ih => exact .group (ih (only skipless rfl))
  | group_soft _ ih => exact .group_soft (ih (only skipless rfl))
  | group_hard _ ih => exact .group_hard (ih (only skipless rfl))
  | list _ ih => exact .list (ih ⟨only skipless rfl, by simp⟩)
  | sepList _ ih =>
    refine .sepList (ih ⟨skipless.branch (List.mem_cons_self ..), ?_⟩)
    rintro m ⟨⟩
    exact skipless.branch (List.mem_cons_of_mem _ (List.mem_singleton_self _))
  | cut => exact .cut
  | predicate _ holds ih => exact .predicate (ih (only skipless rfl)) holds
  | predicate_rejects _ rejects ih => exact .predicate_rejects (ih (only skipless rfl)) rejects
  | predicate_fails _ fails ih => exact .predicate_fails (ih (only skipless rfl)) fails
  | skip | skip_guarded | skip_refused => exact absurd skipless Program.not_skipless_skip
  | protect _ ih => exact .protect (ih (only skipless rfl))
  | null => exact .null
  | node _ ih => exact .node (ih (only skipless rfl))
  | node_fails _ fails ih => exact .node_fails (ih (only skipless rfl)) fails
  | enum _ ih => exact .enum (ih (only skipless rfl))
  | enum_fails _ fails ih => exact .enum_fails (ih (only skipless rfl)) fails
  | items_nil => exact .items_nil
  | items_cut cut _ ih => exact .items_cut cut (ih (List.forall_mem_cons.mp skipless).2)
  | items_next cut _ _ ihm ihms =>
    obtain ⟨first, rest⟩ := List.forall_mem_cons.mp skipless
    exact .items_next cut (ihm first) (ihms rest)
  | items_later cut _ _ fails ihm ihms =>
    obtain ⟨first, rest⟩ := List.forall_mem_cons.mp skipless
    exact .items_later cut (ihm first) (ihms rest) fails
  | items_soft cut _ ih => exact .items_soft cut (ih (List.forall_mem_cons.mp skipless).1)
  | items_commit cut _ ih => exact .items_commit cut (ih (List.forall_mem_cons.mp skipless).1)
  | items_hard cut _ ih => exact .items_hard cut (ih (List.forall_mem_cons.mp skipless).1)
  | alternatives_nil => exact .alternatives_nil
  | alternatives_given_up => exact .alternatives_given_up
  | alternatives_passed passed _ ih =>
    exact .alternatives_passed passed (ih ⟨skipless.1, (List.forall_mem_cons.mp skipless.2).2⟩)
  | alternatives_success tried _ ih =>
    exact .alternatives_success tried (ih (List.forall_mem_cons.mp skipless.2).1)
  | alternatives_soft tried _ _ ihm ihms =>
    obtain ⟨first, rest⟩ := List.forall_mem_cons.mp skipless.2
    exact .alternatives_soft tried (ihm first) (ihms ⟨skipless.1, rest⟩)
  | alternatives_recover => cases skipless.1
  | alternatives_hard tried _ ih =>
    exact .alternatives_hard tried (ih (List.forall_mem_cons.mp skipless.2).1)
  | repeated _ done ih => exact .repeated (ih skipless) done
  | repeated_hard _ ih => exact .repeated_hard (ih skipless)
  | turn_first without _ ih => exact .turn_first without (ih skipless.1)
  | turn_next _ _ ihs ihe => exact .turn_next (ihs (skipless.2 _ rfl)) (ihe skipless.1)
  | turn_fails _ fails ih => exact .turn_fails (ih (skipless.2 _ rfl)) fails
  | turns_next _ moved _ ih ihms => exact .turns_next (ih skipless) moved (ihms skipless)
  | turns_later _ moved _ ih ihms => exact .turns_later (ih skipless) moved (ihms skipless)
  | turns_hard _ ih => exact .turns_hard (ih skipless)
  | turns_soft _ ih => exact .turns_soft (ih skipless)
  | turns_idle _ idle ih => exact .turns_idle (ih skipless) idle
  | probe_nil | probe_match | probe_next => exact skipless.elim

/-- Calls of rules that never come to a skip end with recovery as without. -/
theorem callsAgree (x : Session) (recovery : Bool) (remaining depth : Nat) :
    CallsAgree x.program (x.call remaining depth)
      ((x.withRecovery recovery).call remaining depth) := by
  induction remaining generalizing depth with
  | zero =>
    intro ref active guards s o s' _ called
    obtain ⟨rest, none, _⟩ := call_eq_ok_iff.mp called
    cases none
  | succ remaining ih =>
    intro ref active guards s o s' skipless called
    obtain ⟨rest, same, new, entered⟩ := call_eq_ok_iff.mp called
    cases same
    refine call_eq_ok_iff.mpr ⟨remaining, rfl, new, ?_⟩
    rcases enter_cases entered with ⟨rule, found, run⟩ | ⟨missing, rfl, rfl⟩
    · have other : (x.withRecovery recovery).Runs _ (.matcher rule.body) _ s o s' :=
        run.withRecovery recovery (ih (depth + 1)) (skipless.body found)
      rw [enter, show (x.withRecovery recovery).program.rule? ref = some rule from found]
      exact computed_of_runs other
    · rw [enter, show (x.withRecovery recovery).program.rule? ref = none from missing]
      rfl

/-- A matcher that never comes to a skip leaves the diagnostics as they are. -/
theorem Runs.silent {remaining depth : Nat} {m : Matcher} (skipless : x.program.Skipless m)
    (run : x.Runs (x.call remaining depth) (.matcher m) cx s o s') : s'.pending = s.pending := by
  have strict := run.withRecovery false (x.callsAgree false remaining depth) skipless
  exact strict.quiet rfl fun _ _ _ _ _ _ => call_quiet rfl

end Session

end CombinatorGrammar
