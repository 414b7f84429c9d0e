import CombinatorGrammar.Proofs.Run.Levels
import CombinatorGrammar.Proofs.Run.Steps

/-!
# The history of a run

All that is tried in a run, in the order in which it is begun: a task, the first part with which it
opens, and what is next behind that part, down through the calls of rules. Every run that ends has
such a history.
-/

namespace CombinatorGrammar

/-- A task with the levels of nesting that remain and those that are entered where it is begun. -/
structure Begun where
  remaining : Nat
  depth : Nat
  task : Task

namespace Begun

/-- Another task on the same levels. -/
def within (b : Begun) (t : Task) : Begun := ⟨b.remaining, b.depth, t⟩

/-- The matcher at the place and in the state of the task. -/
def item (b : Begun) (m : Matcher) : Begun := b.within ⟨.matcher m, b.task.cx, b.task.state⟩

/-- A rule that is run from a position, outside all other rules. -/
def ofRule (maxDepth : Nat) (ref : RuleRef) (position : Nat) : Begun :=
  ⟨maxDepth, 0, ⟨.matcher (.rule ref), .empty, .initial position⟩⟩

/-- The run of the task ends with the outcome in the state. -/
def Ends (x : Session) (b : Begun) (o : Outcome) (s : State) : Prop :=
  Session.Ends x (x.call b.remaining b.depth) b.task o s

end Begun

namespace Session

/-- The second task is the first part of the first one: what the first one opens with, or the body
of the rule that it calls. -/
inductive First (x : Session) : Begun → Begun → Prop
  | opens {b : Begun} {part : Task} : x.Opens b.task part → First x b (b.within part)
  | enters {remaining depth : Nat} {ref : RuleRef} {rule : Rule} {cx : Context} {s : State} :
      x.program.rule? ref = some rule → cx.active.contains (ref, s.position) = false →
      First x ⟨remaining + 1, depth, ⟨.matcher (.rule ref), cx, s⟩⟩
        ⟨remaining, depth + 1,
          ⟨.matcher rule.body, ⟨(ref, s.position) :: cx.active, cx.guards⟩, s⟩⟩

/-- `History x b h`: the tasks `h` are all those that are begun in the run of `b`, in this order. -/
inductive History (x : Session) : Begun → List Begun → Prop
  | alone {b : Begun} : (∀ part, ¬ x.First b part) → History x b [b]
  | part {b part : Begun} {h : List Begun} {o : Outcome} {s : State} :
      x.First b part → History x part h → part.Ends x o s →
      (∀ rest, ¬ x.Resumes b.task part.task o s rest) → History x b (b :: h)
  | resumed {b : Begun} {part rest : Task} {first later : List Begun} {o : Outcome} {s : State} :
      History x (b.within part) first → (b.within part).Ends x o s →
      x.Resumes b.task part o s rest → History x (b.within rest) later →
      History x b (b :: (first ++ later))

variable {x : Session} {b part part' : Begun} {o o' : Outcome} {s s' : State} {h : List Begun}

/-- A task has a history if its first part has one, and whatever may be next behind that part. -/
theorem exists_history_of_first (first : x.First b part) (ends : part.Ends x o s)
    (begun : ∃ h, x.History part h)
    (later : ∀ rest, x.Resumes b.task part.task o s rest → ∃ h, x.History (b.within rest) h) :
    ∃ h, x.History b h := by
  obtain ⟨h, history⟩ := begun
  by_cases resumed : ∃ rest, x.Resumes b.task part.task o s rest
  · obtain ⟨rest, next⟩ := resumed
    obtain ⟨h', history'⟩ := later rest next
    cases first with
    | opens => exact ⟨_, .resumed history ends next history'⟩
    | enters => cases next
  · exact ⟨_, .part first history ends (not_exists.mp resumed)⟩

/-- A task that does not open and calls no rule has only itself in its history. -/
theorem exists_history_alone (opens : ∀ part, ¬ x.Opens b.task part)
    (calls : ∀ ref, b.task.job ≠ .matcher (.rule ref)) : ∃ h, x.History b h := by
  refine ⟨_, .alone fun part first => ?_⟩
  cases first with
  | opens opened => exact opens _ opened
  | enters => exact calls _ rfl

/-- A run that ends has a history, if the runs of rule bodies on the next level have. -/
theorem Runs.exists_history {remaining depth : Nat} {job : Job} {cx : Context}
    (below : ∀ rest, remaining = rest + 1 → ∀ t o s, Begun.Ends x ⟨rest, depth + 1, t⟩ o s →
      ∃ h, x.History ⟨rest, depth + 1, t⟩ h)
    (run : x.Runs (x.call remaining depth) job cx s o s') :
    ∃ h, x.History ⟨remaining, depth, ⟨job, cx, s⟩⟩ h := by
  -- a first part behind which nothing is next
  have one {job job' : Job} {cx cx' : Context} {s s' s₁ : State} {o₁ : Outcome}
      (opens : x.Opens ⟨job, cx, s⟩ ⟨job', cx', s'⟩)
      (run : x.Runs (x.call remaining depth) job' cx' s' o₁ s₁)
      (begun : ∃ h, x.History ⟨remaining, depth, ⟨job', cx', s'⟩⟩ h)
      (ends : ∀ rest, ¬ x.Resumes ⟨job, cx, s⟩ ⟨job', cx', s'⟩ o₁ s₁ rest) :
      ∃ h, x.History ⟨remaining, depth, ⟨job, cx, s⟩⟩ h :=
    exists_history_of_first (b := ⟨remaining, depth, ⟨job, cx, s⟩⟩) (.opens opens) run begun
      fun rest next => absurd next (ends rest)
  induction run with
  | token | token_fails | cut | null | items_nil | alternatives_nil | alternatives_given_up
  | probe_nil =>
    exact exists_history_alone (fun _ none => nomatch none) (fun _ none => nomatch none)
  | skip_refused refused =>
    refine exists_history_alone (fun _ opened => ?_) (fun _ none => nomatch none)
    cases opened with
    | skip recovers inside =>
      rw [recovers, inside] at refused
      rcases refused with none | none <;> cases none
  | rule called =>
    obtain ⟨rest, rfl, new, entered⟩ := call_eq_ok_iff.mp called
    rcases enter_cases entered with ⟨rule, found, body⟩ | ⟨missing, _, _⟩
    · exact exists_history_of_first (.enters found new) body (below rest rfl _ _ _ body)
        fun _ none => nomatch none
    · refine ⟨_, .alone fun part first => ?_⟩
      cases first with
      | opens opened => cases opened
      | enters found =>
        rw [missing] at found
        cases found
  | seq run ih | seq_soft run ih | seq_hard run ih =>
    exact one .seq run ih (fun _ none => nomatch none)
  | choice run ih => exact one .choice run ih (fun _ none => nomatch none)
  | opt run ih | opt_soft run ih | opt_hard run ih =>
    exact one .opt run ih (fun _ none => nomatch none)
  | group run ih | group_soft run ih | group_hard run ih =>
    exact one .group run ih (fun _ none => nomatch none)
  | list run ih => exact one .list run ih (fun _ none => nomatch none)
  | sepList run ih => exact one .sepList run ih (fun _ none => nomatch none)
  | predicate run _ ih | predicate_rejects run _ ih | predicate_fails run _ ih =>
    exact one .predicate run ih (fun _ none => nomatch none)
  | skip recovers inside run ih | skip_guarded recovers inside run ih =>
    exact one (.skip recovers inside) run ih (fun _ none => nomatch none)
  | protect run ih => exact one .protect run ih (fun _ none => nomatch none)
  | node run ih | node_fails run _ ih => exact one .node run ih (fun _ none => nomatch none)
  | enum run ih | enum_fails run _ ih => exact one .enum run ih (fun _ none => nomatch none)
  | items_cut cut run ih => exact one (.items_cut cut) run ih (fun _ none => nomatch none)
  | items_next item run _ ihm ihms | items_later item run _ _ ihm ihms =>
    refine exists_history_of_first (.opens (.item item)) run ihm fun rest next => ?_
    cases next with
    | items => exact ihms
  | items_soft item run ih | items_commit item run ih | items_hard item run ih =>
    exact one (.item item) run ih (fun _ none => nomatch none)
  | alternatives_passed passed run ih =>
    exact one (.alternatives_passed passed) run ih (fun _ none => nomatch none)
  | alternatives_success tried run ih | alternatives_hard tried run ih =>
    exact one (.alternative tried) run ih (fun _ none => nomatch none)
  | alternatives_soft tried run _ ihm ihms =>
    refine exists_history_of_first (.opens (.alternative tried)) run ihm fun rest next => ?_
    cases next with
    | alternatives_soft => exact ihms
  | alternatives_recover tried run _ ihm ihms =>
    refine exists_history_of_first (.opens (.alternative tried)) run ihm fun rest next => ?_
    cases next with
    | alternatives_recover => exact ihms
  | repeated run _ ih | repeated_hard run ih =>
    exact one .repeated run ih (fun _ none => nomatch none)
  | turn_first without run ih =>
    refine one (.turn_first without) run ih fun rest next => ?_
    cases next with
    | turn => rcases without with none | none <;> cases none
  | turn_next run _ ihs ihe =>
    refine exists_history_of_first (.opens .separator) run ihs fun rest next => ?_
    cases next with
    | turn => exact ihe
  | turn_fails run fails ih =>
    refine one .separator run ih fun rest next => ?_
    cases next with
    | turn => cases fails
  | turns_next run _ _ ih ihms | turns_later run _ _ ih ihms =>
    refine exists_history_of_first (.opens .turns) run ih fun rest next => ?_
    cases next with
    | turns => exact ihms
  | turns_hard run ih | turns_soft run ih =>
    exact one .turns run ih (fun _ none => nomatch none)
  | turns_idle run idle ih =>
    refine one .turns run ih fun rest next => ?_
    cases next with
    | turns moved => exact idle moved
  | probe_match run ih =>
    refine one .guard run ih fun rest next => ?_
    cases next with
    | probe fails => cases fails
  | probe_next run _ _ ihm ihms =>
    refine exists_history_of_first (.opens .guard) run ihm fun rest next => ?_
    cases next with
    | probe => exact ihms

/-- Every run that ends has a history. -/
theorem exists_history (ends : b.Ends x o s) : ∃ h, x.History b h := by
  obtain ⟨remaining, depth, t⟩ := b
  induction remaining generalizing depth t o s with
  | zero => exact Runs.exists_history (fun _ none => nomatch none) ends
  | succ remaining ih =>
    refine Runs.exists_history (fun rest same t o s ends => ?_) ends
    obtain rfl := Nat.succ.inj same
    exact ih (depth + 1) t ends

/-- A task opens in one way only, except that a list may be said to end in several ways. -/
theorem Opens.unique {t first first' : Task} (opens : x.Opens t first)
    (opens' : x.Opens t first')
    (other : ∀ repetition element separator, t.job ≠ .repeated repetition element separator) :
    first = first' := by
  cases opens with
  | items_cut cut =>
    cases opens' with
    | items_cut => rfl
    | item item =>
      rw [cut] at item
      cases item
  | item item =>
    cases opens' with
    | items_cut cut =>
      rw [item] at cut
      cases cut
    | item => rfl
  | alternatives_passed passed =>
    cases opens' with
    | alternatives_passed => rfl
    | alternative tried =>
      rw [passed] at tried
      cases tried
  | alternative tried =>
    cases opens' with
    | alternatives_passed passed =>
      rw [tried] at passed
      cases passed
    | alternative => rfl
  | turn_first without =>
    cases opens' with
    | turn_first => rfl
    | separator => rcases without with none | none <;> cases none
  | separator =>
    cases opens' with
    | turn_first without => rcases without with none | none <;> cases none
    | separator => rfl
  | repeated => exact absurd rfl (other _ _ _)
  | _ =>
    cases opens'
    rfl

/-- A task has one first part, unless it is a list. -/
theorem First.unique (first : x.First b part) (first' : x.First b part')
    (other : ∀ repetition element separator,
      b.task.job ≠ .repeated repetition element separator) : part = part' := by
  obtain ⟨remaining, depth, t⟩ := b
  cases first with
  | opens opened =>
    cases first' with
    | opens opened' => rw [opened.unique opened' other]
    | enters => cases opened
  | enters found =>
    cases first' with
    | opens opened' => cases opened'
    | enters found' =>
      obtain rfl := Option.some.inj (found.symm.trans found')
      rfl

/-- A history begins with the task itself. -/
theorem History.mem_self (history : x.History b h) : b ∈ h := by
  cases history <;> exact List.mem_cons_self ..

/-- The history of a task contains that of its first part. -/
theorem History.first (history : x.History b h) (first : x.First b part)
    (other : ∀ repetition element separator,
      b.task.job ≠ .repeated repetition element separator) :
    ∃ h', x.History part h' ∧ ∀ c ∈ h', c ∈ h := by
  cases history with
  | alone nothing => exact absurd first (nothing part)
  | part first' begun =>
    obtain rfl := first'.unique first other
    exact ⟨_, begun, fun c => List.mem_cons_of_mem b⟩
  | resumed begun _ next =>
    obtain rfl := (First.opens next.opens).unique first other
    exact ⟨_, begun, fun c among => List.mem_cons_of_mem b (List.mem_append_left _ among)⟩

end Session

end CombinatorGrammar
