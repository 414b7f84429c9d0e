import CombinatorGrammar.Proofs.Run.History

/-!
# Failures behind cuts

A failure behind a cut begins with an item that fails softly behind a cut of its sequence, and every
task that it reaches fails just as the part does that is tried last. There are two exceptions,
which stop it: a choice that recovers goes on behind an alternative that fails so, and guards are
attempted one after the other however they fail.
-/

namespace CombinatorGrammar

namespace Session

variable {x : Session} {call : Call} {cx : Context} {b part : Begun} {rest : Task}
  {o o' : Outcome} {s s₁ s' : State} {f : Failure} {m : Matcher}

/-- Behind a cut of its sequence the item fails softly. -/
structure Commits (x : Session) (c : Begun) (m : Matcher) (f : Failure) (s : State) : Prop where
  behind : ∃ ms, c.task.job = .items true (m :: ms)
  item : m.isCut = false
  fails : (c.item m).Ends x (.soft f) s

/-- A choice that has recovered from the failure has nothing left to try. -/
def GivesUp (c : Begun) (f : Failure) : Prop :=
  ∃ recovers start best, c.task.job = .alternatives recovers start best (some f) []

/-- The second task is an alternative of a choice that recovers, or a guard that is attempted. -/
inductive Stops : Begun → Begun → Prop
  | alternative {b : Begun} {start : Mark} {best committed : Option Failure} {m : Matcher}
      {ms : List Matcher} :
      b.task.job = .alternatives true start best committed (m :: ms) → Stops b (b.item m)
  | guard {b : Begun} {m : Matcher} {guards : List Matcher} :
      b.task.job = .probe (m :: guards) →
      Stops b (b.within ⟨.matcher m, .empty, b.task.state⟩)

/-- A matcher ends in one way only. -/
theorem Runs.matcher_unique (run : x.Runs call (.matcher m) cx s o s₁)
    (run' : x.Runs call (.matcher m) cx s o' s') : o = o' ∧ s₁ = s' := by
  have same := (computed_of_runs run).symm.trans (computed_of_runs run')
  exact Prod.mk.inj (Except.ok.inj same)

/-- A turn of a list ends in one way only. -/
theorem Runs.turn_unique {element : Matcher} {separator : Option Matcher} {hasItems : Bool}
    (run : x.Runs call (.turn element separator hasItems) cx s o s₁)
    (run' : x.Runs call (.turn element separator hasItems) cx s o' s') : o = o' ∧ s₁ = s' := by
  have same := (computed_of_runs run).symm.trans (computed_of_runs run')
  exact Prod.mk.inj (Except.ok.inj same)

/-- A part behind which something is next ends in one way only. -/
theorem Resumes.part_unique {t part : Task} (next : x.Resumes t part o s₁ rest)
    (ends : x.Ends call part o s₁) (ends' : x.Ends call part o' s') : o = o' ∧ s₁ = s' := by
  cases next with
  | turns => exact Runs.turn_unique ends ends'
  | _ => exact Runs.matcher_unique ends ends'

/-- What can be next behind a part is determined by how the part ends. -/
theorem Resumes.unique {t part rest' : Task} (next : x.Resumes t part o s rest)
    (next' : x.Resumes t part o s rest') : rest = rest' := by
  cases next <;> cases next' <;> rfl

/-- Where a part ends behind a cut and something is next, the failure is stopped there. -/
theorem Resumes.stops {part : Task} (next : x.Resumes b.task part (.hard f) s₁ rest) :
    Stops b (b.within part) := by
  obtain ⟨remaining, depth, t⟩ := b
  cases next with
  | alternatives_recover => exact .alternative rfl
  | probe => exact .guard rfl

/-- Attempts of guards do not fail for good. -/
theorem not_probe_hard {guards : List Matcher} :
    ¬ x.Runs call (.probe guards) cx s (.hard f) s' := by
  intro run
  induction guards generalizing s with
  | nil => cases run
  | cons guard guards ih =>
    cases run with
    | probe_next _ _ rest => exact ih rest

/-- The turns of a list that fail behind a cut do so however the last turn is said to fail. -/
theorem Runs.turns_hard_of_last {job : Job} (run : x.Runs call job cx s o s') :
    ∀ {element separator hasItems last f}, job = .turns element separator hasItems last →
      o = .hard f → ∀ last', x.Runs call (.turns element separator hasItems last') cx s o s' := by
  induction run with
  | turns_later turn moved _ _ ih =>
    rintro _ _ _ _ _ ⟨⟩ _ last'
    exact .turns_later turn moved (ih rfl rfl last')
  | turns_hard turn _ =>
    rintro _ _ _ _ _ ⟨⟩ _ last'
    exact .turns_hard turn
  | turns_next | turns_soft | turns_idle => exact fun _ none => nomatch none
  | _ =>
    intro _ _ _ _ _ other
    cases other

/-- A task ends as its first part does if that fails behind a cut, unless it stops the failure. -/
theorem First.ends (first : x.First b part) (ends : part.Ends x (.hard f) s') :
    b.Ends x (.hard f) s' ∨ Stops b part := by
  obtain ⟨remaining, depth, t⟩ := b
  cases first with
  | opens opened =>
    cases opened with
    | seq => exact Or.inl (.seq_hard ends)
    | choice => exact Or.inl (.choice ends)
    | opt => exact Or.inl (.opt_hard ends)
    | group => exact Or.inl (.group_hard ends)
    | list => exact Or.inl (.list ends)
    | sepList => exact Or.inl (.sepList ends)
    | predicate => exact Or.inl (.predicate_fails ends rfl)
    | skip => exact absurd ends not_probe_hard
    | protect => exact Or.inl (.protect ends)
    | node => exact Or.inl (.node_fails ends rfl)
    | enum => exact Or.inl (.enum_fails ends rfl)
    | items_cut cut => exact Or.inl (.items_cut cut ends)
    | item item => exact Or.inl (.items_hard item ends)
    | alternatives_passed passed => exact Or.inl (.alternatives_passed passed ends)
    | @alternative recovers _ _ _ _ _ _ _ tried =>
      cases recovers with
      | true => exact Or.inr (.alternative rfl)
      | false => exact Or.inl (.alternatives_hard tried ends)
    | repeated => exact Or.inl (.repeated_hard ends)
    | turn_first without => exact Or.inl (.turn_first without ends)
    | separator => exact Or.inl (.turn_fails ends rfl)
    | turns => exact Or.inl (.turns_hard ends)
    | guard => exact Or.inr (.guard rfl)
  | enters found new =>
    refine Or.inl (.rule (call_eq_ok_iff.mpr ⟨_, rfl, new, ?_⟩))
    rw [enter, found]
    exact computed_of_runs ends

/-- A task ends as what is next behind its first part does, if that fails behind a cut. -/
theorem Resumes.ends {t part : Task} (next : x.Resumes t part o s₁ rest)
    (ends : x.Ends call part o s₁) (later : x.Ends call rest (.hard f) s') :
    x.Ends call t (.hard f) s' := by
  cases next with
  | items item => exact .items_later item ends later rfl
  | alternatives_soft tried => exact .alternatives_soft tried ends later
  | alternatives_recover tried => exact .alternatives_recover tried ends later
  | turn => exact .turn_next ends later
  | turns moved => exact .turns_later ends moved later
  | probe => exact absurd later not_probe_hard

/-- How a task with a first part fails behind a cut. -/
inductive HardEnd (x : Session) (b part : Begun) (f : Failure) (s' : State) : Prop
  /-- It commits to the failure of an item. -/
  | commits {m : Matcher} : x.Commits b m f s' → HardEnd x b part f s'
  /-- Its first part fails so, and nothing is next. -/
  | part : part.Ends x (.hard f) s' →
      (∀ rest, ¬ x.Resumes b.task part.task (.hard f) s' rest) → HardEnd x b part f s'
  /-- What is next behind its first part fails so. -/
  | later {o : Outcome} {s₁ : State} {rest : Task} :
      part.Ends x o s₁ → x.Resumes b.task part.task o s₁ rest →
      (b.within rest).Ends x (.hard f) s' → HardEnd x b part f s'

/-- A task that fails behind a cut gives up, or it has a first part and fails by that. -/
theorem exists_hardEnd (ends : b.Ends x (.hard f) s') :
    GivesUp b f ∨ ∃ part, x.First b part ∧ x.HardEnd b part f s' := by
  obtain ⟨remaining, depth, job, cx, s⟩ := b
  have part {t : Task} (opened : x.Opens ⟨job, cx, s⟩ t)
      (run : x.Ends (x.call remaining depth) t (.hard f) s')
      (nothing : ∀ rest, ¬ x.Resumes ⟨job, cx, s⟩ t (.hard f) s' rest) :
      GivesUp ⟨remaining, depth, ⟨job, cx, s⟩⟩ f ∨
        ∃ part, x.First ⟨remaining, depth, ⟨job, cx, s⟩⟩ part ∧
          x.HardEnd ⟨remaining, depth, ⟨job, cx, s⟩⟩ part f s' :=
    Or.inr ⟨_, .opens opened, .part run nothing⟩
  have later {t rest : Task} {o : Outcome} {s₁ : State}
      (next : x.Resumes ⟨job, cx, s⟩ t o s₁ rest)
      (run : x.Ends (x.call remaining depth) t o s₁)
      (ends : x.Ends (x.call remaining depth) rest (.hard f) s') :
      GivesUp ⟨remaining, depth, ⟨job, cx, s⟩⟩ f ∨
        ∃ part, x.First ⟨remaining, depth, ⟨job, cx, s⟩⟩ part ∧
          x.HardEnd ⟨remaining, depth, ⟨job, cx, s⟩⟩ part f s' :=
    Or.inr ⟨_, .opens next.opens, .later run next ends⟩
  change x.Runs _ _ _ _ _ _ at ends
  cases ends with
  | rule called =>
    obtain ⟨rest, rfl, new, entered⟩ := call_eq_ok_iff.mp called
    rcases enter_cases entered with ⟨rule, found, run⟩ | ⟨_, none, _⟩
    · exact Or.inr ⟨_, .enters found new, .part run (fun _ none => nomatch none)⟩
    · cases none
  | seq_hard run => exact part .seq run (fun _ none => nomatch none)
  | choice run => exact part .choice run (fun _ none => nomatch none)
  | opt_hard run => exact part .opt run (fun _ none => nomatch none)
  | group_hard run => exact part .group run (fun _ none => nomatch none)
  | list run => exact part .list run (fun _ none => nomatch none)
  | sepList run => exact part .sepList run (fun _ none => nomatch none)
  | predicate_fails run => exact part .predicate run (fun _ none => nomatch none)
  | protect run => exact part .protect run (fun _ none => nomatch none)
  | node_fails run => exact part .node run (fun _ none => nomatch none)
  | enum_fails run => exact part .enum run (fun _ none => nomatch none)
  | items_cut cut run => exact part (.items_cut cut) run (fun _ none => nomatch none)
  | items_later item run ends => exact later (.items item) run ends
  | items_commit item run => exact Or.inr ⟨_, .opens (.item item), .commits ⟨⟨_, rfl⟩, item, run⟩⟩
  | items_hard item run => exact part (.item item) run (fun _ none => nomatch none)
  | alternatives_given_up => exact Or.inl ⟨_, _, _, rfl⟩
  | alternatives_passed passed run =>
    exact part (.alternatives_passed passed) run (fun _ none => nomatch none)
  | alternatives_soft tried run ends => exact later (.alternatives_soft tried) run ends
  | alternatives_recover tried run ends => exact later (.alternatives_recover tried) run ends
  | alternatives_hard tried run => exact part (.alternative tried) run (fun _ none => nomatch none)
  | repeated _ done =>
    rcases finishList_cases done with ⟨_, none, _⟩ | ⟨_, none, _⟩ <;> cases none
  | repeated_hard run => exact part .repeated run (fun _ none => nomatch none)
  | turn_first without run => exact part (.turn_first without) run (fun _ none => nomatch none)
  | turn_next run ends => exact later .turn run ends
  | turn_fails run => exact part .separator run (fun _ none => nomatch none)
  | turns_later run moved ends => exact later (.turns moved) run ends
  | turns_hard run => exact part .turns run (fun _ none => nomatch none)
  | probe_next _ _ ends => exact absurd ends not_probe_hard

/-- A list that fails behind a cut does so by its turns, however the last one is said to fail. -/
theorem hardEnd_of_repeated {repetition : Repetition} {element : Matcher}
    {separator : Option Matcher}
    (job : b.task.job = .repeated repetition element separator) (first : x.First b part)
    (ends : b.Ends x (.hard f) s') : x.HardEnd b part f s' := by
  obtain ⟨remaining, depth, _, cx, s⟩ := b
  cases job
  cases first with
  | opens opened =>
    cases opened with
    | repeated =>
      cases ends with
      | repeated _ done =>
        rcases finishList_cases done with ⟨_, none, _⟩ | ⟨_, none, _⟩ <;> cases none
      | repeated_hard run =>
        exact .part (run.turns_hard_of_last rfl rfl _) (fun _ none => nomatch none)

/-- A choice that gives up has no first part. -/
theorem GivesUp.not_first (gives : GivesUp b f) : ¬ x.First b part := by
  intro first
  obtain ⟨remaining, depth, job, cx, s⟩ := b
  obtain ⟨_, _, _, same⟩ := gives
  cases same
  cases first with
  | opens opened => cases opened

/-- Where a task fails for good, its first part shows why: it commits, it fails for good itself, or
what follows does. -/
theorem First.hardEnd (first : x.First b part) (ends : b.Ends x (.hard f) s') :
    x.HardEnd b part f s' := by
  by_cases list : ∃ repetition element separator,
      b.task.job = .repeated repetition element separator
  · obtain ⟨_, _, _, job⟩ := list
    exact hardEnd_of_repeated job first ends
  · rcases exists_hardEnd ends with gives | ⟨part', first', hard⟩
    · exact absurd first gives.not_first
    · obtain rfl := first.unique first' fun _ _ _ job => list ⟨_, _, _, job⟩
      exact hard

end Session

end CombinatorGrammar
