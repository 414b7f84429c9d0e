import CombinatorGrammar.Program.Listing
import CombinatorGrammar.Proofs.Run.History
import Mathlib.Order.WellFounded

/-!
# Why the interpreter may call itself

Whatever a run begins is smaller than the run itself: fewer levels of nesting remain, or there is
less to be matched on the same level, or fewer tokens are left in the same list. What is to be
matched includes the guards, because a skip goes back to them; their attempts run without guards,
so what they begin is smaller all the same. There is no infinite descent, whatever rules refer to.
-/

namespace CombinatorGrammar

/-- How much the job has to match. The intermediate jobs of one matcher differ in the last place. -/
def Job.size : Job → Nat
  | .matcher m => 4 * m.size
  | .items _ ms => 4 * Matcher.sizeOfAll ms + 1
  | .alternatives _ _ _ _ ms => 4 * Matcher.sizeOfAll ms + 1
  | .repeated _ element separator => 4 * (element.size + separator.elim 0 Matcher.size) + 3
  | .turns element separator _ _ => 4 * (element.size + separator.elim 0 Matcher.size) + 2
  | .turn element separator _ => 4 * (element.size + separator.elim 0 Matcher.size) + 1
  | .probe guards => 4 * Matcher.sizeOfAll guards + 1

/-- How much the task has to match, the guards of its place included, which a skip may attempt. The
attempts of guards run without guards. -/
def Task.size (t : Task) : Nat :=
  match t.job with
  | .probe guards => (Job.probe guards).size
  | job => job.size + 4 * Matcher.sizeOfAll t.cx.guards

/-- The levels that remain, how much is to be matched, and how many tokens are left. -/
def Begun.extent (x : Session) (b : Begun) : Nat × Nat × Nat :=
  (b.remaining, b.task.size, x.tokens.lastPosition - b.task.state.position)

/-- Every matcher has something to match. -/
theorem Matcher.size_pos (m : Matcher) : 0 < m.size := by
  cases m <;> simp only [Matcher.size] <;> omega

namespace Session

variable {x : Session} {b c : Begun} {t t' : Task}

/-- A run begins the second task within the first one: as its first part, or as what comes next
behind a part that has ended. -/
inductive Begins (x : Session) (b : Begun) : Begun → Prop
  | first {c : Begun} : x.First b c → Begins x b c
  | next {part rest : Task} {o : Outcome} {s : State} :
      (b.within part).Ends x o s → x.Resumes b.task part o s rest → Begins x b (b.within rest)

/-- The ways in which a task is smaller than the one that begins it. -/
inductive Descends (x : Session) (b c : Begun) : Prop
  /-- A rule is entered. -/
  | level : c.remaining < b.remaining → Descends x b c
  /-- A part is matched, or what is left behind a part. -/
  | size : c.remaining = b.remaining → c.task.size < b.task.size → Descends x b c
  /-- A list goes on behind a turn that has taken tokens. -/
  | tokens : c.remaining = b.remaining → c.task.size = b.task.size →
      x.tokens.lastPosition - c.task.state.position <
        x.tokens.lastPosition - b.task.state.position → Descends x b c

/-- A task opens with less than it has to match. -/
theorem Opens.size_lt (opens : x.Opens t t') : t'.size < t.size := by
  cases opens with
  | items_cut | alternatives_passed =>
    have taken := Matcher.size_pos ‹Matcher›
    simp only [Task.size, Job.size, Matcher.sizeOfAll]
    omega
  | _ =>
    simp only [Task.size, Job.size, Matcher.size, Matcher.sizeOfAll, Context.protecting,
      Context.empty, Option.elim]
    omega

/-- What a task goes on with is smaller, or as large and closer to the end. -/
theorem Resumes.descends {t part rest : Task} {o : Outcome} {s : State}
    (resumes : x.Resumes t part o s rest) :
    rest.size < t.size ∨ rest.size = t.size ∧
      x.tokens.lastPosition - rest.state.position < x.tokens.lastPosition - t.state.position := by
  cases resumes with
  | turns moved =>
    refine Or.inr ⟨rfl, ?_⟩
    simp only
    omega
  | turn =>
    refine Or.inl ?_
    simp only [Task.size, Job.size, Option.elim]
    omega
  | items | alternatives_soft | alternatives_recover | probe =>
    have taken := Matcher.size_pos ‹Matcher›
    refine Or.inl ?_
    simp only [Task.size, Job.size, Matcher.sizeOfAll]
    omega

/-- What a run begins is smaller than the run. -/
theorem Begins.descends (begins : x.Begins b c) : x.Descends b c := by
  cases begins with
  | first first =>
    cases first with
    | opens opens => exact .size rfl opens.size_lt
    | enters => exact .level (Nat.lt_succ_self _)
  | next _ resumes =>
    rcases resumes.descends with less | ⟨same, fewer⟩
    · exact .size rfl less
    · exact .tokens rfl same fewer

/-- There is no infinite descent. -/
theorem wellFounded_descends (x : Session) : WellFounded fun c b => x.Descends b c := by
  have lex := Nat.lt_wfRel.wf.prod_lex (Nat.lt_wfRel.wf.prod_lex Nat.lt_wfRel.wf)
  refine Subrelation.wf (fun {c b} smaller => ?_) (InvImage.wf (Begun.extent x) lex)
  cases smaller with
  | level fewer => exact Prod.Lex.left _ _ fewer
  | size level less =>
    simp only [InvImage, Begun.extent, level]
    exact .right _ (.left _ _ less)
  | tokens level same fewer =>
    simp only [InvImage, Begun.extent, level, same]
    exact .right _ (.right _ fewer)

end Session

end CombinatorGrammar
