import CombinatorGrammar.Proofs.Machine.Simulation
import CombinatorGrammar.Proofs.Run.Descent

/-!
# The engine always stops

From no configuration can the engine go on for ever: what is to be run lands, and whatever waits in
a frame for its outcome lands in turn. A run of a rule stops with just the outcome or the fault that
the interpreter computes. Nothing is asked of the program: its rules may be left-recursive, its
lists may match nothing, and the guards of its regions may lead to other regions and skips.
-/

namespace CombinatorGrammar

namespace Session

variable {x : Session} {c d : Configuration} {e : Engine} {frames : List Frame}

/-- The configuration leads to one in which nothing is left to be done. -/
def Halts (x : Session) (c : Configuration) : Prop :=
  ∃ d, x.LeadsTo c d ∧ x.step d = none

/-- The configuration leads to the end of a part of a run above the frames. -/
def Settles (x : Session) (c : Configuration) (frames : List Frame) : Prop :=
  ∃ e r, x.Lands c e frames r

/-- An answer is the end of a part of a run. -/
theorem settles_answer (o : Outcome) (e : Engine) : x.Settles ⟨.answer o, e, frames⟩ frames :=
  ⟨e, .ok (o, e.state), .refl⟩

/-- What a step has computed is the end of a part of a run. -/
theorem settles_ofStep (r : Step) : x.Settles (.ofStep e frames r) frames :=
  ⟨e, r, lands_ofStep r⟩

/-- A matcher comes to its end, above any frames. -/
theorem settles_eval (x : Session) (m : Matcher) (e : Engine) (frames : List Frame) :
    x.Settles ⟨.eval m, e, frames⟩ frames := ⟨e, _, x.lands m e frames⟩

/-- What settles above a frame settles below it if the frame goes on to where it settles. -/
theorem Settles.behind {f : Frame} (h : x.Settles c (f :: frames))
    (goes : ∀ o e, x.Settles (x.resume f o e frames) frames) : x.Settles c frames := by
  obtain ⟨e, fault | ⟨o, s⟩, landed⟩ := h
  · obtain ⟨s, stopped⟩ := landed
    exact ⟨f.close { e with state := s }, .error fault, _, stopped.tail rfl⟩
  · obtain ⟨e', r, behind⟩ := goes o { e with state := s }
    exact ⟨e', r, behind.of_leadsTo (landed.tail rfl)⟩

/-- The guards of a skip are attempted to the end. -/
theorem settles_nextGuard (errorType : NodeRef) (outer : Aside) (ms : List Matcher) (e : Engine) :
    x.Settles (x.nextGuard errorType outer ms e frames) frames := by
  induction ms generalizing e with
  | nil =>
    rw [nextGuard, takeToken]
    exact settles_ofStep _
  | cons m ms ih =>
    refine (x.settles_eval m e _).behind fun o e' => ?_
    rw [resume]
    split
    · exact settles_ofStep _
    · exact ih _

/-- The turns of a list come to their end. -/
theorem settles_element (l : ListRun) (items : List Value) (turn : Mark) (o : Outcome)
    (e : Engine) : x.Settles (x.resume (.element l items turn) o e frames) frames := by
  have performs := performs_of_calls (x.performsCalls e.nesting)
  cases o with
  | success values =>
    rw [resume]
    split
    · exact settles_ofStep _
    · exact ⟨e, _, lands_turns l (performs _) fun m _ => performs m⟩
  | soft f => exact settles_ofStep _
  | hard f => exact settles_answer _ _

/-- Whatever waits in a frame for the outcome of a part settles when the outcome is there. -/
theorem settles_resume (f : Frame) (o : Outcome) (e : Engine) :
    x.Settles (x.resume f o e frames) frames := by
  have performs (e : Engine) := performs_of_calls (x.performsCalls e.nesting)
  cases f with
  | items start committed values rest =>
    cases o with
    | success more => exact ⟨e, _, lands_items fun m _ => performs e m⟩
    | soft f => cases committed <;> exact settles_answer _ _
    | hard f => exact settles_answer _ _
  | alternatives recovers start best committed rest =>
    cases o with
    | success values => exact settles_answer _ _
    | soft f => exact ⟨e, _, lands_alternatives fun m _ => performs e m⟩
    | hard f =>
      cases recovers with
      | true => exact ⟨e, _, lands_alternatives fun m _ => performs e m⟩
      | false => exact settles_answer _ _
  | separator l items turn =>
    cases o with
    | success values => exact (x.settles_eval l.element e _).behind (settles_element l items turn)
    | soft f => exact settles_ofStep _
    | hard f => exact settles_answer _ _
  | element l items turn => exact settles_element l items turn o e
  | predicate ref start =>
    cases o with
    | success values =>
      simp only [resume]
      split
      · exact settles_answer _ _
      · exact settles_ofStep _
    | soft f => exact settles_answer _ _
    | hard f => exact settles_answer _ _
  | guard errorType start rest outer =>
    rw [resume]
    split
    · exact settles_ofStep _
    · exact settles_nextGuard ..
  | rule | protect => exact settles_answer _ _
  | opt | group | node | enum => cases o <;> exact settles_answer _ _

/-- A configuration halts once what is to be done now has settled above the frames. -/
theorem Settles.halts (h : x.Settles c frames) : x.Halts c := by
  induction frames generalizing c with
  | nil =>
    obtain ⟨e, fault | ⟨o, s⟩, landed⟩ := h
    · obtain ⟨s, stopped⟩ := landed
      exact ⟨_, stopped, rfl⟩
    · exact ⟨_, landed, rfl⟩
  | cons f frames ih => exact ih (h.behind (settles_resume f))

/-- Every configuration leads to one in which nothing is left to be done. -/
theorem halts (x : Session) (c : Configuration) : x.Halts c := by
  obtain ⟨m | o | fault, e, frames⟩ := c
  · exact (x.settles_eval m e frames).halts
  · exact (settles_answer o e).halts
  · exact Settles.halts ⟨e, .error fault, e.state, .refl⟩

/-- Since there is one way on at most, a configuration that halts has no infinite run. -/
theorem Halts.acc (h : x.Halts c) : Acc (fun d c => x.step c = some d) c := by
  obtain ⟨last, leads, none⟩ := h
  induction leads using Relation.ReflTransGen.head_induction_on with
  | refl =>
    refine ⟨_, fun d next => ?_⟩
    rw [none] at next
    cases next
  | head next _ ih =>
    refine ⟨_, fun d other => ?_⟩
    obtain rfl := Option.some.inj (other.symm.trans next)
    exact ih

/-- The engine always stops. Whatever a run begins is smaller than the run, so that the interpreter
calls itself to a limited depth only; the engine has no infinite run from any configuration; and a
run of a rule ends with the outcome or the fault that the interpreter computes. -/
theorem always_stops (x : Session) :
    Subrelation (fun c b => x.Begins b c) (fun c b => x.Descends b c) ∧
    WellFounded (fun c b => x.Descends b c) ∧
    WellFounded (fun d c => x.step c = some d) ∧
    ∀ maxDepth ref position, ∃ d, x.LeadsTo (.ofRule maxDepth ref position) d ∧
      d.result? = some (x.run maxDepth ref (.initial position)) := by
  refine ⟨Begins.descends, x.wellFounded_descends, ⟨fun c => (x.halts c).acc⟩,
    fun maxDepth ref position => ?_⟩
  have landed := x.lands (.rule ref) (.initial maxDepth position) []
  rw [Engine.result_initial] at landed
  rcases ran : x.run maxDepth ref (.initial position) with fault | ⟨o, s⟩
  · rw [ran] at landed
    obtain ⟨s, stopped⟩ := landed
    exact ⟨_, stopped, rfl⟩
  · rw [ran] at landed
    exact ⟨_, landed, rfl⟩

end Session

end CombinatorGrammar
