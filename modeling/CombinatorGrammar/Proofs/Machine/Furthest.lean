import CombinatorGrammar.Proofs.Machine.Halting
import CombinatorGrammar.Proofs.Program.Resolution
import CombinatorGrammar.Proofs.Recovery.Reports
import CombinatorGrammar.Proofs.Run.FailureLog

/-!
# The furthest failure

A run raises failures at its leaves: where a token is not the one that is asked for, where a
predicate does not hold, where a skip is refused, and where a rule does not exist. All of them are
recorded, whatever is given back later, but for those that are raised while guards are attempted.
Everywhere in a run the furthest failure is what the log of them says, and the failures that are
passed on are failures of the log, or say nothing of what was expected. So a parse that fails is
reported where the log ends up furthest, with all that was expected there.
-/

namespace CombinatorGrammar

namespace Frame

/-- The frame waits for the attempt of a guard. -/
def isAttempt : Frame → Bool
  | .guard _ _ _ _ => true
  | _ => false

/-- A guard is being attempted. -/
def attempting (frames : List Frame) : Bool := frames.any isAttempt

/-- The failures that the frame keeps. -/
def failures : Frame → List Failure
  | .alternatives _ _ best committed _ => best.toList ++ committed.toList
  | _ => []

/-- The furthest failure outside all attempts of guards: the one in the engine, or else the one that
the outermost attempt has set aside. -/
def furthest : List Frame → Option Failure → Option Failure
  | [], known => known
  | .guard _ _ _ outer :: frames, _ => furthest frames outer.furthest
  | _ :: frames, known => furthest frames known

/-- The log tells the furthest failure outside all attempts of guards, and of the failures that are
held there nothing else. -/
def Tells (log : List Failure) : List Frame → Option Failure → List Failure → Prop
  | [], known, held => known = Failure.merged log ∧ ∀ f ∈ held, f.From log
  | .guard _ _ _ outer :: frames, _, _ => Tells log frames outer.furthest []
  | f :: frames, known, held => Tells log frames known (f.failures ++ held)

variable {log : List Failure} {frames : List Frame} {known : Option Failure} {held : List Failure}

/-- What the log tells is its merged failures. -/
theorem Tells.furthest_eq (h : Tells log frames known held) :
    furthest frames known = Failure.merged log := by
  induction frames generalizing known held with
  | nil => exact h.1
  | cons f frames ih =>
    cases f with
    | guard errorType start rest outer =>
      have below : Tells log frames outer.furthest [] := h
      exact ih below
    | _ => exact ih h

/-- Failures may be forgotten, and failures may be made up that say nothing. -/
theorem Tells.mono {held' : List Failure} (h : Tells log frames known held)
    (fewer : ∀ f ∈ held', f ∈ held ∨ f.expected = []) : Tells log frames known held' := by
  induction frames generalizing known held held' with
  | nil => exact ⟨h.1, fun f among => (fewer f among).elim (h.2 f) Or.inr⟩
  | cons f frames ih =>
    have both : ∀ g ∈ f.failures ++ held', g ∈ f.failures ++ held ∨ g.expected = [] := by
      intro g among
      rcases List.mem_append.mp among with kept | new
      · exact Or.inl (List.mem_append_left held kept)
      · exact (fewer g new).imp_left (List.mem_append_right f.failures)
    cases f with
    | guard errorType start rest outer => exact h
    | _ => exact ih h both

/-- A log that tells of some failures tells of fewer. -/
theorem Tells.subset {held' : List Failure} (h : Tells log frames known held)
    (fewer : held' ⊆ held) : Tells log frames known held' :=
  h.mono fun _ among => Or.inl (fewer among)

/-- A failure that is recorded joins the log, unless a guard is being attempted. -/
theorem Tells.record (h : Tells log frames known held) (f : Failure) :
    Tells (log ++ if attempting frames then [] else [f]) frames (some (f.into known))
      (f :: held) := by
  induction frames generalizing known held with
  | nil =>
    obtain ⟨rfl, logged⟩ := h
    refine ⟨(Failure.merged_concat log f).symm, List.forall_mem_cons.mpr ⟨?_, ?_⟩⟩
    · exact Or.inl (List.mem_append_right log (List.mem_singleton_self f))
    · exact fun g among => (logged g among).append
  | cons top frames ih =>
    cases top with
    | guard errorType start rest outer =>
      rw [show attempting (.guard errorType start rest outer :: frames) = true from rfl, if_pos rfl,
        List.append_nil]
      exact h
    | _ =>
      refine (ih h).subset fun g among => ?_
      simp only [List.mem_append, List.mem_cons] at among ⊢
      tauto

end Frame

/-- The failure that the outcome passes on. -/
def Outcome.failures : Outcome → List Failure
  | .success _ => []
  | .soft f => [f]
  | .hard f => [f]

/-- The failure that is passed on now. -/
def Control.failures : Control → List Failure
  | .answer o => o.failures
  | _ => []

namespace Configuration

/-- The furthest failure outside all attempts of guards. -/
def furthest (c : Configuration) : Option Failure := Frame.furthest c.frames c.engine.state.furthest

/-- The log tells the furthest failure and the failures that are held. -/
def Tells (log : List Failure) (c : Configuration) : Prop :=
  Frame.Tells log c.frames c.engine.state.furthest c.control.failures

end Configuration

namespace Session

variable (x : Session)

/-- What a matcher raises where it begins: a token match where there is another token, a skip where
it is refused without an attempt of guards, and a rule that is entered and does not exist. -/
def refused (m : Matcher) (e : Engine) : List Failure :=
  match m with
  | .token kind text _ =>
    let t := x.current e.state
    if t.kind = kind ∧ text.all (· = t.text) then [] else [⟨e.state.position, [.token kind text]⟩]
  | .skip _ => if !x.recovery || x.atEnd e.state then [.plain e.state.position] else []
  | .rule ref =>
    if e.active.contains (ref, e.state.position) then []
    else match e.nesting.enter?, x.program.rule? ref with
      | some _, none => [.plain e.state.position]
      | _, _ => []
  | _ => []

variable {x} {log : List Failure} {c d : Configuration} {e : Engine} {frames : List Frame}
  {s : State}

/-- Advancing finds no failure. -/
theorem furthest_advance (x : Session) (s : State) : (x.advance s).furthest = s.furthest := by
  rw [advance]
  split <;> rfl

/-- The syntax error of a failure of the log is where the log is furthest, and names what was
expected there. -/
theorem syntaxError_eq {f : Failure} (nodup : ∀ g ∈ log, g.expected.Nodup) (logged : f.From log) :
    x.syntaxError (Failure.merged log) f =
      let furthest := Failure.greatest f.position log
      let found := x.tokens.token furthest
      .syntaxError found.span
        ((Failure.expectedAt furthest log).map (Expectation.describe x.program x.names)).eraseDups
        (x.describeFound found) := by
  rw [syntaxError, logged.merge_eq nodup]
  simp only [describeExpected, Failure.describe, eraseDups_map_eraseDups]

end Session

namespace Program

end Program

end CombinatorGrammar
