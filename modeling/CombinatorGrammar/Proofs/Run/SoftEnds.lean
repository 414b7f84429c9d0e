import CombinatorGrammar.Proofs.Program.OptionalGroups
import CombinatorGrammar.Proofs.Run.HardEnds

/-!
# Soft failures

A choice fails softly only when all its alternatives have, each where the choice began. And a rule
that comes to no cut fails softly if it fails at all.
-/

namespace CombinatorGrammar

namespace Session

variable {x : Session} {call : Call} {cx : Context} {s s' : State} {o : Outcome} {f : Failure}
  {ref : RuleRef} {active : List (RuleRef × Nat)} {guards : List Matcher} {remaining depth : Nat}

/-- Where what remains of a choice fails softly, all alternatives do. -/
theorem Runs.alternatives_soft_cases {recovers : Bool} {start : Mark}
    {best committed : Option Failure} {ms : List Matcher}
    (run : x.Runs call (.alternatives recovers start best committed ms) cx s (.soft f) s')
    (here : s.position = start.position) :
    committed = none ∧ ∀ m ∈ ms, ∃ t g t', t.position = start.position ∧
      x.Runs call (.matcher m) cx t (.soft g) t' := by
  induction ms generalizing best committed s with
  | nil =>
    cases run with
    | alternatives_nil => exact ⟨rfl, List.forall_mem_nil _⟩
  | cons m ms ih =>
    cases run with
    | alternatives_passed passed rest =>
      obtain ⟨rfl, _⟩ := ih rest here
      cases passed
    | alternatives_soft _ fails rest =>
      obtain ⟨none, others⟩ := ih rest rfl
      exact ⟨none, List.forall_mem_cons.mpr ⟨⟨s, _, _, here, fails⟩, others⟩⟩
    | alternatives_recover _ _ rest => cases (ih rest rfl).1

/-- Where a rule that is a choice fails softly, each rule among its alternatives does, one level
further down. -/
theorem call_soft_of_choice {name : String} {alternatives : List Matcher} {other : RuleRef}
    (found : x.program.rule? ref = some ⟨name, .choice alternatives⟩)
    (among : .rule other ∈ alternatives)
    (called : x.call remaining depth ref active guards s = .ok (.soft f, s')) :
    ∃ rest t g t', remaining = rest + 1 ∧ t.position = s.position ∧
      x.call rest (depth + 1) other ((ref, s.position) :: active) guards t = .ok (.soft g, t') := by
  obtain ⟨rest, rfl, _, entered⟩ := call_eq_ok_iff.mp called
  rcases enter_cases entered with ⟨rule, known, run⟩ | ⟨missing, _⟩
  · obtain rfl := Option.some.inj (found.symm.trans known)
    cases run with
    | choice run =>
      obtain ⟨t, g, t', here, fails⟩ := (run.alternatives_soft_cases rfl).2 _ among
      cases fails with
      | rule called => exact ⟨rest, t, g, t', rfl, here, called⟩
  · rw [found] at missing
    cases missing

/-- The job has come to no cut and comes to none. -/
def UncutJob (uncut : RuleRef → Bool) : Job → Prop
  | .matcher m => ∀ n ∈ m.parts, n.isUncut uncut = true
  | .items committed ms => committed = false ∧ ∀ m ∈ ms, ∀ n ∈ m.parts, n.isUncut uncut = true
  | .alternatives _ _ _ committed ms =>
    committed = none ∧ ∀ m ∈ ms, ∀ n ∈ m.parts, n.isUncut uncut = true
  | .repeated _ element separator | .turn element separator _ | .turns element separator _ _ =>
    (∀ n ∈ element.parts, n.isUncut uncut = true) ∧
      ∀ m ∈ separator, ∀ n ∈ m.parts, n.isUncut uncut = true
  | .probe _ => True

/-- A job that comes to no cut does not fail behind one, if the calls in it do not. -/
theorem Runs.not_hard {uncut : RuleRef → Bool} {job : Job}
    (calls : ∀ ref active guards s f s', uncut ref = true →
      call ref active guards s ≠ .ok (.hard f, s'))
    (run : x.Runs call job cx s o s') (plain : UncutJob uncut job) : ∀ f, o ≠ .hard f := by
  have down {m n : Matcher} (h : UncutJob uncut (.matcher m)) (operand : n ∈ m.operands) :
      UncutJob uncut (.matcher n) :=
    fun k part => h k (Matcher.mem_parts_iff.mpr (Or.inr ⟨n, operand, part⟩))
  induction run with
  | rule called =>
    rintro f rfl
    exact calls _ _ _ _ _ _ (plain _ (Matcher.mem_parts_self _)) called
  | seq_hard _ ih => exact ih ⟨rfl, fun _ => down plain⟩
  | choice _ ih => exact ih ⟨rfl, fun _ => down plain⟩
  | opt_hard _ ih | group_hard _ ih | predicate_fails _ _ ih | protect _ ih | node_fails _ _ ih
  | enum_fails _ _ ih => exact ih (down plain (List.mem_cons_self ..))
  | list _ ih => exact ih ⟨down plain (List.mem_cons_self ..), nofun⟩
  | sepList _ ih =>
    refine ih ⟨down plain (List.mem_cons_self ..), ?_⟩
    rintro m ⟨⟩
    exact down plain (List.mem_cons_of_mem _ (List.mem_singleton_self _))
  | @items_cut _ m _ _ _ _ _ cut _ _ =>
    cases m with
    | cut => cases plain.2 _ (List.mem_cons_self ..) _ (Matcher.mem_parts_self _)
    | _ => cases cut
  | items_later _ _ _ _ _ ih => exact ih ⟨plain.1, (List.forall_mem_cons.mp plain.2).2⟩
  | items_commit => cases plain.1
  | items_hard _ _ ih => exact ih (List.forall_mem_cons.mp plain.2).1
  | alternatives_given_up => cases plain.1
  | alternatives_passed _ _ ih => exact ih ⟨plain.1, (List.forall_mem_cons.mp plain.2).2⟩
  | alternatives_soft _ _ _ _ ih => exact ih ⟨plain.1, (List.forall_mem_cons.mp plain.2).2⟩
  | alternatives_recover _ _ _ ih _ =>
    exact absurd rfl (ih (List.forall_mem_cons.mp plain.2).1 _)
  | alternatives_hard _ _ ih => exact ih (List.forall_mem_cons.mp plain.2).1
  | repeated _ done _ =>
    rintro f rfl
    rcases finishList_cases done with ⟨_, other, _⟩ | ⟨_, other, _⟩ <;> cases other
  | repeated_hard _ ih | turns_hard _ ih => exact ih plain
  | turn_first _ _ ih | turn_next _ _ _ ih => exact ih plain.1
  | turn_fails _ _ ih => exact ih (plain.2 _ rfl)
  | turns_later _ _ _ _ ih => exact ih plain
  | probe_next _ _ _ _ ih => exact ih trivial
  | _ => exact fun _ none => nomatch none

/-- A call of a rule that comes to no cut does not fail behind one. -/
theorem call_not_hard {uncut : RuleRef → Bool} (rules : x.program.Uncut uncut)
    (known : uncut ref = true) :
    x.call remaining depth ref active guards s ≠ .ok (.hard f, s') := by
  induction remaining generalizing depth ref active guards s f s' with
  | zero =>
    intro called
    obtain ⟨rest, none, _⟩ := call_eq_ok_iff.mp called
    cases none
  | succ remaining ih =>
    intro called
    obtain ⟨rest, same, _, entered⟩ := call_eq_ok_iff.mp called
    cases same
    rcases enter_cases entered with ⟨rule, found, run⟩ | ⟨_, none, _⟩
    · have plain : UncutJob uncut (.matcher rule.body) := fun m part => by
        simpa [known] using rules ref rule found m part
      refine run.not_hard ?_ plain f rfl
      exact fun _ _ _ _ _ _ known => ih known
    · cases none

end Session

end CombinatorGrammar
