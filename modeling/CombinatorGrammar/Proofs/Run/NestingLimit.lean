import CombinatorGrammar.Proofs.Machine.Upkeep
import CombinatorGrammar.Proofs.Program.Arity
import CombinatorGrammar.Proofs.Run.Recursion
import Mathlib.Data.List.Perm.Subperm
import Mathlib.Data.List.ProdSigma

/-!
# Nesting without end is left recursion

Rules nest deeply only by being entered at one position after the other. A rule that is in progress
is not entered at the same position again, and there are as many pairs of a rule and a position as
the product of their numbers says; so where that many levels may be entered, the limit is not
reached, and a run that would nest for ever is stopped as left recursive. The attempts of guards set
the rules in progress aside and count on the same levels, so guards must not refer to rules.
-/

namespace CombinatorGrammar

/-- The matcher refers to no rule. -/
def Matcher.RuleFree (m : Matcher) : Prop := ∀ ref, .rule ref ∉ m.parts

/-- The operands of a matcher without rule references have none. -/
theorem Matcher.RuleFree.operand {m n : Matcher} (h : m.RuleFree) (operand : n ∈ m.operands) :
    n.RuleFree :=
  fun ref part => h ref (mem_parts_iff.mpr (Or.inr ⟨n, operand, part⟩))

/-- What the regions of the program protect refers to no rules. -/
def Program.RuleFreeGuards (p : Program) : Prop :=
  ∀ m guard, .protect m guard ∈ p.parts → guard.RuleFree

/-- The matchers that the job runs. -/
def Job.matchers : Job → List Matcher
  | .matcher m => [m]
  | .items _ ms => ms
  | .alternatives _ _ _ _ ms => ms
  | .repeated _ element separator => element :: separator.toList
  | .turn element separator _ => element :: separator.toList
  | .turns element separator _ _ => element :: separator.toList
  | .probe guards => guards

namespace Session

variable {x : Session} {call : Call} {t t' part rest : Task} {o : Outcome} {s : State}

section Matchers

variable {P : Matcher → Prop}

/-- What passes from matchers to their operands passes from a task to its first part. -/
theorem Opens.forall_matchers (opens : x.Opens t t')
    (down : ∀ m, P m → ∀ n ∈ m.operands, P n) (guards : ∀ g ∈ t.cx.guards, P g)
    (here : ∀ m ∈ t.job.matchers, P m) : ∀ m ∈ t'.job.matchers, P m := by
  cases opens with
  | skip => exact guards
  | items_cut | alternatives_passed => exact fun m among => here m (List.mem_cons_of_mem _ among)
  | item | alternative | guard | turn_first =>
    exact List.forall_mem_singleton.mpr (here _ (List.mem_cons_self ..))
  | separator =>
    exact List.forall_mem_singleton.mpr (here _ (List.mem_cons_of_mem _ (List.mem_cons_self ..)))
  | repeated | turns => exact here
  | protect | opt | group | predicate | node | enum =>
    exact List.forall_mem_singleton.mpr
      (down _ (here _ (List.mem_cons_self ..)) _ (List.mem_cons_self ..))
  | seq | choice | list | sepList => exact down _ (here _ (List.mem_cons_self ..))

/-- What holds of the matchers of a task holds of those it resumes with. -/
theorem Resumes.forall_matchers (resumes : x.Resumes t part o s rest)
    (here : ∀ m ∈ t.job.matchers, P m) : ∀ m ∈ rest.job.matchers, P m := by
  cases resumes with
  | turns => exact here
  | turn => exact List.forall_mem_singleton.mpr (here _ (List.mem_cons_self ..))
  | items | alternatives_soft | alternatives_recover | probe =>
    exact fun m among => here m (List.mem_cons_of_mem _ among)

end Matchers

end Session

/-- The task runs parts of the program behind the given rules in progress, or what refers to no
rules. -/
structure Task.Traced (p : Program) (active : List (RuleRef × Nat)) (t : Task) : Prop where
  parts : ∀ m ∈ t.job.matchers, m ∈ p.parts
  guards : ∀ g ∈ t.cx.guards, g ∈ p.parts
  ruleFree : ∀ g ∈ t.cx.guards, g.RuleFree
  calls : (t.cx.active = active ∧ ∀ guards, t.job ≠ .probe guards) ∨
    ∀ m ∈ t.job.matchers, m.RuleFree

namespace Session

variable {x : Session} {call : Call} {t t' : Task} {active : List (RuleRef × Nat)}

/-- Where a task opens another one, the rules in progress remain accounted for. -/
theorem Opens.traced (free : x.program.RuleFreeGuards) (opens : x.Opens t t')
    (h : t.Traced x.program active) : t'.Traced x.program active := by
  have parts := opens.forall_matchers (fun _ part n => Program.operand_mem_parts part) h.guards
    h.parts
  have apart := opens.forall_matchers (fun _ free n => Matcher.RuleFree.operand free) h.ruleFree
  cases opens with
  | skip => exact ⟨parts, h.guards, h.ruleFree, Or.inr h.ruleFree⟩
  | protect =>
    have region := h.parts _ (List.mem_singleton_self _)
    refine ⟨parts, List.forall_mem_cons.mpr ⟨?_, h.guards⟩,
      List.forall_mem_cons.mpr ⟨free _ _ region, h.ruleFree⟩,
      h.calls.imp (fun inside => ⟨inside.1, by simp⟩) apart⟩
    exact Program.operand_mem_parts region (List.mem_cons_of_mem _ (List.mem_singleton_self _))
  | guard =>
    refine ⟨parts, List.forall_mem_nil _, List.forall_mem_nil _, Or.inr (apart ?_)⟩
    exact h.calls.resolve_left fun inside => inside.2 _ rfl
  | _ => exact ⟨parts, h.guards, h.ruleFree, h.calls.imp (fun inside => ⟨inside.1, by simp⟩) apart⟩

/-- Where a task goes on, the rules in progress remain accounted for. -/
theorem Next.traced (free : x.program.RuleFreeGuards) (next : x.Next call t t')
    (h : t.Traced x.program active) : t'.Traced x.program active := by
  cases next with
  | opens opens => exact opens.traced free h
  | resumes resumes =>
    have parts := resumes.forall_matchers h.parts
    have apart := resumes.forall_matchers (P := Matcher.RuleFree)
    cases resumes with
    | probe =>
      refine ⟨parts, h.guards, h.ruleFree, Or.inr (apart ?_)⟩
      exact h.calls.resolve_left fun inside => inside.2 _ rfl
    | _ =>
      exact ⟨parts, h.guards, h.ruleFree, h.calls.imp (fun inside => ⟨inside.1, by simp⟩) apart⟩

/-- Wherever a task comes to, the rules in progress are accounted for. -/
theorem ComesTo.traced (free : x.program.RuleFreeGuards) (comes : x.ComesTo call t t')
    (h : t.Traced x.program active) : t'.Traced x.program active := by
  induction comes with
  | refl => exact h
  | tail _ next ih => exact next.traced free ih

/-- The rules in progress are rules of the program, each entered at a token and once at most at each
of them. -/
structure Enters (x : Session) (active : List (RuleRef × Nat)) : Prop where
  nodup : active.Nodup
  rule_lt : ∀ entry ∈ active, entry.1.index < x.program.rules.size
  position_le : ∀ entry ∈ active, entry.2 ≤ x.tokens.lastPosition

/-- There are no more rules in progress than pairs of a rule and a token. -/
theorem Enters.length_le (h : x.Enters active) :
    active.length ≤ x.program.rules.size * x.tokens.size := by
  let pairs := (List.range x.program.rules.size).map RuleRef.mk ×ˢ List.range x.tokens.size
  have among : active ⊆ pairs := by
    intro entry member
    refine List.mem_product.mpr ⟨?_, List.mem_range.mpr ?_⟩
    · exact List.mem_map.mpr ⟨_, List.mem_range.mpr (h.rule_lt entry member), rfl⟩
    · exact Nat.lt_succ_of_le (h.position_le entry member)
  have fewer := (List.Nodup.subperm h.nodup among).length_le
  rwa [List.length_product, List.length_map, List.length_range, List.length_range] at fewer

/-- One more rule can be entered where it is not in progress. -/
theorem Enters.cons {ref : RuleRef} {position : Nat} (h : x.Enters active)
    (new : active.contains (ref, position) = false) (inside : ref.index < x.program.rules.size)
    (here : position ≤ x.tokens.lastPosition) : x.Enters ((ref, position) :: active) where
  nodup := List.nodup_cons.mpr ⟨by simpa using new, h.nodup⟩
  rule_lt := List.forall_mem_cons.mpr ⟨inside, h.rule_lt⟩
  position_le := List.forall_mem_cons.mpr ⟨here, h.position_le⟩

/-- The limit of nesting stops a call only where fewer levels may be entered than there are pairs of
a rule and a token. -/
theorem lt_of_call_nestingLimit (free : x.program.RuleFreeGuards)
    (anchored : ∀ ref, .rule ref ∈ x.program.parts → ref.index < x.program.rules.size)
    {remaining : Nat} {ref : RuleRef} {guards : List Matcher} {s : State} {limit position : Nat}
    (enters : x.Enters active) (inside : ref.index < x.program.rules.size)
    (here : s.position ≤ x.tokens.lastPosition) (parts : ∀ g ∈ guards, g ∈ x.program.parts)
    (ruleFree : ∀ g ∈ guards, g.RuleFree)
    (h : x.call remaining active.length ref active guards s =
      .error (.nestingLimit limit position)) :
    active.length + remaining < x.program.rules.size * x.tokens.size := by
  induction remaining generalizing ref active guards s with
  | zero =>
    rw [Session.call] at h
    split at h
    · cases h
    · next new =>
      rw [Bool.not_eq_true] at new
      exact (enters.cons new inside here).length_le
  | succ remaining ih =>
    rw [Session.call] at h
    split at h
    · cases h
    · next new =>
      rw [Bool.not_eq_true] at new
      unfold enter at h
      split at h
      · next rule found =>
        let inner : Context := ⟨(ref, s.position) :: active, guards⟩
        have faults : x.Faults _ ⟨.matcher rule.body, inner, s⟩ _ := faults_of_parser_eq h
        obtain ⟨callee, cx, s', comes, stopped⟩ := faults
        have body : Task.Traced x.program inner.active ⟨.matcher rule.body, inner, s⟩ :=
          ⟨List.forall_mem_singleton.mpr (Program.body_mem_parts found), parts, ruleFree,
            Or.inl ⟨rfl, by simp⟩⟩
        have traced := comes.traced free body
        have upTo := comes.upTo (Nat.le_refl _)
          (callsUpTo (Nat.le_refl _) remaining (active.length + 1)) ⟨trivial, here⟩
        have same : cx.active = (ref, s.position) :: active := by
          rcases traced.calls with ⟨same, _⟩ | apart
          · exact same
          · exact absurd (Matcher.mem_parts_self _) (apart _ (List.mem_singleton_self _) callee)
        have part := traced.parts _ (List.mem_singleton_self _)
        rw [same] at stopped
        have deeper := ih (enters.cons new inside here) (anchored _ part) upTo.state traced.guards
          traced.ruleFree stopped
        rw [List.length_cons] at deeper
        omega
      · cases h

/-- Where as many levels may be entered as there are pairs of a rule and a token, a run is stopped
by nothing but left recursion. -/
theorem run_leftRecursion (free : x.program.RuleFreeGuards)
    (anchored : ∀ ref, .rule ref ∈ x.program.parts → ref.index < x.program.rules.size)
    (some : 0 < x.program.rules.size) {maxDepth : Nat}
    (enough : x.program.rules.size * x.tokens.size ≤ maxDepth) {ref : RuleRef} {s : State}
    (here : s.position ≤ x.tokens.lastPosition) {fault : Fault}
    (h : x.run maxDepth ref s = .error fault) :
    ∃ name position, fault = .leftRecursion name position := by
  cases fault with
  | leftRecursion name position => exact ⟨name, position, rfl⟩
  | nestingLimit limit position =>
    have levels : 0 < x.program.rules.size * x.tokens.size := Nat.mul_pos some (Nat.succ_pos _)
    by_cases inside : ref.index < x.program.rules.size
    · have outside : x.Enters [] :=
        ⟨List.nodup_nil, List.forall_mem_nil _, List.forall_mem_nil _⟩
      have fewer := lt_of_call_nestingLimit free anchored outside inside here
        (List.forall_mem_nil _) (List.forall_mem_nil _) h
      simp only [List.length_nil, Nat.zero_add, Nesting.ofLimit] at fewer
      omega
    · -- a rule that does not exist fails on the first level
      obtain ⟨rest, rfl⟩ := Nat.exists_eq_succ_of_ne_zero (by omega : maxDepth ≠ 0)
      have missing : x.program.rule? ref = none :=
        Array.getElem?_eq_none_iff.mpr (Nat.le_of_not_lt inside)
      simp only [run, Nesting.ofLimit, call, enter, missing, List.contains_nil, Bool.false_eq_true,
        if_false] at h
      cases h

end Session

/-- The entry rule of a program is one of its rules. -/
theorem Grammar.entry_lt_of_resolve {g : Grammar} {names names' : Interner} {p : Program}
    (h : g.resolve names = .ok (p, names')) : p.entry.index < p.rules.size := by
  obtain ⟨rfl, entry, rules, found, _, rfl⟩ := resolve_eq_ok h
  obtain ⟨first, others⟩ := Linked.both_eq_ok found
  have lt := Directory.ruleRef?_lt (Linked.ofOption_eq_ok first)
  rw [Grammar.directory, List.length_map, ← linkRules_length others] at lt
  simpa using lt

namespace Program

variable {p : Program}

/-- Runaway recursion is caught as left recursion and not by the limit of nesting. If guards refer
to no rules and as many levels may be entered as there are pairs of a rule and a token, every fault
is left recursion. Behind this: every matcher ends, by an outcome or by a fault, with nothing
changed in the engine but the state; wherever in a run the same frames wait, the levels, the rules
in progress and the guards are the same; and everywhere the depth is the number of rules in
progress, those that attempts of guards have set aside included, none of them twice at one
position. -/
theorem runaway_is_left_recursion {g : Grammar} {names₀ names₁ : Interner}
    (resolved : g.resolve names₀ = .ok (p, names₁)) (names : Interner) (tokens : TokenStream)
    (config : ParseConfig) :
    (p.RuleFreeGuards → p.rules.size * tokens.size ≤ config.maxDepth →
      ∀ fault, p.StopsBy names tokens config fault →
        ∃ name position, fault = .leftRecursion name position) ∧
    let x := p.session names tokens config
    (∀ m e frames, x.Lands ⟨.eval m, e, frames⟩ e frames (e.result x m)) ∧
    ∀ ref start,
      let begun := Configuration.ofRule config.maxDepth ref (min start tokens.lastPosition)
      (∀ c d, x.LeadsTo begun c → x.LeadsTo begun d → d.frames = c.frames →
        d.engine.place = c.engine.place) ∧
      ∀ c, x.LeadsTo begun c →
        c.engine.nesting.depth = Frame.inProgress c.frames ∧
        c.engine.active.length + Frame.setAside c.frames = Frame.inProgress c.frames ∧
        c.engine.active.Nodup := by
  refine ⟨fun free enough fault stops => ?_, fun m e frames => Session.lands _ m e frames,
    fun ref start => ⟨fun c d before after => Session.place_eq_of_frames_eq before after,
      fun c leads => Session.depth_eq leads⟩⟩
  obtain ⟨ref, position, here, stopped⟩ := stops.exists_run
  have checked := (Grammar.checked_of_resolve resolved).2
  have some : 0 < p.rules.size := Nat.zero_lt_of_lt (Grammar.entry_lt_of_resolve resolved)
  exact Session.run_leftRecursion (x := p.session names tokens config) free
    (fun ref part => checked.rule_lt part) some enough (s := .initial position) here stopped

/-- Whether the regions of the program are seen to protect nothing that refers to a rule. -/
def hasRuleFreeGuards (p : Program) : Bool :=
  p.parts.all fun
    | .protect _ guard => guard.parts.all fun
      | .rule _ => false
      | _ => true
    | _ => true

/-- Guards that pass the check have no rule references. -/
theorem ruleFreeGuards_of_hasRuleFreeGuards (h : p.hasRuleFreeGuards = true) :
    p.RuleFreeGuards := by
  intro m guard region ref reference
  have free := List.all_eq_true.mp h _ region
  exact nomatch List.all_eq_true.mp free _ reference

end Program

/-- A list of letters in a region, written with the recursion on the left: where one level may be
entered for each of the two tokens, the recursion is caught on the second one. -/
theorem runaway_is_left_recursion_letters :
    ∃ g : Grammar, ∃ p names, g.resolve .initial = .ok (p, names) ∧ p.RuleFreeGuards ∧
      p.rules.size * (tokensOf [2]).size ≤ 2 ∧
      ∃ fault, p.attempt .initial (tokensOf [2]) ⟨2, true⟩ p.entry 0 = .error fault ∧
        ∃ name position, fault = .leftRecursion name position := by
  have passes : Grammar.passes letters []
      [("main", .protect (.choice [.seq [.rule "main", .lit "a"], .lit "a"]) (.lit "b"))]
      (fun p => p.hasRuleFreeGuards && decide (p.rules.size * (tokensOf [2]).size ≤ 2) &&
        (p.recursion? (tokensOf [2]) 2).isSome) = true := by
    decide +kernel
  obtain ⟨g, p, names, _, _, resolved, held⟩ := Grammar.exists_of_passes passes
  simp only [Bool.and_eq_true, decide_eq_true_eq] at held
  obtain ⟨⟨guards, enough⟩, stops⟩ := held
  have free := Program.ruleFreeGuards_of_hasRuleFreeGuards guards
  obtain ⟨⟨name, position⟩, found⟩ := Option.isSome_iff_exists.mp stops
  have stopped := Program.attempt_of_recursion? found
  exact ⟨g, p, names, resolved, free, enough, _, stopped,
    (Program.runaway_is_left_recursion resolved .initial (tokensOf [2]) ⟨2, true⟩).1 free enough _
      (Or.inr ⟨p.entry, 0, stopped⟩)⟩

end CombinatorGrammar
