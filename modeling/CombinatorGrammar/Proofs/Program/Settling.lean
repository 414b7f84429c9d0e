import CombinatorGrammar.Proofs.Program.Sources
import Mathlib.Logic.Relation

/-!
# Settled inference

A round of inference finds out something new about a rule only if the round before has found out
something new about a rule that it refers to. Let the rules' bodies agree on the numbers of values,
and let no rule be referred to within a list of its own values. Then going back in this way never
comes to a rule twice: the second time the finding would be the same one, and what has been found is
not lost. So inference settles within as many rounds as there are rules.
-/

namespace CombinatorGrammar

namespace RuleSignatures

/-- The body of the first rule refers to the second one where its signature is computed from, within
a list or not. -/
def Refers (bodies : List Matcher) (nested : Bool) (i j : RuleRef) : Prop :=
  ∃ body, bodies[i.index]? = some body ∧ (.rule j, nested) ∈ body.shaping

/-- The first rule is the second one, or refers to it through others. -/
def Reaches (bodies : List Matcher) : RuleRef → RuleRef → Prop :=
  Relation.ReflTransGen fun i j => ∃ nested, Refers bodies nested i j

/-- No rule is referred to within a list of its own values. -/
def Unnested (bodies : List Matcher) : Prop :=
  ∀ i j, Refers bodies true i j → ¬ Reaches bodies j i

/-- The counts tell how many values the rules yield: as many as their bodies do, in which the known
alternatives of every choice yield equally many. -/
structure Counted (bodies : List Matcher) (count : RuleRef → Option Nat) : Prop where
  count_eq : ∀ ref body, bodies[ref.index]? = some body → count ref = body.arity? count
  even : ∀ body ∈ bodies, body.Even count

variable {schema : Schema} {bodies : List Matcher} {count : RuleRef → Option Nat} {m n : Nat}
  {ref : RuleRef} {F : Finding}

/-- After one more round, a rule has the signature that its body had after the rounds before. -/
theorem get?_after_succ {body : Matcher} (found : bodies[ref.index]? = some body) :
    (after schema bodies (n + 1)).get? ref =
      body.signature? schema (after schema bodies n).get? := by
  rw [after_succ, get?_next, found, Option.bind_some]

/-- Before the first round no rule has a signature. -/
theorem get?_after_zero (ref : RuleRef) : (after schema bodies 0).get? ref = none :=
  Option.not_isSome_iff_eq_none.mp (not_knownAfter_zero ref)

/-- A rule with a known signature has a body. -/
theorem exists_body {s : Signature} (known : (after schema bodies n).get? ref = some s) :
    ∃ body, bodies[ref.index]? = some body := by
  have later : KnownAfter schema bodies (n + 1) ref :=
    KnownAfter.succ (Option.isSome_iff_exists.mpr ⟨s, known⟩)
  obtain ⟨body, found, _⟩ := knownAfter_succ.mp later
  exact ⟨body, found⟩

section

variable (counted : Counted bodies count)

include counted

/-- After any round, signatures have as many places as the bodies yield values. -/
theorem counts_after (n : Nat) : Matcher.Counts count (after schema bodies n).get? := by
  induction n with
  | zero =>
    intro ref s known
    rw [get?_after_zero] at known
    cases known
  | succ n ih =>
    intro ref s known
    obtain ⟨body, found⟩ := exists_body known
    rw [get?_after_succ found] at known
    rw [counted.count_eq ref body found]
    exact (counted.even body (List.mem_of_getElem? found)).arity?_eq ih known

/-- What one round has found out about a rule and another has not, goes back to what was read. -/
theorem exists_source (made : F.Of schema ((after schema bodies (m + 1)).get? ref))
    (before : ¬ F.Of schema ((after schema bodies (n + 1)).get? ref)) :
    ∃ body a, bodies[ref.index]? = some body ∧ count ref = some a ∧
      Matcher.Source schema count (after schema bodies n).get? (after schema bodies m).get? a F
        body.shaping := by
  obtain ⟨s, known⟩ := made.exists_eq
  obtain ⟨body, found⟩ := exists_body known
  have number := counts_after counted _ ref s known
  rw [get?_after_succ found] at made before
  refine ⟨body, s.length, found, number, ?_⟩
  exact Matcher.traced (counts_after counted m) (counts_after counted n) body
    (counted.even body (List.mem_of_getElem? found)) s.length F
    ((counted.count_eq ref body found).symm.trans number) made before

/-- What has been found is not lost. -/
theorem finding_succ (made : F.Of schema ((after schema bodies n).get? ref)) :
    F.Of schema ((after schema bodies (n + 1)).get? ref) := by
  induction n generalizing ref F with
  | zero =>
    obtain ⟨s, known⟩ := made.exists_eq
    rw [get?_after_zero] at known
    cases known
  | succ n ih =>
    by_contra lost
    obtain ⟨_, _, _, _, source, _, G, _, _, made, missing, _⟩ := exists_source counted made lost
    exact missing (ih made)

/-- A finding that is made after some rounds is made after more. -/
theorem finding_mono (made : F.Of schema ((after schema bodies m).get? ref)) (later : m ≤ n) :
    F.Of schema ((after schema bodies n).get? ref) := by
  induction later with
  | refl => exact made
  | step _ ih => exact finding_succ counted ih

end

/-- What a round finds out about a rule and the rounds before have not. -/
structure Novelty (schema : Schema) (bodies : List Matcher) where
  /-- The number of rounds before. -/
  round : Nat
  rule : RuleRef
  finding : Finding
  made : finding.Of schema ((after schema bodies (round + 1)).get? rule)
  new : ¬ finding.Of schema ((after schema bodies round).get? rule)

namespace Novelty

/-- The first rule reaches the second one through a reference within a list. -/
def Nested (bodies : List Matcher) (i j : RuleRef) : Prop :=
  ∃ k l, Reaches bodies i k ∧ Refers bodies true k l ∧ Reaches bodies l j

/-- The first novelty goes back to the second one, which is of an earlier round: within a list, or
from finding to finding. -/
structure Follows (count : RuleRef → Option Nat) (x y : Novelty schema bodies) : Prop where
  round_lt : y.round < x.round
  reaches : Reaches bodies x.rule y.rule
  back : Nested bodies x.rule y.rule ∨ ∃ a b, count x.rule = some a ∧ count y.rule = some b ∧
    Finding.GoesBackTo a b x.finding y.finding

variable {x y z : Novelty schema bodies}

/-- What follows a point that follows another one follows that one too. -/
theorem Follows.trans (first : x.Follows count y) (second : y.Follows count z) :
    x.Follows count z where
  round_lt := second.round_lt.trans first.round_lt
  reaches := first.reaches.trans second.reaches
  back := by
    rcases first.back with ⟨k, l, up, nested, down⟩ | ⟨a, b, number, number', back⟩
    · exact Or.inl ⟨k, l, up, nested, down.trans second.reaches⟩
    · rcases second.back with ⟨k, l, up, nested, down⟩ | ⟨_, c, same, number'', further⟩
      · exact Or.inl ⟨k, l, first.reaches.trans up, nested, down⟩
      · obtain rfl := Option.some.inj (number'.symm.trans same)
        exact Or.inr ⟨a, c, number, number'', back.trans further⟩

section

variable (counted : Counted bodies count)

include counted

/-- A novelty of a later round goes back to one of the round before. -/
theorem exists_follows (later : x.round = n + 1) :
    ∃ y : Novelty schema bodies, y.round = n ∧ x.Follows count y := by
  obtain ⟨round, rule, F, made, new⟩ := x
  obtain rfl : round = n + 1 := later
  obtain ⟨body, a, found, number, source, nested, G, b, among, made', new', number', back⟩ :=
    exists_source counted made new
  have refers : Refers bodies nested rule source := ⟨body, found, among⟩
  refine ⟨⟨n, source, G, made', new'⟩, rfl, Nat.lt_succ_self n, .single ⟨nested, refers⟩, ?_⟩
  rcases back with rfl | back
  · exact Or.inl ⟨rule, source, .refl, refers, .refl⟩
  · exact Or.inr ⟨a, b, number, number', back⟩

/-- Every novelty goes back through all the rounds before. -/
theorem exists_history (x : Novelty schema bodies) :
    ∃ earlier : List (Novelty schema bodies),
      earlier.length = x.round ∧ (x :: earlier).Pairwise (Follows count) := by
  induction number : x.round generalizing x with
  | zero => exact ⟨[], rfl, List.pairwise_singleton _ x⟩
  | succ n ih =>
    obtain ⟨y, before, follows⟩ := exists_follows counted number
    obtain ⟨earlier, all, pairwise⟩ := ih y before
    refine ⟨y :: earlier, congrArg (· + 1) all, List.pairwise_cons.mpr ⟨?_, pairwise⟩⟩
    refine List.forall_mem_cons.mpr ⟨follows, fun z among => ?_⟩
    exact follows.trans ((List.pairwise_cons.mp pairwise).1 z among)

/-- Going back never comes to a rule twice. -/
theorem Follows.rule_ne (unnested : Unnested bodies) (h : x.Follows count y) :
    x.rule ≠ y.rule := by
  intro same
  rcases h.back with ⟨k, l, up, nested, down⟩ | ⟨a, b, number, number', back⟩
  · exact unnested k l nested (down.trans (same ▸ up))
  · rw [same] at number
    obtain rfl := Option.some.inj (number.symm.trans number')
    refine x.new ?_
    rw [same, ← back.eq]
    exact finding_mono counted y.made h.round_lt

/-- There are no more rounds with novelties than rules. -/
theorem round_lt (unnested : Unnested bodies) (x : Novelty schema bodies) :
    x.round < bodies.length := by
  obtain ⟨earlier, all, pairwise⟩ := exists_history counted x
  have inside (y : Novelty schema bodies) : y.rule.index ∈ List.range bodies.length := by
    obtain ⟨s, known⟩ := y.made.exists_eq
    obtain ⟨body, found⟩ := exists_body known
    exact List.mem_range.mpr (List.getElem?_eq_some_iff.mp found).1
  have distinct : ((x :: earlier).map fun y => y.rule.index).Nodup := by
    refine List.Pairwise.map _ (fun y z follows same => ?_) pairwise
    exact follows.rule_ne counted unnested (congrArg RuleRef.mk same)
  have few := (List.subperm_of_subset distinct (List.forall_mem_map.mpr fun y _ =>
    inside y)).length_le
  rw [List.length_map, List.length_range, List.length_cons, all] at few
  exact few

end

end Novelty

/-- After any round there is a place for each body. -/
theorem size_after (n : Nat) : (after schema bodies n).size = bodies.length := by
  cases n with
  | zero => exact Array.size_replicate
  | succ n => rw [after_succ, size_next]

/-- Inference settles within as many rounds as there are rules. -/
theorem after_settles (counted : Counted bodies count) (unnested : Unnested bodies) :
    after schema bodies (bodies.length + 1) = after schema bodies bodies.length := by
  refine ext_get? ((size_after _).trans (size_after _).symm) fun ref _ => ?_
  refine Finding.eq_of_same schema (fun s s' known known' => ?_) fun F => ⟨?_, ?_⟩
  · exact Option.some.inj ((counts_after counted _ ref s known).symm.trans
      (counts_after counted _ ref s' known'))
  · intro made
    by_contra new
    have round_lt := Novelty.round_lt counted unnested ⟨bodies.length, ref, F, made, new⟩
    exact Nat.lt_irrefl _ round_lt
  · exact finding_succ counted

/-- If a round changes nothing before inference is stopped, then this is what it ends with. -/
theorem infer_eq_of_settled (settled : after schema bodies (n + 1) = after schema bodies n)
    (enough : n < maxRounds schema bodies) :
    infer schema bodies = (after schema bodies n, after schema bodies n) := by
  have read : (infer schema bodies).1 = after schema bodies n :=
    (infer_fst schema bodies).trans (after_stays settled (Nat.le_sub_one_of_lt enough))
  refine Prod.ext read ?_
  rw [infer_snd, read, ← after_succ, settled]

end RuleSignatures

end CombinatorGrammar
