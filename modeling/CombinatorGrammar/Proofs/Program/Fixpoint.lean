import CombinatorGrammar.Proofs.Program.AddedTypes
import CombinatorGrammar.Proofs.Program.Inference

/-!
# The fixpoint of inference

Inference settles where the rules' bodies agree on the numbers of values and no rule is referred to
within a list of its own values. What it ends with then does not change when it is computed once
more, and does not depend on how many node types there are. The first condition holds of every
program in which inference has settled. Without the second one the shapes of a rule may nest ever
deeper, until inference is stopped; and then a grammar may resolve or not as the schema has more or
fewer node types that nothing refers to.
-/

namespace CombinatorGrammar

namespace Matcher

instance (count : RuleRef → Option Nat) (m : Matcher) : Decidable (m.Agrees count) := by
  cases m with
  | choice ms => exact inferInstanceAs (Decidable (∀ i ∈ _, ∀ j ∈ _, i = j))
  | _ => exact instDecidableTrue

/-- What shapes a matcher is a part of it. -/
theorem mem_parts_of_mem_shaping {m : Matcher} {part : Matcher × Bool} (h : part ∈ m.shaping) :
    part.1 ∈ m.parts := by
  induction m generalizing part with
  | seq ms ih | choice ms ih =>
    rcases List.mem_cons.mp h with rfl | among
    · exact mem_parts_self _
    · obtain ⟨m, member, inside⟩ := mem_shapingOfAll.mp among
      exact mem_parts_iff.mpr (Or.inr ⟨m, member, ih m member inside⟩)
  | opt m ih | predicate _ m ih =>
    rcases List.mem_cons.mp h with rfl | among
    · exact mem_parts_self _
    · exact mem_parts_iff.mpr (Or.inr ⟨m, List.mem_singleton_self m, ih among⟩)
  | protect m guard ih =>
    rcases List.mem_cons.mp h with rfl | among
    · exact mem_parts_self _
    · exact mem_parts_iff.mpr (Or.inr ⟨m, List.mem_cons_self, ih among⟩)
  | group m ih | list _ m ih =>
    rcases List.mem_cons.mp h with rfl | among
    · exact mem_parts_self _
    · obtain ⟨inner, inside, rfl⟩ := List.mem_map.mp among
      exact mem_parts_iff.mpr (Or.inr ⟨m, List.mem_singleton_self m, @ih inner inside⟩)
  | sepList _ m separator ih =>
    rcases List.mem_cons.mp h with rfl | among
    · exact mem_parts_self _
    · obtain ⟨inner, inside, rfl⟩ := List.mem_map.mp among
      exact mem_parts_iff.mpr (Or.inr ⟨m, List.mem_cons_self, @ih inner inside⟩)
  | token | rule | cut | skip | null | node | enum =>
    obtain rfl := List.mem_singleton.mp h
    exact mem_parts_self _

end Matcher

namespace RuleSignatures

variable {bodies : List Matcher}

/-- No rule is referred to within a list of its own values if rules can be ranked in such a way that
references do not lead upwards, and within lists lead downwards. -/
theorem unnested_of_rank (rank : RuleRef → Nat)
    (falls : ∀ i j nested, Refers bodies nested i j → rank j + nested.toNat ≤ rank i) :
    Unnested bodies := by
  have reached {i j : RuleRef} (reaches : Reaches bodies i j) : rank j ≤ rank i := by
    induction reaches with
    | refl => exact Nat.le_refl _
    | tail _ refers ih =>
      obtain ⟨nested, refers⟩ := refers
      exact (Nat.le_of_add_right_le (falls _ _ nested refers)).trans ih
  intro i j nested back
  exact Nat.not_succ_le_self _ ((falls i j true nested).trans (reached back))

/-- Whether the counts tell how many values the rules yield. -/
def areCounts (count : RuleRef → Option Nat) (bodies : List Matcher) : Bool :=
  bodies.zipIdx.all fun (body, i) => count ⟨i⟩ == body.arity? count &&
    body.shaping.all fun part => decide (part.1.Agrees count)

/-- Whether the ranks do not rise along references, and fall within lists. -/
def areRanks (rank : RuleRef → Nat) (bodies : List Matcher) : Bool :=
  bodies.zipIdx.all fun (body, i) => body.shaping.all fun
    | (.rule j, nested) => decide (rank j + nested.toNat ≤ rank ⟨i⟩)
    | _ => true

/-- Counts that pass the check are borne out by the bodies. -/
theorem counted_of_areCounts {count : RuleRef → Option Nat} (h : areCounts count bodies = true) :
    Counted bodies count := by
  have checked {i : Nat} {body : Matcher} (found : bodies[i]? = some body) :=
    List.all_eq_true.mp h (body, i) (List.mem_zipIdx_iff_getElem?.mpr found)
  simp only [Bool.and_eq_true, beq_iff_eq, List.all_eq_true, decide_eq_true_eq] at checked
  refine ⟨fun ref body found => (checked found).1, fun body among part inside => ?_⟩
  obtain ⟨i, found⟩ := List.mem_iff_getElem?.mp among
  exact (checked found).2 part inside

/-- Ranks that pass the check show that no rule is within its own lists. -/
theorem unnested_of_areRanks {rank : RuleRef → Nat} (h : areRanks rank bodies = true) :
    Unnested bodies := by
  refine unnested_of_rank rank fun i j nested refers => ?_
  obtain ⟨body, found, inside⟩ := refers
  have checked := List.all_eq_true.mp h (body, i.index) (List.mem_zipIdx_iff_getElem?.mpr found)
  exact of_decide_eq_true (List.all_eq_true.mp checked _ inside)

end RuleSignatures

/-- In a program in which inference has settled, rules' bodies agree on the numbers of values. -/
theorem Program.Inferred.counted {p : Program} (inferred : p.Inferred) (checked : p.Checked) :
    RuleSignatures.Counted (p.rules.toList.map Rule.body) fun ref =>
      (p.signatures.get? ref).map List.length where
  count_eq := by
    intro ref body found
    rw [List.getElem?_map, Array.getElem?_toList] at found
    obtain ⟨rule, here, rfl⟩ := Option.map_eq_some_iff.mp found
    have same : p.signature? rule.body = p.signatures.get? ref := inferred.signature?_body here
    rw [← same]
    exact (p.arity?_eq_length rule.body).symm
  even := by
    intro body among part inside
    obtain ⟨rule, member, rfl⟩ := List.mem_map.mp among
    have valid := checked.valid_part (mem_parts.mpr
      ⟨rule, Array.mem_toList_iff.mp member, Matcher.mem_parts_of_mem_shaping inside⟩)
    obtain ⟨m, nested⟩ := part
    cases m with
    | choice ms =>
      intro i first j second
      obtain ⟨m, among, known⟩ := Matcher.mem_known_arities.mp first
      obtain ⟨m', among', known'⟩ := Matcher.mem_known_arities.mp second
      exact Option.some.inj
        ((valid.choice among known).symm.trans (valid.choice among' known'))
    | _ => trivial

namespace Grammar

open RuleSignatures

variable {g : Grammar} {names : Interner} {entry : RuleRef} {rules : List (String × Matcher)}

/-- If the rules of a grammar agree on the numbers of values, and none is referred to within a list
of its own values, then inference settles within as many rounds as there are rules. Wherever it
settles before it is stopped, it ends with what it has settled at: computing a signature once more
changes nothing, and with one more node type the grammar resolves if and only if it does without. -/
theorem inference_settles (linked : g.link (names.internAll g.texts) = .ok (entry, rules)) :
    let bodies := rules.map Prod.snd
    ((∃ count, Counted bodies count) → Unnested bodies →
      after g.schema bodies (bodies.length + 1) = after g.schema bodies bodies.length ∧
        bodies.length < maxRounds g.schema bodies) ∧
    ∀ n < maxRounds g.schema bodies, after g.schema bodies (n + 1) = after g.schema bodies n →
      infer g.schema bodies = (after g.schema bodies n, after g.schema bodies n) ∧
      (∀ m : Matcher, m.signature? g.schema (infer g.schema bodies).2.get? =
        m.signature? g.schema (infer g.schema bodies).1.get?) ∧
      next g.schema bodies (infer g.schema bodies).2 = (infer g.schema bodies).2 ∧
      ∀ type known, ({ g with schema := g.schema.pushNode type known }.resolve names).isOk =
        (g.resolve names).isOk := by
  intro bodies
  constructor
  · rintro ⟨count, counted⟩ unnested
    refine ⟨after_settles counted unnested, ?_⟩
    rw [maxRounds]
    omega
  · intro n enough settled
    have same := infer_eq_of_settled settled enough
    refine ⟨same, fun m => by rw [same], ?_, fun type known => ?_⟩
    · rw [same, ← after_succ, settled]
    · exact isOk_resolve_begins (Schema.begins_pushNode type known) linked settled enough

/-- Items that are letters, or lists of items in brackets. -/
def nestedItems : Grammar where
  vocabulary := letters
  schema := ((Schema.empty.pushNode ⟨"Item", none, true, false, []⟩ (by simp)).pushNode
    ⟨"Leaf", some ⟨0⟩, false, false, [⟨"name", .token⟩]⟩ (by simp [Schema.pushNode])).pushNode
    ⟨"Group", some ⟨0⟩, false, false, [⟨"items", .list (.node ⟨0⟩)⟩]⟩ (by simp [Schema.pushNode])
  rules := [("main", .list .zeroOrMore (.rule "item")),
    ("item", .choice [.seq [.lit "a", .rule "item", .lit "b"], .rule "leaf",
      .node "Group" (.seq [.lit "a", .rule "main"])]),
    ("leaf", .node "Leaf" (.token (.kind "id") none true))]
  predicates := []
  entry := "main"

/-- Three rules that stand before those that they need: after three rounds no signature changes, and
the grammar resolves with a type that nothing refers to as it does without. -/
theorem inference_settles_nestedItems :
    ∃ entry rules, nestedItems.link (Interner.initial.internAll nestedItems.texts) =
        .ok (entry, rules) ∧
      let bodies := rules.map Prod.snd
      bodies.length = 3 ∧
      after nestedItems.schema bodies 4 = after nestedItems.schema bodies 3 ∧
      infer nestedItems.schema bodies =
        (after nestedItems.schema bodies 3, after nestedItems.schema bodies 3) ∧
      next nestedItems.schema bodies (infer nestedItems.schema bodies).2 =
        (infer nestedItems.schema bodies).2 ∧
      ({ nestedItems with
        schema := nestedItems.schema.pushNode ⟨"Unused", none, false, false, []⟩ (by simp) }.resolve
          .initial).isOk = true := by
  have checked : (match nestedItems.link (Interner.initial.internAll nestedItems.texts) with
      | .ok (_, rules) => rules.length == 3 && areCounts (fun _ => some 1) (rules.map Prod.snd) &&
        areRanks (fun ref => 2 - ref.index) (rules.map Prod.snd)
      | .error _ => false) = true := by decide +kernel
  have resolved : (nestedItems.resolve .initial).isOk = true := by decide +kernel
  split at checked
  · next entry rules linked =>
    simp only [Bool.and_eq_true, beq_iff_eq] at checked
    obtain ⟨⟨length, counts⟩, ranks⟩ := checked
    have three : (rules.map Prod.snd).length = 3 := by rw [List.length_map, length]
    obtain ⟨settles, ends⟩ := inference_settles linked
    obtain ⟨settled, enough⟩ :=
      settles ⟨_, counted_of_areCounts counts⟩ (unnested_of_areRanks ranks)
    rw [three] at settled enough
    obtain ⟨same, _, stays, types⟩ := ends 3 enough settled
    exact ⟨entry, rules, linked, three, settled, same, stays, (types _ _).trans resolved⟩
  · cases checked

/-- Each round nests the shape of a group of itself once more. -/
theorem get?_after_group_self (schema : Schema) (n : Nat) :
    (after schema [.group (.rule ⟨0⟩)] (n + 1)).get? ⟨0⟩ = some [Shape.list^[n + 1] .null] := by
  induction n with
  | zero => rfl
  | succ n ih =>
    rw [get?_after_succ rfl, Matcher.signature?, Matcher.signature?, ih,
      Function.iterate_succ_apply' Shape.list (n + 1), Signature.groupElement, List.foldl_cons,
      List.foldl_nil, Function.iterate_succ_apply' Shape.list n]
    rfl

/-- So over no schema any number of rounds settles the signature of such a rule. -/
theorem not_settled_of_group_self (schema : Schema) (n : Nat) :
    after schema [.group (.rule ⟨0⟩)] (n + 1) ≠ after schema [.group (.rule ⟨0⟩)] n := by
  intro settled
  have same : after schema [.group (.rule ⟨0⟩)] (n + 2) =
      after schema [.group (.rule ⟨0⟩)] (n + 1) :=
    (after_stays settled (Nat.le_add_right n 2)).trans settled.symm
  have nested := (get?_after_group_self schema (n + 1)).symm.trans
    ((congrArg (RuleSignatures.get? · ⟨0⟩) same).trans (get?_after_group_self schema n))
  rw [Option.some.injEq, List.cons.injEq, Function.iterate_succ_apply'] at nested
  simpa using congrArg sizeOf nested.1

/-- The grammar of letters around groups of themselves, in a field. -/
def bracketed (schema : Schema) : Grammar where
  vocabulary := letters
  schema := schema
  rules := [("main", .node "T" (.rule "brackets")),
    ("brackets", .seq [.lit "a", .group (.rule "brackets"), .lit "b"])]
  predicates := []
  entry := "main"

/-- The schema of one type, whose field is a list of lists of tokens, thirteen of them. -/
def deepField : Schema :=
  Schema.empty.pushNode ⟨"T", none, false, false, [⟨"f", FieldKind.list^[13] .token⟩]⟩ (by simp)

/-- The shape fits the field when inference is stopped, unless there is another type. -/
theorem resolves_only_without_unused :
    ((bracketed deepField).resolve .initial).isOk = true ∧
      ((bracketed (deepField.pushNode ⟨"Unused", none, false, false, []⟩ (by simp))).resolve
        .initial).isOk = false := by
  constructor <;> decide +kernel

end Grammar

end CombinatorGrammar
