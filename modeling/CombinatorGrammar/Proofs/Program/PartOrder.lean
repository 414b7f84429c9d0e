import CombinatorGrammar.Proofs.Program.Dependence
import CombinatorGrammar.Proofs.Program.Rounds
import CombinatorGrammar.Proofs.Values.ShapeOrder

/-!
# The order of parts

A choice yields the joins of what its alternatives yield, place by place, and the elements of an
optional group have the join of the shapes that its operand yields. A join is a least upper bound,
so it is the same in whatever order and in whatever groups the parts are joined. The number of
values of a choice is not joined: it is that of the first known alternative, and alternatives that
yield another number are left out. So alternatives may change places as long as those that come
first yield equally many values; where known alternatives disagree, the choice is refused.
-/

namespace CombinatorGrammar

namespace Signature

variable {schema : Schema} {s t u : Signature} {known known' : List (Option Signature)}

/-- The shapes of the first signature are below those of the second one, place by place. -/
def Below (schema : Schema) (s t : Signature) : Prop := List.Forall₂ (Shape.Below schema) s t

/-- A signature is below itself. -/
theorem Below.refl (schema : Schema) (s : Signature) : s.Below schema s :=
  List.forall₂_same.mpr fun shape _ => .refl schema shape

/-- Signatures below each other are the same. -/
theorem Below.antisymm (first : s.Below schema t) (second : t.Below schema s) : s = t := by
  induction first with
  | nil => rfl
  | cons here _ ih =>
    cases second with
    | cons here' rest' => rw [here.antisymm here', ih rest']

/-- Signatures below the same signatures are the same. -/
theorem eq_of_below_iff (schema : Schema) (same : ∀ u, s.Below schema u ↔ t.Below schema u) :
    s = t :=
  ((same t).mpr (.refl schema t)).antisymm ((same s).mp (.refl schema s))

/-- Signatures of one length are joined to the least signature above both. -/
theorem zipWith_join_below_iff (even : s.length = t.length) :
    Below schema (List.zipWith (Shape.join schema) s t) u ↔
      s.Below schema u ∧ t.Below schema u := by
  induction s generalizing t u with
  | nil =>
    rw [List.eq_nil_of_length_eq_zero even.symm, List.zipWith_nil_left]
    exact (and_self_iff).symm
  | cons a s ih =>
    cases t with
    | nil => cases even
    | cons b t =>
      cases u with
      | nil => simp [Below]
      | cons c u =>
        have rest := ih (Nat.succ.inj even) (u := u)
        unfold Below at rest ⊢
        rw [List.zipWith_cons_cons, List.forall₂_cons, List.forall₂_cons, List.forall₂_cons,
          Shape.join_below_iff, rest]
        exact and_and_and_comm

/-- Signatures of one length are joined to the least signature above all of them. -/
theorem foldl_zipWith_join_below_iff {others : List Signature}
    (even : ∀ t ∈ others, t.length = s.length) :
    Below schema (others.foldl (fun joined t => List.zipWith (Shape.join schema) joined t) s) u ↔
      s.Below schema u ∧ ∀ t ∈ others, t.Below schema u := by
  induction others generalizing s with
  | nil => simp
  | cons t others ih =>
    obtain ⟨here, rest⟩ := List.forall_mem_cons.mp even
    have kept : (List.zipWith (Shape.join schema) s t).length = s.length := by simp [here]
    rw [List.foldl_cons, ih fun u among => (rest u among).trans kept.symm,
      zipWith_join_below_iff here.symm, List.forall_mem_cons, and_assoc]

/-- The number of values that the first known alternative yields. -/
def leading? (known : List (Option Signature)) : Option Nat :=
  (known.filterMap id).head?.map List.length

/-- Alternatives that are known yield equally many values. -/
def Agree (known : List (Option Signature)) : Prop :=
  ∀ s t, some s ∈ known → some t ∈ known → s.length = t.length

/-- A signature is among the known ones if it is known of some part. -/
theorem mem_filterMap_id_iff : s ∈ known.filterMap id ↔ some s ∈ known := by simp

/-- A choice yields as many values as its first known alternative. -/
theorem length_alternatives (schema : Schema) (known : List (Option Signature)) :
    (alternatives schema known).map List.length = leading? known := by
  rw [alternatives, leading?]
  cases known.filterMap id with
  | nil => rfl
  | cons first others =>
    rw [Option.map_some, length_foldl_join schema first _ fun t among => by
      simpa using (List.mem_filter.mp among).2]
    rfl

/-- A choice is the least signature above those of its alternatives that yield as many values. -/
theorem alternatives_below_iff (found : alternatives schema known = some s) :
    s.Below schema u ↔ ∀ t, some t ∈ known → t.length = s.length → t.Below schema u := by
  have length := length_alternatives schema known
  rw [found, leading?] at length
  rw [alternatives] at found
  simp only [← mem_filterMap_id_iff]
  cases listed : known.filterMap id with
  | nil =>
    rw [listed] at found
    cases found
  | cons first others =>
    rw [listed] at found length
    have length : s.length = first.length := Option.some.inj length
    rw [← Option.some.inj found, foldl_zipWith_join_below_iff fun t among => by
      simpa using (List.mem_filter.mp among).2, Option.some.inj found, length]
    simp only [List.mem_filter, beq_iff_eq, List.forall_mem_cons, forall_const, and_imp]

/-- A choice depends on how many values it yields, and on what its alternatives of so many values
have above them. -/
theorem alternatives_congr (lead : leading? known = leading? known')
    (same : ∀ n u, (∀ t, some t ∈ known → t.length = n → t.Below schema u) ↔
      ∀ t, some t ∈ known' → t.length = n → t.Below schema u) :
    alternatives schema known = alternatives schema known' := by
  rw [← length_alternatives schema, ← length_alternatives schema] at lead
  cases found : alternatives schema known with
  | none =>
    rw [found] at lead
    exact (Option.map_eq_none_iff.mp lead.symm).symm
  | some s =>
    rw [found] at lead
    obtain ⟨t, found', length⟩ := Option.map_eq_some_iff.mp lead.symm
    have equal : s = t := eq_of_below_iff schema fun u => by
      rw [alternatives_below_iff found, alternatives_below_iff found', same, length]
    rw [found', equal]

/-- Alternatives may change places if and only if those that come first yield equally many
values. -/
theorem alternatives_perm_iff (perm : known.Perm known') :
    alternatives schema known = alternatives schema known' ↔ leading? known = leading? known' := by
  constructor
  · intro same
    rw [← length_alternatives schema, same, length_alternatives]
  · intro lead
    exact alternatives_congr lead fun n u => by simp only [perm.mem_iff]

/-- The leading number is that of a signature that is known. -/
theorem exists_mem_of_leading? {n : Nat} (lead : leading? known = some n) :
    ∃ s, some s ∈ known ∧ s.length = n := by
  obtain ⟨s, first, length⟩ := Option.map_eq_some_iff.mp lead
  exact ⟨s, mem_filterMap_id_iff.mp (List.mem_of_head? first), length⟩

/-- The first known signature is that of the first part that has one, or of the second. -/
theorem leading?_append (known known' : List (Option Signature)) :
    leading? (known ++ known') = (leading? known).or (leading? known') := by
  rw [leading?, leading?, leading?, List.filterMap_append, List.head?_append]
  cases (known.filterMap id).head? <;> rfl

/-- Any known alternative yields as many values as the first, if all agree. -/
theorem Agree.leading?_eq (agree : Agree known) (among : some s ∈ known) :
    leading? known = some s.length := by
  cases lead : leading? known with
  | none =>
    rw [leading?, Option.map_eq_none_iff, List.head?_eq_none_iff] at lead
    rw [← mem_filterMap_id_iff, lead] at among
    cases among
  | some n =>
    obtain ⟨t, other, rfl⟩ := exists_mem_of_leading? lead
    rw [agree s t among other]

/-- Alternatives that agree yield so many values in whatever order. -/
theorem Agree.leading?_perm (agree : Agree known) (perm : known.Perm known') :
    leading? known = leading? known' := by
  have agree' : Agree known' := fun s t first second =>
    agree s t (perm.mem_iff.mpr first) (perm.mem_iff.mpr second)
  cases lead : leading? known' with
  | none =>
    cases other : leading? known with
    | none => rfl
    | some n =>
      obtain ⟨s, among, rfl⟩ := exists_mem_of_leading? other
      rw [agree'.leading?_eq (perm.mem_iff.mp among)] at lead
      cases lead
  | some n =>
    obtain ⟨s, among, rfl⟩ := exists_mem_of_leading? lead
    exact agree.leading?_eq (perm.mem_iff.mpr among)

/-- A choice among alternatives that agree can be an alternative of its own. -/
theorem alternatives_nested (before after : List (Option Signature)) (agree : Agree known) :
    alternatives schema (before ++ alternatives schema known :: after) =
      alternatives schema (before ++ known ++ after) := by
  have inner : leading? [alternatives schema known] = leading? known := by
    rw [← length_alternatives schema known]
    cases alternatives schema known <;> rfl
  refine alternatives_congr ?_ fun n u => ?_
  · rw [List.append_cons, leading?_append, leading?_append, leading?_append, leading?_append, inner]
  · have nested : (∀ t, some t = alternatives schema known → t.length = n → t.Below schema u) ↔
        ∀ t, some t ∈ known → t.length = n → t.Below schema u := by
      cases found : alternatives schema known with
      | none =>
        have unknown : ∀ t, some t ∉ known := fun t among => by
          have some := isSome_alternatives schema among
          rw [found] at some
          cases some
        simp [unknown]
      | some s =>
        have length (t : Signature) (among : some t ∈ known) : t.length = s.length := by
          have lead := length_alternatives schema known
          rw [found, agree.leading?_eq among] at lead
          exact (Option.some.inj lead).symm
        simp only [Option.some.injEq, forall_eq]
        constructor
        · intro below t among even
          exact (alternatives_below_iff found).mp (below ((length t among).symm.trans even)) t among
            (length t among)
        · intro each even
          exact (alternatives_below_iff found).mpr fun t among same =>
            each t among (same.trans even)
    simp only [List.mem_append, List.mem_cons, or_imp, forall_and, nested]
    exact ⟨fun ⟨first, here, last⟩ => ⟨⟨first, here⟩, last⟩,
      fun ⟨⟨first, here⟩, last⟩ => ⟨first, here, last⟩⟩

/-- The elements of a group have the least shape above all that its operand yields. -/
theorem groupElement_below_iff {found : Option Signature} {u : Shape} :
    (groupElement schema found).Below schema u ↔
      ∀ s, found = some s → ∀ t ∈ s, t.Below schema u := by
  cases found with
  | none => exact ⟨fun _ => nofun, fun _ => .null u⟩
  | some s =>
    rw [groupElement, Shape.foldl_join_below_iff]
    simp only [Option.some.injEq, forall_eq', and_iff_right (Shape.Below.null u)]

/-- The elements of a group have the join of what any two parts of its operand yield. -/
theorem groupElement_append (schema : Schema) (s t : Signature) :
    groupElement schema (some (s ++ t)) =
      (groupElement schema (some s)).join schema (groupElement schema (some t)) := by
  refine Shape.eq_of_below_iff schema fun u => ?_
  rw [Shape.join_below_iff, groupElement_below_iff, groupElement_below_iff, groupElement_below_iff]
  simp only [Option.some.injEq, forall_eq', List.forall_mem_append]

/-- The shapes of parts one after the other are those of each part. -/
theorem mem_of_concat {items : List (Option Signature)} (whole : concat items = some s)
    (shape : Shape) : shape ∈ s ↔ ∃ part, some part ∈ items ∧ shape ∈ part := by
  induction items generalizing s with
  | nil =>
    obtain rfl := Option.some.inj whole
    simp
  | cons item items ih =>
    obtain ⟨first, rest, rfl, found, rfl⟩ := concat_cons_eq_some_iff.mp whole
    simp [ih found, or_and_right, exists_or]

/-- The items of a sequence within a group may change places. -/
theorem groupElement_concat_perm {items items' : List (Option Signature)}
    (perm : items.Perm items') :
    groupElement schema (concat items) = groupElement schema (concat items') := by
  have known : (concat items).isSome = true ↔ (concat items').isSome = true := by
    rw [isSome_concat_iff, isSome_concat_iff]
    simp only [perm.mem_iff]
  refine Shape.eq_of_below_iff schema fun u => ?_
  rw [groupElement_below_iff, groupElement_below_iff]
  cases found : concat items with
  | none =>
    have unknown : concat items' = none := by
      rw [← Option.not_isSome_iff_eq_none, ← known, found]
      exact Bool.false_ne_true
    rw [unknown]
  | some s =>
    rw [found] at known
    obtain ⟨s', found'⟩ := Option.isSome_iff_exists.mp (known.mp rfl)
    rw [found']
    simp only [Option.some.injEq, forall_eq', mem_of_concat found, mem_of_concat found',
      perm.mem_iff]

/-- A sequence can be an item of its own. -/
theorem concat_nested (before items after : List (Option Signature)) :
    concat (before ++ concat items :: after) = concat (before ++ items ++ after) := by
  have joined (items : List (Option Signature)) :
      concat (concat items :: after) = concat (items ++ after) := by
    induction items with
    | nil => simp
    | cons item items ih =>
      cases item with
      | none => simp
      | some s =>
        rw [List.cons_append, concat_some, concat_some, ← ih]
        cases concat items <;> simp [Function.comp_def]
  induction before with
  | nil => exact joined items
  | cons item before ih =>
    cases item with
    | none => simp
    | some s =>
      rw [List.cons_append, List.cons_append, List.cons_append, concat_some, concat_some, ih]

end Signature

/-- The alternatives whose numbers of values are known yield equally many. -/
def Matcher.Agree (schema : Schema) (known : RuleSignatures) (ms : List Matcher) : Prop :=
  Signature.Agree (ms.map (signature? schema known.get?))

/-- The number of values that the first known alternative yields. -/
def Matcher.leading? (schema : Schema) (known : RuleSignatures) (ms : List Matcher) : Option Nat :=
  Signature.leading? (ms.map (signature? schema known.get?))

/-- A choice is refused if and only if its known alternatives do not agree. -/
theorem Validation.choiceDefects_eq_nil_iff {v : Validation} {ms : List Matcher} :
    v.choiceDefects ms = [] ↔ Matcher.Agree v.schema v.rules ms := by
  have listed (n : Nat) : n ∈ ms.filterMap v.arity? ↔
      ∃ s, some s ∈ ms.map v.signature? ∧ s.length = n := by
    simp only [List.mem_filterMap, Validation.arity?, Option.map_eq_some_iff, List.mem_map]
    constructor
    · rintro ⟨m, among, s, found, length⟩
      exact ⟨s, ⟨m, among, found⟩, length⟩
    · rintro ⟨s, ⟨m, among, found⟩, length⟩
      exact ⟨m, among, s, found, length⟩
  have even : Matcher.Agree v.schema v.rules ms ↔
      ∀ i ∈ ms.filterMap v.arity?, ∀ j ∈ ms.filterMap v.arity?, i = j := by
    constructor
    · intro agree i first j second
      obtain ⟨s, among, rfl⟩ := (listed i).mp first
      obtain ⟨t, other, rfl⟩ := (listed j).mp second
      exact agree s t among other
    · intro equal s t among other
      exact equal _ ((listed _).mpr ⟨s, among, rfl⟩) _ ((listed _).mpr ⟨t, other, rfl⟩)
  rw [even, choiceDefects]
  cases ms.filterMap v.arity? with
  | nil => simp
  | cons expected others =>
    cases found : others.find? (· != expected) with
    | none =>
      have same : ∀ i ∈ expected :: others, i = expected :=
        List.forall_mem_cons.mpr ⟨rfl, by simpa using found⟩
      simp only [found, true_iff]
      exact fun i first j second => (same i first).trans (same j second).symm
    | some other =>
      have differs : other ≠ expected := by simpa using List.find?_some found
      simp only [found, List.cons_ne_nil, false_iff]
      have later : other ∈ expected :: others :=
        List.mem_cons_of_mem _ (List.mem_of_find?_eq_some found)
      exact fun equal => differs (equal other later expected List.mem_cons_self)

/-- What is joined is the same in every order and grouping: the alternatives of choices and the
values of optional groups. -/
structure RuleSignatures.JoinsParts (schema : Schema) (known : RuleSignatures) : Prop where
  /-- Alternatives that agree may stand in any order. -/
  choice_order : ∀ ms ms' : List Matcher, ms.Perm ms' → Matcher.Agree schema known ms →
    (Matcher.choice ms).signature? schema known.get? =
      (Matcher.choice ms').signature? schema known.get?
  /-- Any alternatives may change places if and only if the known ones that come first yield equally
  many values. -/
  choice_order_iff : ∀ ms ms' : List Matcher, ms.Perm ms' →
    ((Matcher.choice ms).signature? schema known.get? =
        (Matcher.choice ms').signature? schema known.get? ↔
      Matcher.leading? schema known ms = Matcher.leading? schema known ms')
  /-- Alternatives that agree may be a choice of their own. -/
  choice_grouping : ∀ before ms after : List Matcher, Matcher.Agree schema known ms →
    (Matcher.choice (before ++ .choice ms :: after)).signature? schema known.get? =
      (Matcher.choice (before ++ ms ++ after)).signature? schema known.get?
  /-- Alternatives that do not agree are refused. -/
  choice_refused : ∀ (rule : String) (ms : List Matcher),
    Validation.choiceDefects ⟨schema, known, rule⟩ ms = [] ↔ Matcher.Agree schema known ms
  /-- Items of a group may stand in any order. -/
  group_order : ∀ ms ms' : List Matcher, ms.Perm ms' →
    (Matcher.group (.seq ms)).signature? schema known.get? =
      (Matcher.group (.seq ms')).signature? schema known.get?
  /-- Items of a group may be a sequence of their own. -/
  group_grouping : ∀ before ms after : List Matcher,
    (Matcher.group (.seq (before ++ .seq ms :: after))).signature? schema known.get? =
      (Matcher.group (.seq (before ++ ms ++ after))).signature? schema known.get?
  /-- The values of a group may be joined in two parts. -/
  group_parts : ∀ s t : Signature, Signature.groupElement schema (some (s ++ t)) =
    (Signature.groupElement schema (some s)).join schema (Signature.groupElement schema (some t))

/-- Signatures join parts in whichever order and grouping, as joining shapes is a semilattice. -/
theorem RuleSignatures.joinsParts (schema : Schema) (known : RuleSignatures) :
    known.JoinsParts schema where
  choice_order ms ms' perm agree := by
    simp only [Matcher.signature?, Matcher.signatures_eq_map]
    exact (Signature.alternatives_perm_iff (perm.map _)).mpr (agree.leading?_perm (perm.map _))
  choice_order_iff ms ms' perm := by
    simp only [Matcher.signature?, Matcher.signatures_eq_map]
    exact Signature.alternatives_perm_iff (perm.map _)
  choice_grouping before ms after agree := by
    simp only [Matcher.signature?, Matcher.signatures_eq_map, List.map_append, List.map_cons]
    exact Signature.alternatives_nested _ _ agree
  choice_refused rule ms := Validation.choiceDefects_eq_nil_iff (v := ⟨schema, known, rule⟩)
  group_order ms ms' perm := by
    simp only [Matcher.signature?, Matcher.signatures_eq_map]
    rw [Signature.groupElement_concat_perm (perm.map _)]
  group_grouping before ms after := by
    simp only [Matcher.signature?, Matcher.signatures_eq_map, List.map_append, List.map_cons]
    rw [Signature.concat_nested]
  group_parts := Signature.groupElement_append schema

/-- Shapes under join are a semilattice over the forest of types. Deriving from is a partial order,
every walk to the ancestors of a type ends, and the common ancestor of two types is the least type
above both, if there is any. Joining shapes is commutative, associative and idempotent, a null is
neutral and the shape that says nothing absorbs all others. So it does not matter in which order and
grouping the values of an optional group or the alternatives of a choice are joined, as long as
these yield equally many values. -/
theorem Shape.join_semilattice (schema : Schema) :
    schema.Forest ∧ Shape.JoinLaws schema ∧
      ∀ known : RuleSignatures, known.JoinsParts schema :=
  ⟨schema.forest, Shape.joinLaws schema, fun known => known.joinsParts schema⟩

/-- A choice between nothing and a kept token, and the same choice the other way round, as the
alternatives of a choice. -/
def Grammar.eitherOrder : Grammar :=
  ⟨letters, .empty, [("main", .choice [.choice [.seq [], .kind "id"],
    .choice [.kind "id", .seq []]])], [], "main"⟩

/-- The choice yields no value or one, depending on which alternative comes first. So the choice
between both orders is refused as well, since its alternatives yield different numbers of values. -/
theorem Grammar.choice_order_matters :
    [Matcher.seq [], .token ⟨1⟩ none true].Perm [.token ⟨1⟩ none true, .seq []] ∧
      (Matcher.choice [.seq [], .token ⟨1⟩ none true]).signature? .empty (RuleSignatures.get? #[]) =
        some [] ∧
      (Matcher.choice [.token ⟨1⟩ none true, .seq []]).signature? .empty (RuleSignatures.get? #[]) =
        some [.token] ∧
      eitherOrder.resolve .initial = .error
        [.arityMismatch "main" .alternatives 0 1, .arityMismatch "main" .alternatives 1 0,
          .arityMismatch "main" .alternatives 0 1] :=
  ⟨.swap .., rfl, rfl, resolve_eq_error_iff.mpr (by decide +kernel)⟩

end CombinatorGrammar
