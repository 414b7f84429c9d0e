import CombinatorGrammar.Proofs.Program.Rounds
import CombinatorGrammar.Proofs.Values.ShapeOrder

/-!
# Findings about signatures

What a round of inference can find out about a matcher is that it has a signature, or that the
shape in one place of it is not below a bound. Signatures of one length are the same if the same is
found about them. Where the known alternatives of choices yield equally many values, the length of
a signature is the number of values that its matcher yields, and what is found about a choice is
what is found about one of its alternatives.
-/

namespace CombinatorGrammar

/-- What can be found out about a signature. -/
inductive Finding where
  /-- The signature is known. -/
  | known
  /-- The shape at a place is not below the bound. -/
  | beyond (place : Nat) (bound : Shape)

namespace Finding

/-- The finding is true of a signature. -/
def Of (schema : Schema) : Finding → Option Signature → Prop
  | known, found => ∃ s, found = some s
  | beyond i u, found => ∃ s, found = some s ∧ ∃ x, s[i]? = some x ∧ ¬ x.Below schema u

/-- How a finding about a matcher that yields `a` values may go back to one about a part that yields
`b` values: to what is found at the same place of the part, or to the part's being known. -/
def GoesBackTo (a : Nat) (b : Nat) : Finding → Finding → Prop
  | known, known => b ≤ a
  | beyond i u, beyond j v => v = u ∧ j ≤ i ∧ b + i ≤ a + j
  | beyond _ _, known => b < a
  | known, beyond _ _ => False

variable {schema : Schema} {F G H : Finding} {a b c : Nat} {found : Option Signature}

/-- Only a signature that is known has findings. -/
theorem Of.exists_eq (h : F.Of schema found) : ∃ s, found = some s := by
  cases F with
  | known => exact h
  | beyond i u =>
    obtain ⟨s, same, _⟩ := h
    exact ⟨s, same⟩

/-- A shape at a place of a signature is beyond a bound if it is not below it. -/
theorem of_beyond_some {s : Signature} {i : Nat} {u : Shape} :
    (beyond i u).Of schema (some s) ↔ ∃ x, s[i]? = some x ∧ ¬ x.Below schema u := by
  simp only [Of, Option.some.injEq, exists_eq_left']

/-- What is found at a place of the first part of a signature is found in that part. -/
theorem of_append_left {s t : Signature} {i : Nat} {u : Shape} (inside : i < s.length) :
    (beyond i u).Of schema (some (s ++ t)) ↔ (beyond i u).Of schema (some s) := by
  rw [of_beyond_some, of_beyond_some, List.getElem?_append_left inside]

/-- What is found at a place behind the first part of a signature is found in the second part. -/
theorem of_append_right {s t : Signature} {i : Nat} {u : Shape} (behind : s.length ≤ i) :
    (beyond i u).Of schema (some (s ++ t)) ↔ (beyond (i - s.length) u).Of schema (some t) := by
  rw [of_beyond_some, of_beyond_some, List.getElem?_append_right behind]

/-- A signature in which nothing is beyond the bound has a shape below it, if it has the place at
all. -/
theorem not_of_beyond_iff {i : Nat} {u : Shape} :
    ¬ (beyond i u).Of schema found ↔
      ∀ s, found = some s → ∀ x, s[i]? = some x → x.Below schema u := by
  simp only [Of, not_exists, not_and, not_not]

/-- What is found beyond a bound is at a place of the signature. -/
theorem Of.lt_length {s : Signature} {i : Nat} {u : Shape}
    (h : (beyond i u).Of schema (some s)) : i < s.length := by
  obtain ⟨x, here, _⟩ := of_beyond_some.mp h
  exact (List.getElem?_eq_some_iff.mp here).1

/-- What is found about a list and not about another is found about the elements. -/
theorem exists_of_list {e e' : Shape} (made : F.Of schema (some [.list e']))
    (before : ¬ F.Of schema (some [.list e])) :
    ∃ u, ¬ e'.Below schema u ∧ e.Below schema u := by
  cases F with
  | known => exact absurd ⟨_, rfl⟩ before
  | beyond i u =>
    obtain rfl : i = 0 := Nat.lt_one_iff.mp made.lt_length
    simp only [of_beyond_some, List.getElem?_cons_zero, Option.some.injEq, exists_eq_left',
      not_not] at made before
    cases before with
    | any => exact absurd (.any _) made
    | list before => exact ⟨_, fun below => made (.list below), before⟩

/-- Signatures of one length about which the same is found are the same. -/
theorem eq_of_same (schema : Schema) {found found' : Option Signature}
    (even : ∀ s s', found = some s → found' = some s' → s.length = s'.length)
    (same : ∀ F : Finding, F.Of schema found ↔ F.Of schema found') : found = found' := by
  have known : (∃ s, found = some s) ↔ ∃ s, found' = some s := same .known
  cases found with
  | none =>
    cases found' with
    | none => rfl
    | some s' => cases (known.mpr ⟨s', rfl⟩).choose_spec
  | some s =>
    cases found' with
    | none => cases (known.mp ⟨s, rfl⟩).choose_spec
    | some s' =>
      refine congrArg some (List.ext_getElem (even s s' rfl rfl) fun i inside inside' => ?_)
      have below {t t' : Signature} (inside : i < t.length) (inside' : i < t'.length)
          (less : (beyond i t'[i]).Of schema (some t) → (beyond i t'[i]).Of schema (some t')) :
          t[i].Below schema t'[i] := by
        by_contra further
        have made : (beyond i t'[i]).Of schema (some t) :=
          of_beyond_some.mpr ⟨t[i], List.getElem?_eq_getElem inside, further⟩
        obtain ⟨x, here, above⟩ := of_beyond_some.mp (less made)
        obtain rfl := Option.some.inj ((List.getElem?_eq_getElem inside').symm.trans here)
        exact above (.refl schema _)
      exact (below inside inside' (same _).mp).antisymm (below inside' inside (same _).mpr)

/-- A finding goes back to itself. -/
theorem GoesBackTo.refl (F : Finding) (a : Nat) : GoesBackTo a a F F := by
  cases F with
  | known => exact Nat.le_refl a
  | beyond i u => exact ⟨rfl, Nat.le_refl i, Nat.le_refl _⟩

/-- What goes back to a finding goes back as far as that one does. -/
theorem GoesBackTo.trans (first : GoesBackTo a b F G) (second : GoesBackTo b c G H) :
    GoesBackTo a c F H := by
  cases F <;> cases G <;> cases H <;> simp only [GoesBackTo] at first second ⊢
  case known.known.known => omega
  case beyond.known.known => omega
  case beyond.beyond.known => omega
  case beyond.beyond.beyond =>
    obtain ⟨rfl, first⟩ := first
    obtain ⟨rfl, second⟩ := second
    exact ⟨rfl, by omega⟩

/-- Among findings about equally many values each goes back to itself only. -/
theorem GoesBackTo.eq (h : GoesBackTo a a F G) : G = F := by
  cases F <;> cases G <;> simp only [GoesBackTo] at h
  case known.known => rfl
  case beyond.known => omega
  case beyond.beyond =>
    obtain ⟨rfl, before, behind⟩ := h
    rw [show _ = _ from Nat.le_antisymm before (by omega)]

end Finding

namespace Signature

variable {schema : Schema} {F : Finding}

/-- A place in a join of several signatures is below what it is below in each of them. -/
theorem foldl_join_below_iff {first : Signature} {others : List Signature}
    (even : ∀ s ∈ others, s.length = first.length) {i : Nat} {u : Shape} :
    (∀ x, (others.foldl (fun joined s => List.zipWith (Shape.join schema) joined s) first)[i]? =
        some x → x.Below schema u) ↔
      ∀ s ∈ first :: others, ∀ x, s[i]? = some x → x.Below schema u := by
  induction others generalizing first with
  | nil => simp
  | cons s others ih =>
    obtain ⟨here, later⟩ := List.forall_mem_cons.mp even
    have kept : (List.zipWith (Shape.join schema) first s).length = first.length := by
      simp [here]
    have joined : (∀ x, (List.zipWith (Shape.join schema) first s)[i]? = some x →
        x.Below schema u) ↔ (∀ x, first[i]? = some x → x.Below schema u) ∧
          ∀ x, s[i]? = some x → x.Below schema u := by
      by_cases inside : i < first.length
      · rw [List.getElem?_eq_getElem (kept ▸ inside), List.getElem?_eq_getElem inside,
          List.getElem?_eq_getElem (here ▸ inside)]
        simp only [Option.some.injEq, forall_eq', List.getElem_zipWith, Shape.join_below_iff]
      · rw [List.getElem?_eq_none (by omega), List.getElem?_eq_none (by omega),
          List.getElem?_eq_none (by omega)]
        simp
    rw [List.foldl_cons, ih fun t among => (later t among).trans kept.symm]
    simp only [List.forall_mem_cons, joined, and_assoc]

end Signature

namespace Matcher

mutual

/-- The matcher and the parts of it from whose signatures its own is computed, each with whether it
stands within a list. -/
def shaping : Matcher → List (Matcher × Bool)
  | .seq items => (.seq items, false) :: shapingOfAll items
  | .choice alternatives => (.choice alternatives, false) :: shapingOfAll alternatives
  | .opt m => (.opt m, false) :: m.shaping
  | .group m => (.group m, false) :: m.shaping.map fun part => (part.1, true)
  | .list repetition m => (.list repetition m, false) :: m.shaping.map fun part => (part.1, true)
  | .sepList repetition m separator =>
    (.sepList repetition m separator, false) :: m.shaping.map fun part => (part.1, true)
  | .predicate ref m => (.predicate ref m, false) :: m.shaping
  | .protect m guard => (.protect m guard, false) :: m.shaping
  | m => [(m, false)]

/-- The parts from which the signatures of several matchers are computed. -/
def shapingOfAll : List Matcher → List (Matcher × Bool)
  | [] => []
  | m :: ms => m.shaping ++ shapingOfAll ms

end

/-- If it is a choice, its known alternatives yield equally many values. -/
def Agrees (count : RuleRef → Option Nat) : Matcher → Prop
  | choice ms => ∀ i ∈ (arities count ms).filterMap id, ∀ j ∈ (arities count ms).filterMap id, i = j
  | _ => True

/-- Known alternatives yield equally many values wherever a signature is computed from them. -/
def Even (count : RuleRef → Option Nat) (m : Matcher) : Prop :=
  ∀ part ∈ m.shaping, part.1.Agrees count

variable {schema : Schema} {count : RuleRef → Option Nat} {m : Matcher} {ms : List Matcher}
  {rules : RuleRef → Option Signature} {i : Nat} {F : Finding}

/-- What shapes several matchers shapes one of them. -/
theorem mem_shapingOfAll {part : Matcher × Bool} :
    part ∈ shapingOfAll ms ↔ ∃ m ∈ ms, part ∈ m.shaping := by
  induction ms with
  | nil => simp [shapingOfAll]
  | cons m ms ih => simp [shapingOfAll, ih]

/-- Alternatives that are even stay so among fewer parts. -/
theorem Even.of_subset {n : Matcher} (even : m.Even count) (subset : n.shaping ⊆ m.shaping) :
    n.Even count :=
  fun part among => even part (subset among)

/-- Alternatives that are even stay so where the parts are within a list. -/
theorem Even.of_nested {n : Matcher} (even : m.Even count)
    (subset : (n.shaping.map fun part => (part.1, true)) ⊆ m.shaping) : n.Even count :=
  fun part among => even (part.1, true) (subset (List.mem_map.mpr ⟨part, among, rfl⟩))

/-- An item of an even sequence is even. -/
theorem Even.item (even : (seq ms).Even count) (among : m ∈ ms) : m.Even count :=
  even.of_subset fun _ part => List.mem_cons_of_mem _ (mem_shapingOfAll.mpr ⟨m, among, part⟩)

/-- An alternative of an even choice is even. -/
theorem Even.alternative (even : (choice ms).Even count) (among : m ∈ ms) : m.Even count :=
  even.of_subset fun _ part => List.mem_cons_of_mem _ (mem_shapingOfAll.mpr ⟨m, among, part⟩)

/-- The known numbers are those of the matchers. -/
theorem mem_known_arities : i ∈ (arities count ms).filterMap id ↔
    ∃ m ∈ ms, m.arity? count = some i := by
  rw [arities_eq_map, List.filterMap_map, List.mem_filterMap]
  rfl

/-- Where known alternatives agree, a choice yields as many values as any of them. -/
theorem Even.arity?_choice (even : (choice ms).Even count) (among : m ∈ ms)
    (known : m.arity? count = some i) : (choice ms).arity? count = some i := by
  have listed := mem_known_arities.mpr ⟨m, among, known⟩
  have agrees : (choice ms).Agrees count := even (choice ms, false) List.mem_cons_self
  rw [arity?]
  cases numbers : (arities count ms).filterMap id with
  | nil =>
    rw [numbers] at listed
    cases listed
  | cons first others =>
    rw [List.head?_cons, agrees i listed first (numbers ▸ List.mem_cons_self)]

/-- The known signatures are those of the matchers. -/
theorem mem_known_signatures {s : Signature} : s ∈ (signatures schema rules ms).filterMap id ↔
    ∃ m ∈ ms, m.signature? schema rules = some s := by
  rw [signatures_eq_map, List.filterMap_map, List.mem_filterMap]
  rfl

/-- A sequence is even if each item is. -/
theorem Even.of_items (each : ∀ m ∈ ms, m.Even count) : (seq ms).Even count := fun part among => by
  rcases List.mem_cons.mp among with rfl | among
  · trivial
  · obtain ⟨m, member, part⟩ := mem_shapingOfAll.mp among
    exact each m member _ part

/-- The signatures that rules have are as long as the counts tell. -/
def Counts (count : RuleRef → Option Nat) (rules : RuleRef → Option Signature) : Prop :=
  ∀ ref s, rules ref = some s → count ref = some s.length

/-- The signatures that matchers have are then as long as the counts tell. -/
theorem Even.arity?_eq (even : m.Even count) (counts : Counts count rules) {s : Signature}
    (found : m.signature? schema rules = some s) : m.arity? count = some s.length := by
  induction m generalizing s with
  | token kind text keep =>
    obtain rfl := Option.some.inj found
    cases keep <;> rfl
  | rule ref => exact counts ref s found
  | seq ms ih =>
    rw [signature?] at found
    induction ms generalizing s with
    | nil =>
      obtain rfl := Option.some.inj found
      rfl
    | cons m ms ihms =>
      obtain ⟨first, others⟩ := List.forall_mem_cons.mp ih
      have rest : (seq ms).Even count :=
        Even.of_items fun n among => even.item (List.mem_cons_of_mem _ among)
      obtain ⟨s₁, s₂, here, later, rfl⟩ := Signature.concat_cons_eq_some_iff.mp found
      rw [List.length_append]
      exact arity?_seq_cons (first (even.item List.mem_cons_self) here) (ihms others rest later)
  | choice ms ih =>
    rw [signature?, Signature.alternatives] at found
    cases known : (signatures schema rules ms).filterMap id with
    | nil =>
      rw [known] at found
      cases found
    | cons first others =>
      rw [known] at found
      obtain rfl := Option.some.inj found
      obtain ⟨m, among, here⟩ := mem_known_signatures.mp (known ▸ List.mem_cons_self)
      rw [Signature.length_foldl_join schema first _ fun s among => by
        simpa using (List.mem_filter.mp among).2]
      exact even.arity?_choice among (ih m among (even.alternative among) here)
  | opt m ih | predicate _ m ih =>
    exact ih (even.of_subset fun _ => List.mem_cons_of_mem _) found
  | protect m guard ih => exact ih (even.of_subset fun _ => List.mem_cons_of_mem _) found
  | group | list | sepList | skip | null | node | enum =>
    obtain rfl := Option.some.inj found
    rfl
  | cut =>
    obtain rfl := Option.some.inj found
    rfl

/-- Known alternatives have signatures of one length. -/
theorem Even.length_alternative (even : (choice ms).Even count) (counts : Counts count rules)
    {s t : Signature} (first : s ∈ (signatures schema rules ms).filterMap id)
    (second : t ∈ (signatures schema rules ms).filterMap id) : s.length = t.length := by
  have long {s : Signature} (known : s ∈ (signatures schema rules ms).filterMap id) :
      (choice ms).arity? count = some s.length := by
    obtain ⟨m, among, found⟩ := mem_known_signatures.mp known
    exact even.arity?_choice among ((even.alternative among).arity?_eq counts found)
  exact Option.some.inj ((long first).symm.trans (long second))

/-- What is found about a choice is what is found about an alternative. -/
theorem Even.of_choice_iff (even : (choice ms).Even count) (counts : Counts count rules) :
    F.Of schema ((choice ms).signature? schema rules) ↔
      ∃ m ∈ ms, F.Of schema (m.signature? schema rules) := by
  have equal : ∀ t ∈ (signatures schema rules ms).filterMap id,
      ∀ s ∈ (signatures schema rules ms).filterMap id, t.length = s.length :=
    fun t second s first => even.length_alternative counts second first
  rw [signature?, Signature.alternatives]
  cases known : (signatures schema rules ms).filterMap id with
  | nil =>
    constructor
    · intro made
      obtain ⟨s, same⟩ := made.exists_eq
      cases same
    · rintro ⟨m, among, made⟩
      obtain ⟨s, found⟩ := made.exists_eq
      have listed := mem_known_signatures.mpr ⟨m, among, found⟩
      rw [known] at listed
      cases listed
  | cons first others =>
    cases F with
    | known =>
      obtain ⟨m, among, here⟩ := mem_known_signatures.mp (known ▸ List.mem_cons_self)
      exact ⟨fun _ => ⟨m, among, first, here⟩, fun _ => ⟨_, rfl⟩⟩
    | beyond i u =>
      rw [known] at equal
      have even : ∀ t ∈ others, t.length = first.length := fun t among =>
        equal t (List.mem_cons_of_mem _ among) first List.mem_cons_self
      have all : (others.filter fun t => t.length == first.length) = others :=
        List.filter_eq_self.mpr fun t among => beq_iff_eq.mpr (even t among)
      rw [← not_iff_not]
      simp only [all, not_exists, not_and, Finding.not_of_beyond_iff, Option.some.injEq, forall_eq']
      rw [Signature.foldl_join_below_iff even, ← known]
      simp only [mem_known_signatures]
      constructor
      · exact fun h m among t here => h t ⟨m, among, here⟩
      · intro h t listed
        obtain ⟨m, among, here⟩ := listed
        exact h m among t here

end Matcher

end CombinatorGrammar
