import CombinatorGrammar.Proofs.Program.Findings

/-!
# Where findings come from

A finding about a matcher that is made with some signatures of the rules, and not with others, goes
back to a finding about one of the rules that the matcher refers to. Where no list comes between,
this one is about the same bound, or else about a rule that yields fewer values. It takes that
choices have alternatives that agree on the number of values: otherwise a choice passes over
alternatives, and may lose again what was found.
-/

namespace CombinatorGrammar

namespace Matcher

variable {schema : Schema} {count : RuleRef → Option Nat} {m : Matcher} {ms : List Matcher}
  {rules rules' : RuleRef → Option Signature} {i a b : Nat} {F G : Finding}
  {parts parts' : List (Matcher × Bool)}

/-- The finding about a matcher that yields `a` values goes back to one about a rule that is among
the parts: this one is made with the second signatures of rules and not with the first ones, and
unless the rule is referred to within a list, it is about the same bound. -/
def Source (schema : Schema) (count : RuleRef → Option Nat)
    (rules rules' : RuleRef → Option Signature) (a : Nat) (F : Finding)
    (parts : List (Matcher × Bool)) : Prop :=
  ∃ ref nested G b, (.rule ref, nested) ∈ parts ∧ G.Of schema (rules' ref) ∧
    ¬ G.Of schema (rules ref) ∧ count ref = some b ∧ (nested = true ∨ Finding.GoesBackTo a b F G)

/-- The source of a finding is one of every finding that goes back to it. -/
theorem Source.lift (h : Source schema count rules rules' b G parts)
    (back : Finding.GoesBackTo a b F G) (subset : parts ⊆ parts') :
    Source schema count rules rules' a F parts' := by
  obtain ⟨ref, nested, H, c, among, made, before, number, listed | further⟩ := h
  · exact ⟨ref, nested, H, c, subset among, made, before, number, Or.inl listed⟩
  · exact ⟨ref, nested, H, c, subset among, made, before, number, Or.inr (back.trans further)⟩

/-- The source of a finding about what is within a list is one of a finding about the list. -/
theorem Source.within (h : Source schema count rules rules' b G parts)
    (subset : (parts.map fun part => (part.1, true)) ⊆ parts') :
    Source schema count rules rules' a F parts' := by
  obtain ⟨ref, nested, H, c, among, made, before, number, _⟩ := h
  exact ⟨ref, true, H, c, subset (List.mem_map.mpr ⟨_, among, rfl⟩), made, before, number,
    Or.inl rfl⟩

/-- Every finding about the matcher that is made with the second signatures of rules and not with
the first ones has a source. -/
def Traced (schema : Schema) (count : RuleRef → Option Nat)
    (rules rules' : RuleRef → Option Signature) (m : Matcher) : Prop :=
  ∀ a F, m.arity? count = some a → F.Of schema (m.signature? schema rules') →
    ¬ F.Of schema (m.signature? schema rules) → Source schema count rules rules' a F m.shaping

section Traces

variable (counts' : Counts count rules')

include counts'

/-- Where a sequence becomes known, an item does. -/
theorem source_of_known_items
    (each : ∀ m ∈ ms, m.Even count ∧ Traced schema count rules rules' m)
    (number : (seq ms).arity? count = some a)
    (made : ∃ s, Signature.concat (signatures schema rules' ms) = some s)
    (before : ¬ ∃ s, Signature.concat (signatures schema rules ms) = some s) :
    Source schema count rules rules' a .known (shapingOfAll ms) := by
  induction ms generalizing a with
  | nil => exact absurd made before
  | cons m ms ih =>
    obtain ⟨⟨even, traced⟩, others⟩ := List.forall_mem_cons.mp each
    have rest : (seq ms).Even count := Even.of_items fun n among => (others n among).1
    obtain ⟨s', whole'⟩ := made
    obtain ⟨h', t', now, later, rfl⟩ := Signature.concat_cons_eq_some_iff.mp whole'
    have headCount := even.arity?_eq counts' now
    have tailCount := rest.arity?_eq counts' later
    obtain rfl : a = h'.length + t'.length :=
      Option.some.inj (number.symm.trans (arity?_seq_cons headCount tailCount))
    by_cases first : ∃ h, m.signature? schema rules = some h
    · obtain ⟨h, first⟩ := first
      refine (ih others tailCount ⟨t', later⟩ ?_).lift (Nat.le_add_left ..)
        (List.subset_append_right ..)
      rintro ⟨t, second⟩
      exact before ⟨h ++ t, Signature.concat_cons_eq_some_iff.mpr ⟨h, t, first, second, rfl⟩⟩
    · exact (traced _ .known headCount ⟨h', now⟩ first).lift (Nat.le_add_right ..)
        (List.subset_append_left ..)

/-- What is found in a place of a sequence is found about the item that fills it, unless this was
known to be so before; then another item becomes known. -/
theorem source_of_item (counts : Counts count rules)
    (each : ∀ m ∈ ms, m.Even count ∧ Traced schema count rules rules' m)
    (number : (seq ms).arity? count = some a) {u : Shape}
    (made : (Finding.beyond i u).Of schema (Signature.concat (signatures schema rules' ms)))
    (before : ¬ (Finding.beyond i u).Of schema (Signature.concat (signatures schema rules ms))) :
    Source schema count rules rules' a (.beyond i u) (shapingOfAll ms) := by
  induction ms generalizing a i with
  | nil => exact absurd made before
  | cons m ms ih =>
    obtain ⟨⟨even, traced⟩, others⟩ := List.forall_mem_cons.mp each
    have head : m.shaping ⊆ shapingOfAll (m :: ms) := List.subset_append_left ..
    have tail : shapingOfAll ms ⊆ shapingOfAll (m :: ms) := List.subset_append_right ..
    have rest : (seq ms).Even count := Even.of_items fun n among => (others n among).1
    obtain ⟨s', whole'⟩ := made.exists_eq
    obtain ⟨h', t', now, later, rfl⟩ := Signature.concat_cons_eq_some_iff.mp whole'
    rw [whole'] at made
    rw [signatures] at before
    have headCount := even.arity?_eq counts' now
    have tailCount := rest.arity?_eq counts' later
    obtain rfl : a = h'.length + t'.length :=
      Option.some.inj (number.symm.trans (arity?_seq_cons headCount tailCount))
    rcases Nat.lt_or_ge i h'.length with inside | behind
    · have here := (Finding.of_append_left inside).mp made
      by_cases first : (Finding.beyond i u).Of schema (m.signature? schema rules)
      · -- this was found about the item before, so it is new that the other items are known
        obtain ⟨h, early⟩ := first.exists_eq
        rw [early] at first before
        refine (source_of_known_items counts' others tailCount ⟨t', later⟩ ?_).lift
          (Nat.lt_add_of_pos_left (Nat.zero_lt_of_lt inside)) tail
        rintro ⟨t, second⟩
        rw [Signature.concat_some, second, Option.map_some,
          Finding.of_append_left first.lt_length] at before
        exact before first
      · exact (traced _ _ headCount (now ▸ here) first).lift ⟨rfl, le_rfl, by omega⟩ head
    · have here := (Finding.of_append_right behind).mp made
      by_cases second : (Finding.beyond (i - h'.length) u).Of schema
          (Signature.concat (signatures schema rules ms))
      · -- this was found about the others before, so it is new that this item is known
        obtain ⟨t, early⟩ := second.exists_eq
        refine (traced _ .known headCount ⟨h', now⟩ ?_).lift
          (Nat.lt_add_of_pos_right (Nat.zero_lt_of_lt here.lt_length)) head
        rintro ⟨h, first⟩
        have same : h.length = h'.length :=
          Option.some.inj ((even.arity?_eq counts first).symm.trans headCount)
        rw [first, Signature.concat_some, early, Option.map_some,
          Finding.of_append_right (same ▸ behind), same, ← early] at before
        exact before second
      · exact (ih others tailCount (later ▸ here) second).lift ⟨rfl, Nat.sub_le .., by omega⟩ tail

/-- What is found about the element of a group is found about a value of its operand. -/
theorem source_of_group (traced : Traced schema count rules rules' m) (even : m.Even count)
    {u : Shape}
    (made : ¬ (Signature.groupElement schema (m.signature? schema rules')).Below schema u)
    (before : (Signature.groupElement schema (m.signature? schema rules)).Below schema u) :
    ∃ b G, Source schema count rules rules' b G m.shaping := by
  cases now : m.signature? schema rules' with
  | none =>
    rw [now] at made
    exact absurd (.null u) made
  | some s' =>
    rw [now, Signature.groupElement, Shape.foldl_join_below_iff] at made
    obtain ⟨x, among, further⟩ : ∃ x ∈ s', ¬ x.Below schema u := by
      by_contra none
      push Not at none
      exact made ⟨.null u, none⟩
    obtain ⟨j, here⟩ := List.mem_iff_getElem?.mp among
    refine ⟨s'.length, .beyond j u, traced _ _ (even.arity?_eq counts' now)
      ⟨s', now, x, here, further⟩ ?_⟩
    rintro ⟨s, early, y, there, above⟩
    rw [early, Signature.groupElement, Shape.foldl_join_below_iff] at before
    exact above (before.2 y (List.mem_of_getElem? there))

/-- What is found about the element of a list is found about its value. -/
theorem source_of_list (counts : Counts count rules)
    (traced : Traced schema count rules rules' m) (even : m.Even count) {u : Shape}
    (made : ¬ (Signature.listElement (m.signature? schema rules')).Below schema u)
    (before : (Signature.listElement (m.signature? schema rules)).Below schema u) :
    ∃ b G, Source schema count rules rules' b G m.shaping := by
  cases now : m.signature? schema rules' with
  | none =>
    rw [now] at made
    exact absurd (.null u) made
  | some s' =>
    have number := even.arity?_eq counts' now
    by_cases early : ∃ s, m.signature? schema rules = some s
    · obtain ⟨s, early⟩ := early
      have same : s.length = s'.length :=
        Option.some.inj ((even.arity?_eq counts early).symm.trans number)
      match s, s', same with
      | [x], [x'], _ =>
        rw [now] at made
        rw [early] at before
        refine ⟨1, .beyond 0 u, traced _ _ number (now ▸ ⟨_, rfl, x', rfl, made⟩) ?_⟩
        rw [early, Finding.of_beyond_some]
        rintro ⟨_, same, above⟩
        cases same
        exact above before
      | [], [], _ | _ :: _ :: _, _ :: _ :: _, _ =>
        rw [now] at made
        rw [early] at before
        exact absurd before made
    · exact ⟨_, _, traced _ .known number ⟨s', now⟩ early⟩

/-- Every finding about a matcher has a source. The induction is on the matcher; what is found
within a list keeps only the rule that it goes back to, because the bound is of another depth
there. -/
theorem traced (counts : Counts count rules) (m : Matcher) (even : m.Even count) :
    Traced schema count rules rules' m := by
  induction m with
  | token | cut | skip | null | node | enum =>
    intro a F number made before
    exact absurd made before
  | rule ref =>
    intro a F number made before
    exact ⟨ref, false, F, a, List.mem_singleton.mpr rfl, made, before, number,
      Or.inr (Finding.GoesBackTo.refl F a)⟩
  | seq ms ih =>
    intro a F number made before
    have each : ∀ m ∈ ms, m.Even count ∧ Traced schema count rules rules' m :=
      fun m among => ⟨even.item among, ih m among (even.item among)⟩
    refine Source.lift ?_ (Finding.GoesBackTo.refl F a) (List.subset_cons_self _ _)
    cases F with
    | known => exact source_of_known_items counts' each number made before
    | beyond i u => exact source_of_item counts' counts each number made before
  | choice ms ih =>
    intro a F number made before
    obtain ⟨m, among, made⟩ := (even.of_choice_iff counts').mp made
    obtain ⟨s, found⟩ := made.exists_eq
    have same := (even.alternative among).arity?_eq counts' found
    obtain rfl : a = s.length :=
      Option.some.inj (number.symm.trans (even.arity?_choice among same))
    have new : ¬ F.Of schema (m.signature? schema rules) := fun early =>
      before ((even.of_choice_iff counts).mpr ⟨m, among, early⟩)
    exact (ih m among (even.alternative among) _ F same made new).lift
      (Finding.GoesBackTo.refl F _)
      fun _ part => List.mem_cons_of_mem _ (mem_shapingOfAll.mpr ⟨m, among, part⟩)
  | opt m ih | predicate _ m ih =>
    intro a F number made before
    exact (ih (even.of_subset (List.subset_cons_self _ _)) a F number made before).lift
      (Finding.GoesBackTo.refl F a) (List.subset_cons_self _ _)
  | protect m guard ih =>
    intro a F number made before
    exact (ih (even.of_subset (List.subset_cons_self _ _)) a F number made before).lift
      (Finding.GoesBackTo.refl F a) (List.subset_cons_self _ _)
  | group m ih =>
    intro a F number made before
    have inner := even.of_nested (List.subset_cons_self _ _)
    obtain ⟨u, made, before⟩ := Finding.exists_of_list made before
    obtain ⟨b, G, source⟩ := source_of_group counts' (ih inner) inner made before
    exact source.within (List.subset_cons_self _ _)
  | list repetition m ih | sepList repetition m separator ih =>
    intro a F number made before
    have inner := even.of_nested (List.subset_cons_self _ _)
    obtain ⟨u, made, before⟩ := Finding.exists_of_list made before
    obtain ⟨b, G, source⟩ := source_of_list counts' counts (ih inner) inner made before
    exact source.within (List.subset_cons_self _ _)

end Traces

end Matcher

end CombinatorGrammar
