import CombinatorGrammar.Proofs.Program.Parts
import CombinatorGrammar.Proofs.Symbol.Interner

/-!
# What matchers are linked from

Linking goes through a combinator part by part: every part of the matcher is the matcher of a
combinator of its own. What linking establishes for a matcher by itself it so establishes for all
parts, and the names that token matches ask for are those of the texts that the combinator requires.
-/

namespace CombinatorGrammar

namespace Linked

/-- Two things are linked together if each of them is. -/
theorem both_eq_ok {α β : Type} {a : Linked α} {b : Linked β} {result : α × β}
    (h : a.both b = .ok result) : a = .ok result.1 ∧ b = .ok result.2 := by
  cases a <;> cases b <;> cases h
  exact ⟨rfl, rfl⟩

/-- What is linked through a map is the image of what is linked. -/
theorem map_eq_ok {α β : Type} {a : Linked α} {f : α → β} {result : β}
    (h : a.map f = .ok result) : ∃ x, a = .ok x ∧ f x = result := by
  cases a with
  | error defects => cases h
  | ok x => exact ⟨x, rfl, Except.ok.inj h⟩

/-- What is found is linked as what was found. -/
theorem ofOption_eq_ok {α : Type} {defect : Defect} {a : Option α} {result : α}
    (h : ofOption defect a = .ok result) : a = some result := by
  cases a with
  | none => cases h
  | some x => exact congrArg some (Except.ok.inj h)

end Linked

/-- The matcher is that of a combinator that requires no other texts. -/
def Matcher.LinkedFrom (d : Directory) (rule : String) (texts : List String) (m : Matcher) : Prop :=
  ∃ c : Combinator, c.link d rule = .ok m ∧ c.texts ⊆ texts

namespace Matcher

variable {d : Directory} {rule : String} {m : Matcher}

/-- What is linked from some texts is linked from more. -/
theorem LinkedFrom.mono {texts more : List String} (h : m.LinkedFrom d rule texts)
    (subset : texts ⊆ more) : m.LinkedFrom d rule more :=
  let ⟨c, linked, required⟩ := h
  ⟨c, linked, List.Subset.trans required subset⟩

/-- A combinator is linked from the texts that it asks for. -/
theorem linkedFrom_self {c : Combinator} (h : c.link d rule = .ok m) :
    m.LinkedFrom d rule c.texts :=
  ⟨c, h, List.Subset.refl _⟩

/-- Matchers that are linked from some texts and others that are linked from more are linked from
all. -/
theorem linkedFrom_append {ms ns : List Matcher} {texts more : List String}
    (first : ∀ m ∈ ms, m.LinkedFrom d rule texts) (second : ∀ m ∈ ns, m.LinkedFrom d rule more) :
    ∀ m ∈ ms ++ ns, m.LinkedFrom d rule (texts ++ more) :=
  List.forall_mem_append.mpr
    ⟨fun m among => (first m among).mono (List.subset_append_left ..),
      fun m among => (second m among).mono (List.subset_append_right ..)⟩

end Matcher

namespace Combinator

variable {d : Directory} {rule : String}

mutual

/-- Every part of the matcher of a combinator is the matcher of a combinator. -/
theorem link_parts :
    ∀ (c : Combinator) {m : Matcher}, c.link d rule = .ok m →
      ∀ part ∈ m.parts, part.LinkedFrom d rule c.texts
  | .token t text keep, m, h => by
    obtain ⟨kind, _, rfl⟩ := Linked.map_eq_ok h
    exact List.forall_mem_singleton.mpr (Matcher.linkedFrom_self h)
  | .rule name, m, h => by
    obtain ⟨ref, _, rfl⟩ := Linked.map_eq_ok h
    exact List.forall_mem_singleton.mpr (Matcher.linkedFrom_self h)
  | .seq items, m, h => by
    obtain ⟨ms, linked, rfl⟩ := Linked.map_eq_ok h
    exact List.forall_mem_cons.mpr ⟨Matcher.linkedFrom_self h, linkAll_parts items linked⟩
  | .choice alternatives, m, h => by
    obtain ⟨ms, linked, rfl⟩ := Linked.map_eq_ok h
    exact List.forall_mem_cons.mpr ⟨Matcher.linkedFrom_self h, linkAll_parts alternatives linked⟩
  | .opt c, m, h => by
    obtain ⟨n, linked, rfl⟩ := Linked.map_eq_ok h
    exact List.forall_mem_cons.mpr ⟨Matcher.linkedFrom_self h, link_parts c linked⟩
  | .group c, m, h => by
    obtain ⟨n, linked, rfl⟩ := Linked.map_eq_ok h
    exact List.forall_mem_cons.mpr ⟨Matcher.linkedFrom_self h, link_parts c linked⟩
  | .list repetition c, m, h => by
    obtain ⟨n, linked, rfl⟩ := Linked.map_eq_ok h
    exact List.forall_mem_cons.mpr ⟨Matcher.linkedFrom_self h, link_parts c linked⟩
  | .sepList repetition c separator, m, h => by
    obtain ⟨⟨n, k⟩, linked, rfl⟩ := Linked.map_eq_ok h
    obtain ⟨first, second⟩ := Linked.both_eq_ok linked
    exact List.forall_mem_cons.mpr ⟨Matcher.linkedFrom_self h,
      Matcher.linkedFrom_append (link_parts c first) (link_parts separator second)⟩
  | .cut, m, h => by
    obtain rfl := Except.ok.inj h
    exact List.forall_mem_singleton.mpr (Matcher.linkedFrom_self h)
  | .predicate name c, m, h => by
    obtain ⟨⟨n, ref⟩, linked, rfl⟩ := Linked.map_eq_ok h
    exact List.forall_mem_cons.mpr
      ⟨Matcher.linkedFrom_self h, link_parts c (Linked.both_eq_ok linked).1⟩
  | .skip errorType, m, h => by
    obtain ⟨type, _, rfl⟩ := Linked.map_eq_ok h
    exact List.forall_mem_singleton.mpr (Matcher.linkedFrom_self h)
  | .protect c guard, m, h => by
    obtain ⟨⟨n, k⟩, linked, rfl⟩ := Linked.map_eq_ok h
    obtain ⟨first, second⟩ := Linked.both_eq_ok linked
    exact List.forall_mem_cons.mpr ⟨Matcher.linkedFrom_self h,
      Matcher.linkedFrom_append (link_parts c first) (link_parts guard second)⟩
  | .null name, m, h => by
    obtain ⟨type, _, rfl⟩ := Linked.map_eq_ok h
    exact List.forall_mem_singleton.mpr (Matcher.linkedFrom_self h)
  | .node name c, m, h => by
    obtain ⟨⟨n, type⟩, linked, rfl⟩ := Linked.map_eq_ok h
    exact List.forall_mem_cons.mpr
      ⟨Matcher.linkedFrom_self h, link_parts c (Linked.both_eq_ok linked).1⟩
  | .enum name alternative c, m, h => by
    obtain ⟨⟨n, type, i⟩, linked, rfl⟩ := Linked.map_eq_ok h
    exact List.forall_mem_cons.mpr
      ⟨Matcher.linkedFrom_self h, link_parts c (Linked.both_eq_ok linked).1⟩

/-- All parts of what several combinators are linked to are linked from their texts. -/
theorem linkAll_parts :
    ∀ (cs : List Combinator) {ms : List Matcher}, linkAll d rule cs = .ok ms →
      ∀ part ∈ Matcher.partsOfAll ms, part.LinkedFrom d rule (textsOfAll cs)
  | [], ms, h => by
    obtain rfl := Except.ok.inj h
    exact List.forall_mem_nil _
  | c :: cs, ms, h => by
    obtain ⟨⟨n, ns⟩, linked, rfl⟩ := Linked.map_eq_ok h
    obtain ⟨first, second⟩ := Linked.both_eq_ok linked
    exact Matcher.linkedFrom_append (link_parts c first) (linkAll_parts cs second)

end

end Combinator

/-- A text that a token match asks for has the name of a text that the combinator requires. -/
theorem Matcher.LinkedFrom.asked {d : Directory} {rule : String} {texts : List String}
    {kind : TokenKind} {n : Name} {keep : Bool}
    (h : (Matcher.token kind (some n) keep).LinkedFrom d rule texts) :
    ∃ text ∈ texts, n = (d.names.intern text).1 := by
  obtain ⟨c, linked, required⟩ := h
  cases c with
  | token t text keep =>
    obtain ⟨_, _, same⟩ := Linked.map_eq_ok linked
    injection same with _ found
    obtain ⟨text, rfl, rfl⟩ := Option.map_eq_some_iff.mp found
    exact ⟨text, required (List.mem_singleton_self text), rfl⟩
  | cut => cases linked
  | rule | seq | choice | opt | group | list | skip | null =>
    obtain ⟨_, _, other⟩ := Linked.map_eq_ok linked
    cases other
  | sepList | predicate | protect | node =>
    obtain ⟨⟨_, _⟩, _, other⟩ := Linked.map_eq_ok linked
    cases other
  | enum =>
    obtain ⟨⟨_, _, _⟩, _, other⟩ := Linked.map_eq_ok linked
    cases other

namespace Grammar

/-- All parts of the bodies of the rules are linked from the texts that the rules ask for. -/
theorem linkRules_parts {d : Directory} {rules : List (String × Combinator)}
    {linked : List (String × Matcher)} (h : linkRules d rules = .ok linked) :
    ∀ rule ∈ linked, ∀ part ∈ rule.2.parts,
      part.LinkedFrom d rule.1 (rules.flatMap fun rule => rule.2.texts) := by
  induction rules generalizing linked with
  | nil =>
    obtain rfl := Except.ok.inj h
    exact List.forall_mem_nil _
  | cons rule rules ih =>
    obtain ⟨⟨m, ms⟩, both, rfl⟩ := Linked.map_eq_ok h
    obtain ⟨first, others⟩ := Linked.both_eq_ok both
    refine List.forall_mem_cons.mpr ⟨fun part among => ?_, fun rule later part among => ?_⟩
    · exact (Combinator.link_parts rule.2 first part among).mono (List.subset_append_left ..)
    · exact (ih others rule later part among).mono (List.subset_append_right ..)

/-- There are as many bodies as there are rules. -/
theorem linkRules_length {d : Directory} {rules : List (String × Combinator)}
    {linked : List (String × Matcher)} (h : linkRules d rules = .ok linked) :
    linked.length = rules.length := by
  induction rules generalizing linked with
  | nil =>
    obtain rfl := Except.ok.inj h
    rfl
  | cons rule rules ih =>
    obtain ⟨⟨m, ms⟩, both, rfl⟩ := Linked.map_eq_ok h
    exact congrArg (· + 1) (ih (Linked.both_eq_ok both).2)

variable {g : Grammar} {names names' : Interner} {p : Program}

/-- What the program of a grammar is put together from, all of which is without defects. -/
theorem resolve_eq_ok (h : g.resolve names = .ok (p, names')) :
    names' = names.internAll g.texts ∧
    ∃ entry rules, g.link names' = .ok (entry, rules) ∧
      ((rules.zip (RuleSignatures.infer g.schema (rules.map Prod.snd)).2.toList).flatMap
        fun ((name, body), signature) =>
          ruleDefects g.schema (RuleSignatures.infer g.schema (rules.map Prod.snd)).1 signature
            name body) = [] ∧
      p = {
        vocabulary := g.vocabulary
        schema := g.schema
        rules := (rules.map fun (name, body) => ⟨name, body⟩).toArray
        signatures := (RuleSignatures.infer g.schema (rules.map Prod.snd)).1
        predicates := g.predicates.toArray
        entry := entry } := by
  simp only [resolve, bind, Except.bind] at h
  split at h
  · cases h
  · next linked found =>
    obtain ⟨entry, rules⟩ := linked
    split at h
    · next sound =>
      simp only [pure, Except.pure, Except.ok.injEq, Prod.mk.injEq] at h
      obtain ⟨rfl, rfl⟩ := h
      exact ⟨rfl, entry, rules, found, List.isEmpty_iff.mp sound, rfl⟩
    · cases h

/-- The program's texts have names in the interner that comes with it. -/
theorem gives_of_resolve (h : g.resolve names = .ok (p, names')) {kind : TokenKind} {n : Name}
    {keep : Bool} (part : .token kind (some n) keep ∈ p.parts) : ∃ text, names'.Gives n text := by
  obtain ⟨rfl, entry, rules, linked, _, rfl⟩ := resolve_eq_ok h
  obtain ⟨_, among, inside⟩ := Program.mem_parts.mp part
  obtain ⟨rule, member, rfl⟩ := List.mem_map.mp (List.mem_toArray.mp among)
  obtain ⟨text, required, rfl⟩ :=
    (linkRules_parts (Linked.both_eq_ok linked).2 rule member _ inside).asked
  have among : text ∈ g.texts := required
  obtain ⟨n, given⟩ := names.gives_internAll among
  have same : ((names.internAll g.texts).intern text).1 = n := given.intern_fst
  exact ⟨text, same.symm ▸ given⟩

end Grammar

end CombinatorGrammar
