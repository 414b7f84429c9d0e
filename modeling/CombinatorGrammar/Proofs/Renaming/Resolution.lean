import CombinatorGrammar.Proofs.Program.Inference
import CombinatorGrammar.Proofs.Program.Linking
import CombinatorGrammar.Proofs.Renaming.Basic

/-!
# Resolving a grammar over another interner

The interner over which a grammar is resolved makes no difference but in the names of the texts that
the program asks for: the grammar has the same defects, or the program is the same up to renaming.
Signatures and validation do not look at texts at all.
-/

namespace CombinatorGrammar

variable {ρ : Name → Name}

namespace Matcher

/-- Renaming texts does not change signatures. -/
theorem signature?_rename (schema : Schema) (rules : RuleRef → Option Signature) (m : Matcher) :
    (m.rename ρ).signature? schema rules = m.signature? schema rules := by
  induction m with
  | seq ms ih | choice ms ih =>
    have same : ms.map (signature? schema rules ∘ rename ρ) = ms.map (signature? schema rules) :=
      List.map_congr_left ih
    rw [rename, signature?, signature?, signatures_eq_map, signatures_eq_map, renameAll_eq_map,
      List.map_map, same]
  | opt m ih | predicate _ m ih => exact ih
  | protect m _ ih _ => exact ih
  | group m ih | list _ m ih => rw [rename, signature?, signature?, ih]
  | sepList _ m _ ih _ => rw [rename, signature?, signature?, ih]
  | _ => rfl

/-- The operands of a renamed matcher are the renamed operands. -/
theorem operands_rename (m : Matcher) : (m.rename ρ).operands = m.operands.map (rename ρ) := by
  cases m with
  | seq ms | choice ms => exact renameAll_eq_map ms
  | _ => rfl

/-- The parts of a renamed matcher are its parts, renamed. -/
theorem exists_of_mem_parts_rename {m n : Matcher} (part : n ∈ (m.rename ρ).parts) :
    ∃ k ∈ m.parts, n = k.rename ρ := by
  induction m using operand_induction with
  | step m ih =>
    rcases mem_parts_iff.mp part with rfl | ⟨operand, among, below⟩
    · exact ⟨m, mem_parts_self m, rfl⟩
    · rw [operands_rename] at among
      obtain ⟨own, listed, rfl⟩ := List.mem_map.mp among
      obtain ⟨k, inside, same⟩ := ih own listed below
      exact ⟨k, mem_parts_iff.mpr (Or.inr ⟨own, listed, inside⟩), same⟩

end Matcher

namespace RuleSignatures

/-- A round of inference does not see texts. -/
theorem next_rename (schema : Schema) (bodies : List Matcher) (known : RuleSignatures) :
    next schema (bodies.map (Matcher.rename ρ)) known = next schema bodies known := by
  rw [next, next, List.map_map]
  exact congrArg List.toArray
    (List.map_congr_left fun body _ => body.signature?_rename schema known.get?)

/-- Inference does not see texts. -/
theorem infer_rename (schema : Schema) (bodies : List Matcher) :
    infer schema (bodies.map (Matcher.rename ρ)) = infer schema bodies := by
  have rounds_rename (n : Nat) (read given : RuleSignatures) :
      rounds schema (bodies.map (Matcher.rename ρ)) n read given =
        rounds schema bodies n read given := by
    induction n generalizing read given with
    | zero => rfl
    | succ n ih => rw [rounds, rounds, next_rename, ih]
  simp only [infer, maxRounds, List.length_map, rounds_rename]

end RuleSignatures

/-- What inference knows of a program it knows of the renamed one. -/
theorem Program.Inferred.rename {p : Program} (inferred : p.Inferred) (ρ : Name → Name) :
    (p.rename ρ).Inferred where
  alternatives part := by
    obtain ⟨_, among, inside⟩ := Program.mem_parts.mp part
    obtain ⟨rule, listed, rfl⟩ := Array.mem_map.mp among
    obtain ⟨k, own, same⟩ := Matcher.exists_of_mem_parts_rename inside
    cases k with
    | choice alternatives =>
      cases alternatives with
      | nil => exact inferred.alternatives (Program.mem_parts.mpr ⟨rule, listed, own⟩)
      | cons => cases same
    | _ => cases same
  settled := by
    have bodies : (p.rename ρ).rules.toList.map Rule.body =
        (p.rules.toList.map Rule.body).map (Matcher.rename ρ) := by
      rw [Program.rename, Array.toList_map, List.map_map, List.map_map]
      rfl
    rw [bodies, RuleSignatures.next_rename]
    exact inferred.settled

namespace Validation

variable (v : Validation)

/-- Validation finds the same signature under other names. -/
theorem signature?_rename (m : Matcher) : v.signature? (m.rename ρ) = v.signature? m :=
  m.signature?_rename v.schema v.rules.get?

/-- Validation finds the same number of values under other names. -/
theorem arity?_rename (m : Matcher) : v.arity? (m.rename ρ) = v.arity? m := by
  rw [arity?, arity?, signature?_rename]

/-- The defects in the number of values are the same under other names. -/
theorem arityDefects_rename (place : ArityPlace) (required : Nat) (m : Matcher) :
    v.arityDefects place required (m.rename ρ) = v.arityDefects place required m := by
  rw [arityDefects, arityDefects, arity?_rename]

/-- Several matchers have the same defects under other names if each has. -/
theorem defectsOfAll_rename {ms : List Matcher}
    (each : ∀ m ∈ ms, v.defects (m.rename ρ) = v.defects m) :
    v.defectsOfAll (Matcher.renameAll ρ ms) = v.defectsOfAll ms := by
  rw [Matcher.renameAll_eq_map, defectsOfAll_eq_flatMap, defectsOfAll_eq_flatMap, List.flatMap_map]
  exact List.flatMap_congr each

/-- Validation finds the same defects in the renamed matcher. -/
theorem defects_rename (m : Matcher) : v.defects (m.rename ρ) = v.defects m := by
  induction m with
  | seq ms ih => exact v.defectsOfAll_rename ih
  | choice ms ih =>
    have arities : (ms.map (Matcher.rename ρ)).filterMap v.arity? = ms.filterMap v.arity? := by
      rw [List.filterMap_map]
      exact List.filterMap_congr fun m _ => v.arity?_rename m
    rw [Matcher.rename, defects, defects, v.defectsOfAll_rename ih, choiceDefects, choiceDefects,
      Matcher.renameAll_eq_map, arities]
  | opt m ih | group m ih => exact ih
  | list _ m ih | predicate _ m ih | enum _ _ m ih =>
    rw [Matcher.rename, defects, defects, ih, arityDefects_rename]
  | sepList _ m separator ihm ihs =>
    rw [Matcher.rename, defects, defects, ihm, ihs, arityDefects_rename]
  | protect m guard ihm ihg => rw [Matcher.rename, defects, defects, ihm, ihg]
  | node type layout m ih =>
    rw [Matcher.rename, defects, defects, ih, nodeDefects, nodeDefects, signature?_rename]
  | _ => rfl

end Validation

namespace Linked

variable {α β γ δ : Type}

theorem map_map (a : Linked α) (f : α → β) (g : β → γ) : (a.map f).map g = a.map (g ∘ f) := by
  cases a <;> rfl

/-- Linking two things through maps is linking them and mapping both. -/
theorem both_map (a : Linked α) (b : Linked β) (f : α → γ) (g : β → δ) :
    Linked.both (a.map f) (b.map g) = (a.both b).map (Prod.map f g) := by
  cases a <;> cases b <;> rfl

theorem both_map_left (a : Linked α) (b : Linked β) (f : α → γ) :
    Linked.both (a.map f) b = (a.both b).map (Prod.map f id) := by
  cases a <;> cases b <;> rfl

end Linked

namespace Combinator

variable {d : Directory} {into : Interner} (rule : String)

mutual

/-- A combinator is linked in a directory with another interner to the matcher with the names of
that one. -/
theorem link_rename :
    ∀ c : Combinator, (∀ text ∈ c.texts, (into.intern text).1 = ρ (d.names.intern text).1) →
      c.link { d with names := into } rule = (c.link d rule).map (Matcher.rename ρ)
  | .token t text keep, same => by
    have names : text.map (fun text => (into.intern text).1) =
        (text.map fun text => (d.names.intern text).1).map ρ := by
      cases text with
      | none => rfl
      | some text => exact congrArg some (same text (List.mem_singleton_self text))
    rw [link, link, names, Linked.map_map]
    rfl
  | .rule name, _ => by
    rw [link, link, Linked.map_map]
    rfl
  | .seq items, same => by
    rw [link, link, linkAll_rename items same, Linked.map_map, Linked.map_map]
    rfl
  | .choice alternatives, same => by
    rw [link, link, linkAll_rename alternatives same, Linked.map_map, Linked.map_map]
    rfl
  | .opt c, same => by
    rw [link, link, link_rename c same, Linked.map_map, Linked.map_map]
    rfl
  | .group c, same => by
    rw [link, link, link_rename c same, Linked.map_map, Linked.map_map]
    rfl
  | .list repetition c, same => by
    rw [link, link, link_rename c same, Linked.map_map, Linked.map_map]
    rfl
  | .sepList repetition c separator, same => by
    obtain ⟨first, second⟩ := List.forall_mem_append.mp same
    rw [link, link, link_rename c first, link_rename separator second, Linked.both_map,
      Linked.map_map, Linked.map_map]
    rfl
  | .cut, _ => rfl
  | .predicate name c, same => by
    rw [link, link, link_rename c same, Linked.both_map_left, Linked.map_map, Linked.map_map]
    rfl
  | .skip errorType, _ => by
    rw [link, link, Linked.map_map]
    rfl
  | .protect c guard, same => by
    obtain ⟨first, second⟩ := List.forall_mem_append.mp same
    rw [link, link, link_rename c first, link_rename guard second, Linked.both_map,
      Linked.map_map, Linked.map_map]
    rfl
  | .null name, _ => by
    rw [link, link, Linked.map_map]
    rfl
  | .node name c, same => by
    rw [link, link, link_rename c same, Linked.both_map_left, Linked.map_map, Linked.map_map]
    rfl
  | .enum name alternative c, same => by
    rw [link, link, link_rename c same, Linked.both_map_left, Linked.map_map, Linked.map_map]
    rfl

/-- Several combinators are linked to the renamed matchers over the other interner. -/
theorem linkAll_rename :
    ∀ cs : List Combinator,
      (∀ text ∈ textsOfAll cs, (into.intern text).1 = ρ (d.names.intern text).1) →
      linkAll { d with names := into } rule cs =
        (linkAll d rule cs).map (Matcher.renameAll ρ)
  | [], _ => rfl
  | c :: cs, same => by
    obtain ⟨first, others⟩ := List.forall_mem_append.mp same
    rw [linkAll, linkAll, link_rename c first, linkAll_rename cs others, Linked.both_map,
      Linked.map_map, Linked.map_map]
    rfl

end

end Combinator

namespace Grammar

/-- Rules are linked to renamed bodies over the other interner. -/
theorem linkRules_rename {d : Directory} {into : Interner} {rules : List (String × Combinator)}
    (same : ∀ text ∈ rules.flatMap (fun rule => rule.2.texts),
      (into.intern text).1 = ρ (d.names.intern text).1) :
    linkRules { d with names := into } rules =
      (linkRules d rules).map (List.map (Prod.map id (Matcher.rename ρ))) := by
  induction rules with
  | nil => rfl
  | cons rule rules ih =>
    obtain ⟨first, others⟩ := List.forall_mem_append.mp same
    rw [linkRules, linkRules, Combinator.link_rename rule.1 rule.2 first, ih others,
      Linked.both_map, Linked.map_map, Linked.map_map]
    rfl

/-- A grammar is linked to renamed bodies over the other interner. -/
theorem link_rename {g : Grammar} {names into : Interner}
    (same : ∀ text ∈ g.texts, (into.intern text).1 = ρ (names.intern text).1) :
    g.link into =
      (g.link names).map (Prod.map id (List.map (Prod.map id (Matcher.rename ρ)))) := by
  have rules : linkRules (g.directory into) g.rules =
      (linkRules (g.directory names) g.rules).map (List.map (Prod.map id (Matcher.rename ρ))) :=
    linkRules_rename (d := g.directory names) same
  rw [link, link]
  simp only [rules]
  rw [show (g.directory into).ruleRef? g.entry = (g.directory names).ruleRef? g.entry from rfl]
  cases Linked.ofOption (.noEntryRule g.entry) ((g.directory names).ruleRef? g.entry) <;>
    cases linkRules (g.directory names) g.rules <;> rfl

/-- A rule has the same defects under other names. -/
theorem ruleDefects_rename {schema : Schema} {read : RuleSignatures} {found : Option Signature}
    {name : String} {body : Matcher} :
    ruleDefects schema read found name (body.rename ρ) =
      ruleDefects schema read found name body := by
  rw [ruleDefects, ruleDefects, Validation.defects_rename]

/-- A grammar resolves over every interner alike, with the texts that it asks for under the names
that they have there. -/
theorem resolve_rename {g : Grammar} {names into : Interner}
    (same : ∀ text ∈ g.texts, ((into.internAll g.texts).intern text).1 =
      ρ ((names.internAll g.texts).intern text).1) :
    g.resolve into =
      (g.resolve names).map fun r => (r.1.rename ρ, into.internAll g.texts) := by
  simp only [resolve, bind, Except.bind, link_rename same]
  cases g.link (names.internAll g.texts) with
  | error defects => rfl
  | ok linked =>
    obtain ⟨entry, rules⟩ := linked
    have bodies : (rules.map (Prod.map id (Matcher.rename ρ))).map Prod.snd =
        (rules.map Prod.snd).map (Matcher.rename ρ) := by
      rw [List.map_map, List.map_map]
      rfl
    simp only [Except.map, Prod.map, id, bodies, RuleSignatures.infer_rename]
    have defects (read : RuleSignatures) (found : List (Option Signature)) :
        ((rules.map (Prod.map id (Matcher.rename ρ))).zip found).flatMap
            (fun rule => ruleDefects g.schema read rule.2 rule.1.1 rule.1.2) =
          (rules.zip found).flatMap
            fun rule => ruleDefects g.schema read rule.2 rule.1.1 rule.1.2 := by
      rw [List.zip_map_left, List.flatMap_map]
      exact List.flatMap_congr fun rule _ => ruleDefects_rename
    have renamed : ((rules.map (Prod.map id (Matcher.rename ρ))).map
          fun rule => Rule.mk rule.1 rule.2).toArray =
        (rules.map fun rule => Rule.mk rule.1 rule.2).toArray.map (Rule.rename ρ) := by
      rw [List.map_toArray, List.map_map, List.map_map]
      rfl
    simp only [defects]
    split
    · simp only [pure, Except.pure, Program.rename, renamed]
    · rfl

end Grammar

end CombinatorGrammar
