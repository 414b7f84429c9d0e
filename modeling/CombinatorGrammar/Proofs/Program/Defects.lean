import CombinatorGrammar.Proofs.Program.Assembly
import CombinatorGrammar.Proofs.Program.Linking
import CombinatorGrammar.Proofs.Program.Resolution

/-!
# What resolving reports

Rules are linked one by one: either all have matchers, or the defects of all their names are listed
in the order of the rules. A grammar whose names are all known has the defects of its rule bodies,
in the order of the rules again; if it has none, it is the program of the matchers.
-/

namespace CombinatorGrammar

namespace Directory

variable (d : Directory) (rule : String × Combinator)

/-- Whether all names in the body of the rule are known. -/
def links : Bool := (rule.2.link d rule.1).isOk

/-- The matcher of the body of the rule; there is a cut in its place if names are unknown. -/
def body : Matcher := (rule.2.link d rule.1).toOption.getD .cut

/-- The defects of the names in the body of the rule. -/
def nameDefects : List Defect :=
  match rule.2.link d rule.1 with
  | .ok _ => []
  | .error defects => defects

variable {d rule}

/-- A rule whose names are known is linked to its body. -/
theorem link_of_links (h : d.links rule = true) : rule.2.link d rule.1 = .ok (d.body rule) := by
  rw [links] at h
  rw [body]
  cases linked : rule.2.link d rule.1 with
  | error defects =>
    rw [linked] at h
    cases h
  | ok m => rfl

/-- A rule of which a name is unknown is not linked, for the defects of its names. -/
theorem link_of_not_links (h : d.links rule = false) :
    rule.2.link d rule.1 = .error (d.nameDefects rule) := by
  rw [links] at h
  rw [nameDefects]
  cases linked : rule.2.link d rule.1 with
  | error defects => rfl
  | ok m =>
    rw [linked] at h
    cases h

/-- A rule whose names are known has no defects of names. -/
theorem nameDefects_of_links (h : d.links rule = true) : d.nameDefects rule = [] := by
  rw [nameDefects, link_of_links h]

/-- Rules whose names are known have no defects of names. -/
theorem flatMap_nameDefects_of_links {rules : List (String × Combinator)}
    (all : rules.all d.links = true) : rules.flatMap d.nameDefects = [] :=
  List.flatMap_eq_nil_iff.mpr fun rule among =>
    nameDefects_of_links (List.all_eq_true.mp all rule among)

section Map

variable {e : Directory} {f : Matcher → Matcher}
  (h : rule.2.link e rule.1 = (rule.2.link d rule.1).map f)
include h

/-- If linking differs by a map of matchers only, the names of the rule are known in both places. -/
theorem links_of_map : e.links rule = d.links rule := by
  rw [links, links, h]
  cases rule.2.link d rule.1 <;> rfl

/-- If linking differs by a map of matchers only, the names of the rule have the same defects. -/
theorem nameDefects_of_map : e.nameDefects rule = d.nameDefects rule := by
  rw [nameDefects, nameDefects, h]
  cases rule.2.link d rule.1 <;> rfl

/-- If linking differs by a map of matchers only, so do the bodies. -/
theorem body_of_map (cut : f .cut = .cut) : e.body rule = f (d.body rule) := by
  rw [body, body, h]
  cases rule.2.link d rule.1 with
  | error defects => exact cut.symm
  | ok m => rfl

end Map

end Directory

namespace Grammar

/-- Where names are looked up when the grammar is resolved over an interner. -/
abbrev directoryOver (g : Grammar) (names : Interner) : Directory :=
  g.directory (names.internAll g.texts)

section Names

variable {g : Grammar} {names : Interner}

/-- Every rule of the grammar is found under its name. -/
theorem ruleRef?_of_mem (names : Interner) {rule : String × Combinator} (among : rule ∈ g.rules) :
    ∃ ref, (g.directory names).ruleRef? rule.1 = some ref := by
  cases found : (g.directory names).ruleRef? rule.1 with
  | some ref => exact ⟨ref, rfl⟩
  | none =>
    have absent := List.findIdx?_eq_none_iff.mp (Option.map_eq_none_iff.mp found) rule.1
      (List.mem_map_of_mem among)
    rw [beq_self_eq_true] at absent
    cases absent

/-- What is found under the name of a rule is a rule of that name. -/
theorem getElem?_of_ruleRef? {name : String} {ref : RuleRef}
    (h : (g.directory names).ruleRef? name = some ref) :
    ∃ body, g.rules[ref.index]? = some (name, body) := by
  obtain ⟨i, found, rfl⟩ := Option.map_eq_some_iff.mp h
  obtain ⟨inside, same, _⟩ := List.findIdx?_eq_some_iff_getElem.mp found
  have inside' : i < g.rules.length := by simpa [directory] using inside
  refine ⟨g.rules[i].2, List.getElem?_eq_some_iff.mpr ⟨inside', Prod.ext ?_ rfl⟩⟩
  simpa [directory] using same

/-- Where rules have distinct names, a rule stands at the number of its name. -/
theorem getElem?_of_mem (distinct : g.Distinct) {rule : String × Combinator}
    (among : rule ∈ g.rules) {ref : RuleRef}
    (found : (g.directory names).ruleRef? rule.1 = some ref) :
    g.rules[ref.index]? = some rule := by
  obtain ⟨body, listed⟩ := getElem?_of_ruleRef? found
  have same := List.inj_on_of_nodup_map distinct (List.mem_of_getElem? listed) among rfl
  rw [listed, same]

/-- Where rules have distinct names, the number at which a rule stands is that of its name. -/
theorem ruleRef?_of_getElem? (names : Interner) (distinct : g.Distinct)
    {rule : String × Combinator} {ref : RuleRef} (listed : g.rules[ref.index]? = some rule) :
    (g.directory names).ruleRef? rule.1 = some ref := by
  have among := List.mem_of_getElem? listed
  obtain ⟨⟨i⟩, found⟩ := ruleRef?_of_mem names among
  have here := getElem?_of_mem distinct among found
  have inside := (List.getElem?_eq_some_iff.mp here).1
  have same := (List.getElem?_inj inside (List.Nodup.of_map _ distinct)).mp (here.trans listed.symm)
  rw [found]
  exact congrArg (some ∘ RuleRef.mk) same

/-- The texts that the rules ask for are known once they are interned. -/
theorem texts_known {rule : String × Combinator} (among : rule ∈ g.rules) {text : String}
    (required : text ∈ rule.2.texts) :
    (names.internAll g.texts).text ((names.internAll g.texts).intern text).1 = text := by
  have among : text ∈ g.texts := List.mem_flatMap_of_mem among required
  obtain ⟨n, given⟩ := names.gives_internAll among
  rw [given.intern_fst, Interner.text_of_gives given]

end Names

/-- All rules are linked, or the defects of all their names are listed. -/
theorem linkRules_eq (d : Directory) (rules : List (String × Combinator)) :
    linkRules d rules =
      if rules.all d.links then .ok (rules.map fun rule => (rule.1, d.body rule))
      else .error (rules.flatMap d.nameDefects) := by
  induction rules with
  | nil => rfl
  | cons rule rules ih =>
    rw [linkRules, ih, List.all_cons, List.map_cons, List.flatMap_cons]
    cases links : d.links rule with
    | true =>
      rw [Directory.link_of_links links, Directory.nameDefects_of_links links, Bool.true_and,
        List.nil_append]
      split <;> rfl
    | false =>
      rw [Directory.link_of_not_links links, Bool.false_and, if_neg Bool.false_ne_true]
      split
      · next all =>
        rw [Directory.flatMap_nameDefects_of_links all, List.append_nil]
        rfl
      · rfl

/-- The defect of a grammar without the rule at which parsing starts. -/
def missingEntry (g : Grammar) : List Defect :=
  if (g.directory .initial).ruleRef? g.entry = none then [.noEntryRule g.entry] else []

/-- The signatures of rules that the last round of inference reads. -/
def signaturesOver (g : Grammar) (names : Interner) : RuleSignatures :=
  (RuleSignatures.infer g.schema (g.rules.map (g.directoryOver names).body)).1

/-- The defects of the body of a rule, given that all names are known. -/
def ownDefects (g : Grammar) (names : Interner) (rule : String × Combinator) : List Defect :=
  let m := (g.directoryOver names).body rule
  let read := g.signaturesOver names
  ruleDefects g.schema read (m.signature? g.schema read.get?) rule.1 m

/-- The program of a grammar, given that all names are known and the number of the entry rule. -/
def programOver (g : Grammar) (names : Interner) (entry : RuleRef) : Program where
  vocabulary := g.vocabulary
  schema := g.schema
  rules := (g.rules.map fun rule => ⟨rule.1, (g.directoryOver names).body rule⟩).toArray
  signatures := g.signaturesOver names
  predicates := g.predicates.toArray
  entry := entry

/-- The entry rule is found and all rules are linked. -/
def Known (g : Grammar) (names : Interner) : Prop :=
  (g.directoryOver names).ruleRef? g.entry ≠ none ∧
    g.rules.all (g.directoryOver names).links = true

instance (g : Grammar) (names : Interner) : Decidable (g.Known names) :=
  inferInstanceAs (Decidable (_ ∧ _))

/-- What is found of a rule: the defects of its names, if names of the grammar are unknown, and
those of its body otherwise. -/
def defectsOf (g : Grammar) (names : Interner) (rule : String × Combinator) : List Defect :=
  if g.Known names then g.ownDefects names rule else (g.directoryOver names).nameDefects rule

/-- All names are known and no rule has a defect. -/
def Sound (g : Grammar) (names : Interner) : Prop :=
  g.Known names ∧ ∀ rule ∈ g.rules, g.ownDefects names rule = []

variable {g : Grammar} {names : Interner}

/-- In a grammar whose names are known, every rule is linked to its body. -/
theorem Known.link (known : g.Known names) {rule : String × Combinator} (among : rule ∈ g.rules) :
    rule.2.link (g.directoryOver names) rule.1 = .ok ((g.directoryOver names).body rule) :=
  Directory.link_of_links (List.all_eq_true.mp known.2 rule among)

/-- A grammar whose names are known is linked as a whole. -/
theorem link_of_known (known : g.Known names) :
    ∃ entry, g.link (names.internAll g.texts) =
      .ok (entry, g.rules.map fun rule => (rule.1, (g.directoryOver names).body rule)) := by
  obtain ⟨entry, found⟩ := Option.ne_none_iff_exists'.mp known.1
  refine ⟨entry, ?_⟩
  simp only [Grammar.link, linkRules_eq, found, known.2, ↓reduceIte, Linked.ofOption, Linked.both]

/-- Where a name is unknown, the defects of all names are listed, that of the entry rule first. -/
theorem link_of_not_known (unknown : ¬ g.Known names) :
    g.link (names.internAll g.texts) =
      .error (g.missingEntry ++ g.rules.flatMap (g.directoryOver names).nameDefects) := by
  have entry : (g.directoryOver names).ruleRef? g.entry =
      (g.directory .initial).ruleRef? g.entry := rfl
  simp only [Known, entry] at unknown
  simp only [Grammar.link, linkRules_eq, missingEntry, entry]
  cases found : (g.directory .initial).ruleRef? g.entry with
  | some ref =>
    have some : ¬ g.rules.all (g.directoryOver names).links = true := fun all =>
      unknown ⟨by rw [found]; exact Option.some_ne_none ref, all⟩
    rw [if_neg some, if_neg (Option.some_ne_none ref)]
    rfl
  | none =>
    rw [if_pos rfl]
    split
    · next all =>
      rw [Directory.flatMap_nameDefects_of_links all]
      rfl
    · rfl

/-- All names of a grammar are known if and only if it is linked. -/
theorem known_iff : g.Known names ↔ (g.link (names.internAll g.texts)).isOk = true := by
  constructor
  · intro known
    obtain ⟨entry, linked⟩ := link_of_known known
    rw [linked]
    rfl
  · intro linked
    by_contra unknown
    rw [link_of_not_known unknown] at linked
    cases linked

/-- A grammar whose names are all known becomes a program, unless its rules have defects. -/
theorem resolve_of_known (known : g.Known names) :
    ∃ entry, g.resolve names =
      if (g.rules.flatMap (g.ownDefects names)).isEmpty then
        .ok (g.programOver names entry, names.internAll g.texts)
      else .error (g.rules.flatMap (g.ownDefects names)) := by
  obtain ⟨entry, linked⟩ := link_of_known known
  generalize matchers : (g.rules.map fun rule => (rule.1, (g.directoryOver names).body rule)) =
    rules at linked
  have bodies : rules.map Prod.snd = g.rules.map (g.directoryOver names).body := by
    rw [← matchers, List.map_map]
    rfl
  have defects : ((rules.zip (RuleSignatures.infer g.schema (rules.map Prod.snd)).2.toList).flatMap
      fun rule => ruleDefects g.schema (RuleSignatures.infer g.schema (rules.map Prod.snd)).1
        rule.2 rule.1.1 rule.1.2) = g.rules.flatMap (g.ownDefects names) := by
    rw [RuleSignatures.zip_infer, List.flatMap_map, bodies, ← matchers, List.flatMap_map]
    rfl
  have named : rules.map (fun rule => Rule.mk rule.1 rule.2) =
      g.rules.map fun rule => ⟨rule.1, (g.directoryOver names).body rule⟩ := by
    rw [← matchers, List.map_map]
    rfl
  refine ⟨entry, ?_⟩
  rw [resolve, linked]
  simp only [bind, Except.bind, defects]
  rw [named, bodies]
  rfl

/-- A grammar in which names are unknown has the defects of these. -/
theorem resolve_of_not_known (unknown : ¬ g.Known names) :
    g.resolve names =
      .error (g.missingEntry ++ g.rules.flatMap (g.directoryOver names).nameDefects) := by
  rw [resolve, link_of_not_known unknown]
  rfl

/-- A grammar without defects becomes a program. -/
theorem resolve_of_sound (sound : g.Sound names) :
    ∃ entry, g.resolve names = .ok (g.programOver names entry, names.internAll g.texts) := by
  obtain ⟨entry, resolved⟩ := resolve_of_known sound.1
  have none : (g.rules.flatMap (g.ownDefects names)).isEmpty = true :=
    List.isEmpty_iff.mpr (List.flatMap_eq_nil_iff.mpr sound.2)
  exact ⟨entry, resolved.trans (if_pos none)⟩

/-- A grammar with defects has those of its rules, in the order of these, and in front of them that
of a missing entry rule. -/
theorem resolve_of_not_sound (unsound : ¬ g.Sound names) :
    g.resolve names = .error (g.missingEntry ++ g.rules.flatMap (g.defectsOf names)) := by
  by_cases known : g.Known names
  · obtain ⟨entry, resolved⟩ := resolve_of_known known
    have some : ¬ (g.rules.flatMap (g.ownDefects names)).isEmpty = true := fun none =>
      unsound ⟨known, List.flatMap_eq_nil_iff.mp (List.isEmpty_iff.mp none)⟩
    have entryKnown : g.missingEntry = [] := if_neg known.1
    have own : g.defectsOf names = g.ownDefects names := funext fun rule => if_pos known
    rw [resolved, if_neg some, entryKnown, own, List.nil_append]
  · have own : g.defectsOf names = (g.directoryOver names).nameDefects :=
      funext fun rule => if_neg known
    rw [resolve_of_not_known known, own]

/-- Resolving the grammar fails, and the defect is among those that are found. -/
def Reports (g : Grammar) (names : Interner) (defect : Defect) : Prop :=
  ∃ defects, g.resolve names = .error defects ∧ defect ∈ defects

instance (g : Grammar) (names : Interner) (defect : Defect) : Decidable (g.Reports names defect) :=
  match h : g.resolve names with
  | .ok _ => isFalse fun ⟨_, failed, _⟩ => nomatch h.symm.trans failed
  | .error defects => decidable_of_iff (defect ∈ defects)
      ⟨fun among => ⟨defects, h, among⟩,
        fun ⟨_, failed, among⟩ => Except.error.inj (h.symm.trans failed) ▸ among⟩

/-- A grammar whose names are known reports the defects of its rules, and no others. -/
theorem reports_iff_of_known (known : g.Known names) (defect : Defect) :
    g.Reports names defect ↔ ∃ rule ∈ g.rules, defect ∈ g.ownDefects names rule := by
  obtain ⟨entry, resolved⟩ := resolve_of_known known
  rw [Reports, resolved, ← List.mem_flatMap]
  split
  · next none =>
    rw [List.isEmpty_iff.mp none]
    simp
  · simp

end Grammar

end CombinatorGrammar
