import CombinatorGrammar.Token.Vocabulary
import Mathlib.Data.List.Dedup
import Mathlib.Data.List.Perm.Subperm
import Mathlib.Data.Nat.Basic
import Mathlib.Order.Basic

/-!
# Tables of a vocabulary

A vocabulary is asked for kinds by their names and by fixed texts, and for the names and the fixed
texts of kinds. The answers agree with each other by what the tables of every vocabulary satisfy.
What was answered once stays so whatever is defined later: a name keeps the kind and the fixed text
that it was defined with first, and a fixed text the first kind that was defined with it.
-/

namespace CombinatorGrammar

namespace Vocabulary

/-- One definition of a kind. -/
inductive Call where
  | define (name : String)
  | defineLiteral (name text : String)

/-- The name and the fixed text that a definition asks for. -/
def Call.entry : Call → String × Option String
  | define name => (name, none)
  | defineLiteral name text => (name, some text)

/-- The name that a definition asks for. -/
def Call.name (c : Call) : String := c.entry.1

/-- The kind that a definition answers, and the vocabulary after it. -/
def call (v : Vocabulary) : Call → Option (TokenKind × Vocabulary)
  | .define name => v.define name
  | .defineLiteral name text => v.defineLiteral name text

/-- The kinds that definitions answer in turn, and the vocabulary after them. -/
def callAll (v : Vocabulary) : List Call → Option (List TokenKind × Vocabulary)
  | [] => some ([], v)
  | c :: calls => do
    let (kind, v) ← v.call c
    let (kinds, v) ← v.callAll calls
    return (kind :: kinds, v)

variable {v w : Vocabulary} {kind : TokenKind} {name text : String} {literal : Option String}

/-- A name has the kind under which the name is recorded. -/
theorem kind?_eq_some_iff : v.kind? name = some kind ↔ v.names.get? kind.index = some name := by
  rw [← SymbolTable.find?_eq_some_iff, kind?, Option.map_eq_some_iff]
  constructor
  · rintro ⟨_, found, rfl⟩
    exact found
  · intro found
    exact ⟨kind.index, found, rfl⟩

/-- A kind has the literal recorded for it. -/
theorem literal?_eq_some_iff :
    v.literal? kind = some text ↔ v.literals[kind.index]? = some (some text) :=
  Option.join_eq_some_iff

/-- The kinds are those below the size. -/
theorem mem_kinds_iff : kind ∈ v.kinds ↔ kind.index < v.size := by
  rw [kinds, List.mem_map]
  constructor
  · rintro ⟨i, inside, rfl⟩
    exact List.mem_range.mp inside
  · intro inside
    exact ⟨kind.index, List.mem_range.mpr inside, rfl⟩

/-- Only kinds of the vocabulary have literals. -/
theorem mem_kinds_of_literal? (h : v.literal? kind = some text) : kind ∈ v.kinds := by
  rw [mem_kinds_iff, size, ← v.sizes]
  exact (Array.getElem?_eq_some_iff.mp (literal?_eq_some_iff.mp h)).1

/-- A fixed text is bound to the smallest kind that has it. -/
theorem literalKind?_eq_some_iff :
    v.literalKind? text = some kind ↔
      v.literal? kind = some text ∧ ∀ l, v.literal? l = some text → kind.index ≤ l.index := by
  rw [literalKind?_eq, Option.map_eq_some_iff]
  constructor
  · rintro ⟨i, found, rfl⟩
    obtain ⟨inside, here, before⟩ := Array.findIdx?_eq_some_iff_getElem.mp found
    refine ⟨literal?_eq_some_iff.mpr ?_, fun l other => Nat.le_of_not_lt fun less => ?_⟩
    · rw [Array.getElem?_eq_getElem inside, eq_of_beq here]
    · obtain ⟨_, there⟩ := Array.getElem?_eq_some_iff.mp (literal?_eq_some_iff.mp other)
      exact before l.index less (beq_iff_eq.mpr there)
  · rintro ⟨here, least⟩
    obtain ⟨inside, fixed⟩ := Array.getElem?_eq_some_iff.mp (literal?_eq_some_iff.mp here)
    refine ⟨kind.index, Array.findIdx?_eq_some_iff_getElem.mpr
      ⟨inside, beq_iff_eq.mpr fixed, fun j less found => ?_⟩, rfl⟩
    have other : v.literal? ⟨j⟩ = some text := literal?_eq_some_iff.mpr
      (Array.getElem?_eq_some_iff.mpr ⟨less.trans inside, eq_of_beq found⟩)
    exact Nat.not_lt.mpr (least ⟨j⟩ other) less

/-- The kind that a fixed text is bound to has that text. -/
theorem literal?_of_literalKind? (h : v.literalKind? text = some kind) :
    v.literal? kind = some text :=
  (literalKind?_eq_some_iff.mp h).1

/-- A text without a kind is the literal of no kind. -/
theorem literalKind?_eq_none_iff :
    v.literalKind? text = none ↔ ∀ kind, v.literal? kind ≠ some text := by
  rw [literalKind?_eq, Option.map_eq_none_iff, Array.findIdx?_eq_none_iff]
  constructor
  · intro unbound kind fixed
    have among := Array.mem_of_getElem? (literal?_eq_some_iff.mp fixed)
    exact absurd (unbound _ among) (by simp)
  · intro unbound fixed among
    obtain ⟨i, here⟩ := Array.mem_iff_getElem?.mp among
    refine beq_eq_false_iff_ne.mpr fun same => unbound ⟨i⟩ (literal?_eq_some_iff.mpr ?_)
    rw [here, same]

/-- A kind found by a name has that name. -/
theorem name_of_kind? (h : v.kind? name = some kind) : v.name kind = name := by
  rw [Vocabulary.name, kind?_eq_some_iff.mp h, Option.getD_some]

/-- The kinds are those that have names. -/
theorem mem_kinds_iff_exists : kind ∈ v.kinds ↔ ∃ name, v.kind? name = some kind := by
  simp only [mem_kinds_iff, kind?_eq_some_iff]
  constructor
  · intro inside
    exact ⟨_, Array.getElem?_eq_getElem inside⟩
  · rintro ⟨name, named⟩
    exact (Array.getElem?_eq_some_iff.mp named).1

/-- A kind is found by its name. -/
theorem kind?_name (h : kind ∈ v.kinds) : v.kind? (v.name kind) = some kind := by
  obtain ⟨name, named⟩ := mem_kinds_iff_exists.mp h
  rwa [name_of_kind? named]

/-- Different kinds have different names. -/
theorem nodup_names (v : Vocabulary) : (v.kinds.map v.name).Nodup := by
  refine List.Nodup.map_on (fun k among l listed same => ?_) ?_
  · have found := kind?_name among
    rw [same, kind?_name listed] at found
    exact (Option.some.inj found).symm
  · exact List.nodup_range.map fun _ _ same => congrArg TokenKind.index same

theorem kind?_termination (v : Vocabulary) : v.kind? "Termination" = some .termination :=
  kind?_eq_some_iff.mpr v.first.1

theorem literal?_termination (v : Vocabulary) : v.literal? .termination = none := by
  rw [literal?, TokenKind.termination, v.first.2, Option.join_some]

/-- The later vocabulary has the kinds of the earlier one, with their names and fixed texts. -/
structure Extends (v w : Vocabulary) : Prop where
  names : ∀ ⦃i : Nat⦄ ⦃name : String⦄, v.names.get? i = some name → w.names.get? i = some name
  literals : ∀ ⦃i : Nat⦄ ⦃literal : Option String⦄,
    v.literals[i]? = some literal → w.literals[i]? = some literal

namespace Extends

theorem refl (v : Vocabulary) : v.Extends v := ⟨fun _ _ => id, fun _ _ => id⟩

theorem trans {u : Vocabulary} (h : v.Extends w) (h' : w.Extends u) : v.Extends u where
  names _ _ named := h'.names (h.names named)
  literals _ _ fixed := h'.literals (h.literals fixed)

variable (h : v.Extends w)
include h

/-- A name keeps its kind. -/
theorem kind?_eq (known : v.kind? name = some kind) : w.kind? name = some kind :=
  kind?_eq_some_iff.mpr (h.names (kind?_eq_some_iff.mp known))

/-- A kind keeps its name. -/
theorem name_eq (among : kind ∈ v.kinds) : w.name kind = v.name kind :=
  name_of_kind? (h.kind?_eq (kind?_name among))

/-- A kind keeps its literal. -/
theorem literal?_eq (among : kind ∈ v.kinds) : w.literal? kind = v.literal? kind := by
  rw [mem_kinds_iff, size, ← v.sizes] at among
  have here := Array.getElem?_eq_getElem among
  rw [literal?, literal?, here, h.literals here]

/-- A text that is bound stays bound to its kind, as kinds that are defined later are larger. -/
theorem literalKind?_eq (bound : v.literalKind? text = some kind) :
    w.literalKind? text = some kind := by
  obtain ⟨fixed, least⟩ := literalKind?_eq_some_iff.mp bound
  have among := mem_kinds_of_literal? fixed
  refine literalKind?_eq_some_iff.mpr ⟨(h.literal?_eq among).trans fixed, fun l other => ?_⟩
  rcases Nat.lt_or_ge l.index v.size with before | later
  · exact least l ((h.literal?_eq (mem_kinds_iff.mpr before)).symm.trans other)
  · exact (mem_kinds_iff.mp among).le.trans later

end Extends

/-- A name that has a kind keeps it, and the vocabulary stays as it is. -/
theorem add_of_known (known : v.kind? name = some kind) (literal : Option String) :
    v.add name literal = some (kind, v) := by
  obtain ⟨i, found, rfl⟩ := Option.map_eq_some_iff.mp known
  unfold add
  split
  · next j found' =>
    rw [found, Option.some.injEq] at found'
    rw [found']
  · next found' => exact absurd (found.symm.trans found') (Option.some_ne_none i)

/-- A name without a kind gets the next one, with its fixed text, if there is room for it. -/
theorem add_of_new (new : v.kind? name = none) (room : v.size < maxKinds)
    (literal : Option String) :
    ∃ w, v.add name literal = some (⟨v.size⟩, w) ∧
      w.names.entries = v.names.entries.push name ∧ w.literals = v.literals.push literal := by
  obtain ⟨number, entries⟩ :=
    SymbolTable.entries_insert_of_find? (Option.map_eq_none_iff.mp new)
  unfold add
  split
  · next i found => exact absurd ((Option.map_eq_none_iff.mp new).symm.trans found) nofun
  · rw [size] at room
    rw [if_pos room]
    exact ⟨_, congrArg (fun i => some (TokenKind.mk i, _)) number, entries, rfl⟩

/-- No more can be added than there is room for. -/
theorem add_eq_none (new : v.kind? name = none) (full : ¬ v.size < maxKinds)
    (literal : Option String) : v.add name literal = none := by
  unfold add
  split
  · next i found => exact absurd ((Option.map_eq_none_iff.mp new).symm.trans found) nofun
  · exact if_neg full

/-- What it means that a name was defined, if it was new with this fixed text. -/
structure Defines (v : Vocabulary) (name : String) (literal : Option String) (kind : TokenKind)
    (w : Vocabulary) : Prop where
  /-- What was defined before stays so. -/
  keeps : v.Extends w
  /-- The name has the kind. -/
  named : w.kind? name = some kind
  /-- The fixed text is that of a new kind only. -/
  fixed : v.kind? name = none → w.literal? kind = literal
  /-- No other name gets a kind. -/
  others : ∀ other ≠ name, w.kind? other = v.kind? other

/-- What is pushed defines a new kind with its name and literal. -/
theorem defines_of_push (names : w.names.entries = v.names.entries.push name)
    (literals : w.literals = v.literals.push literal) : v.Defines name literal ⟨v.size⟩ w := by
  have get?_eq (i : Nat) :
      w.names.get? i = if i = v.size then some name else v.names.get? i := by
    rw [SymbolTable.get?, names, Array.getElem?_push]
    rfl
  have literals_eq (i : Nat) :
      w.literals[i]? = if i = v.size then some literal else v.literals[i]? := by
    rw [literals, Array.getElem?_push, v.sizes]
    rfl
  refine ⟨⟨fun i name' named => ?_, fun i literal' fixed => ?_⟩, ?_, fun _ => ?_,
    fun other ne => ?_⟩
  · have inside : i < v.size := (Array.getElem?_eq_some_iff.mp named).1
    rw [get?_eq, if_neg inside.ne, named]
  · have inside : i < v.size := (Array.getElem?_eq_some_iff.mp fixed).1.trans_eq v.sizes
    rw [literals_eq, if_neg inside.ne, fixed]
  · rw [kind?_eq_some_iff, get?_eq, if_pos rfl]
  · rw [literal?, literals_eq, if_pos rfl, Option.join_some]
  · refine Option.ext fun k => ?_
    rw [kind?_eq_some_iff, kind?_eq_some_iff, get?_eq]
    by_cases last : k.index = v.size
    · have beyond : v.names.get? k.index = none := Array.getElem?_eq_none last.ge
      rw [if_pos last, beyond, Option.some.injEq]
      exact iff_of_false ne.symm (Option.some_ne_none other).symm
    · rw [if_neg last]

/-- What is added defines a new kind with its name and literal. -/
theorem defines_of_add (h : v.add name literal = some (kind, w)) :
    v.Defines name literal kind w := by
  cases found : v.kind? name with
  | some known =>
    rw [add_of_known found, Option.some.injEq, Prod.mk.injEq] at h
    obtain ⟨rfl, rfl⟩ := h
    exact ⟨.refl v, found, fun new => absurd (found.symm.trans new) nofun, fun _ _ => rfl⟩
  | none =>
    by_cases room : v.size < maxKinds
    · obtain ⟨u, added, names, literals⟩ := add_of_new found room literal
      rw [added, Option.some.injEq, Prod.mk.injEq] at h
      obtain ⟨rfl, rfl⟩ := h
      exact defines_of_push names literals
    · rw [add_eq_none found room] at h
      cases h

theorem call_eq (v : Vocabulary) (c : Call) : v.call c = v.add c.name c.entry.2 := by
  cases c <;> rfl

/-- Calls are answered one after the other. -/
theorem callAll_cons_eq_some {c : Call} {calls : List Call} {given : List TokenKind}
    (h : v.callAll (c :: calls) = some (given, w)) :
    ∃ kind u kinds, v.call c = some (kind, u) ∧ u.callAll calls = some (kinds, w) ∧
      given = kind :: kinds := by
  rw [callAll] at h
  obtain ⟨⟨kind, u⟩, made, h⟩ := Option.bind_eq_some_iff.mp h
  obtain ⟨⟨kinds, w'⟩, others, h⟩ := Option.bind_eq_some_iff.mp h
  cases h
  exact ⟨kind, u, kinds, made, others, rfl⟩

/-- Calls only extend a vocabulary. -/
theorem extends_of_callAll {calls : List Call} {given : List TokenKind}
    (h : v.callAll calls = some (given, w)) : v.Extends w := by
  induction calls generalizing v given with
  | nil =>
    cases h
    exact .refl _
  | cons c calls ih =>
    obtain ⟨kind, u, kinds, made, others, -⟩ := callAll_cons_eq_some h
    rw [call_eq] at made
    exact (defines_of_add made).keeps.trans (ih others)

/-- The definitions that a vocabulary came from, with the termination kind before them. -/
def entries (calls : List Call) : List (String × Option String) :=
  ("Termination", none) :: calls.map Call.entry

/-- The vocabulary came from these definitions, which answered these kinds. -/
structure Records (v : Vocabulary) (calls : List Call) (given : List TokenKind) : Prop where
  /-- The name of each definition has the kind that was answered. -/
  answers : calls.map (fun c => v.kind? c.name) = given.map some
  /-- A name has a kind if it was defined, with the fixed text of its first definition. -/
  first : ∀ name, (v.kind? name).map v.literal? =
    ((entries calls).find? (·.1 == name)).map Prod.snd

theorem records_initial : initial.Records [] [] where
  answers := rfl
  first name := by
    by_cases same : name = "Termination"
    · subst same
      rw [kind?_termination, Option.map_some, literal?_termination]
      rfl
    · have unknown : initial.kind? name = none := by
        refine Option.eq_none_iff_forall_ne_some.mpr fun kind known => same ?_
        have inside := mem_kinds_iff.mp (mem_kinds_iff_exists.mpr ⟨name, known⟩)
        obtain rfl : kind = .termination := congrArg TokenKind.mk (Nat.lt_one_iff.mp inside)
        rw [← name_of_kind? known, name_of_kind? initial.kind?_termination]
      have unlisted : ("Termination" == name) = false := beq_eq_false_iff_ne.mpr (Ne.symm same)
      rw [unknown, entries, List.find?_cons_of_neg (by simp [unlisted])]
      rfl

namespace Records

variable {calls : List Call} {given : List TokenKind} (h : v.Records calls given)
include h

/-- One more definition has its answer, and leaves the earlier ones. -/
theorem call {c : Call} (made : v.call c = some (kind, w)) :
    w.Records (calls ++ [c]) (given ++ [kind]) := by
  rw [call_eq] at made
  have defines := defines_of_add made
  constructor
  case answers =>
    have kept : calls.map (fun c => w.kind? c.name) = calls.map (fun c => v.kind? c.name) := by
      refine List.map_congr_left fun c among => ?_
      have answered : v.kind? c.name ∈ given.map some := h.answers ▸ List.mem_map_of_mem among
      obtain ⟨k, -, known⟩ := List.mem_map.mp answered
      rw [← known]
      exact defines.keeps.kind?_eq known.symm
    rw [List.map_append, List.map_append, kept, h.answers, List.map_singleton, defines.named,
      List.map_singleton]
  case first =>
    intro name
    have before := h.first name
    rw [entries, List.map_append, ← List.cons_append, ← entries, List.find?_append]
    cases known : v.kind? name with
    | some k =>
      rw [known, Option.map_some] at before
      obtain ⟨entry, found, fixed⟩ := Option.map_eq_some_iff.mp before.symm
      have among : k ∈ v.kinds := mem_kinds_iff_exists.mpr ⟨name, known⟩
      rw [defines.keeps.kind?_eq known, found, Option.some_or, Option.map_some, Option.map_some,
        defines.keeps.literal?_eq among, fixed]
    | none =>
      rw [known, Option.map_none] at before
      rw [Option.map_eq_none_iff.mp before.symm, Option.none_or, List.map_singleton,
        List.find?_singleton]
      by_cases same : c.entry.1 = name
      · have named : w.kind? name = some kind := same ▸ defines.named
        have fixed : w.literal? kind = c.entry.2 := defines.fixed (by rw [Call.name, same, known])
        rw [named, if_pos (beq_iff_eq.mpr same), Option.map_some, Option.map_some, fixed]
      · rw [defines.others name (Ne.symm same), known, if_neg (mt beq_iff_eq.mp same)]
        rfl

/-- Only names that were defined have kinds. -/
theorem mem_of_mem_names (among : name ∈ v.kinds.map v.name) :
    name ∈ "Termination" :: calls.map Call.name := by
  obtain ⟨k, listed, rfl⟩ := List.mem_map.mp among
  have first := h.first (v.name k)
  rw [kind?_name listed, Option.map_some] at first
  obtain ⟨entry, found, -⟩ := Option.map_eq_some_iff.mp first.symm
  have same := List.find?_some found
  have named : v.name k ∈ (entries calls).map Prod.fst :=
    List.mem_map.mpr ⟨entry, List.mem_of_find?_eq_some found, eq_of_beq same⟩
  rwa [entries, List.map_cons, List.map_map] at named

/-- There is room for a new name if all names together are few enough. -/
theorem size_lt_maxKinds {c : Call} {more : List Call} (new : v.kind? c.name = none)
    (few : ("Termination" :: (calls ++ c :: more).map Call.name).dedup.length ≤ maxKinds) :
    v.size < maxKinds := by
  have distinct : (c.name :: v.kinds.map v.name).Nodup := by
    refine List.nodup_cons.mpr ⟨fun among => ?_, v.nodup_names⟩
    obtain ⟨k, listed, named⟩ := List.mem_map.mp among
    rw [← named, kind?_name listed] at new
    cases new
  have defined : c.name :: v.kinds.map v.name ⊆
      ("Termination" :: (calls ++ c :: more).map Call.name).dedup := by
    refine List.cons_subset.mpr ⟨List.mem_dedup.mpr ?_, fun name among => List.mem_dedup.mpr ?_⟩
    · simp
    · rw [List.map_append, ← List.cons_append]
      exact List.mem_append_left _ (h.mem_of_mem_names among)
  calc v.size + 1
      = (c.name :: v.kinds.map v.name).length := by simp [kinds]
    _ ≤ ("Termination" :: (calls ++ c :: more).map Call.name).dedup.length :=
        (List.subperm_of_subset distinct defined).length_le
    _ ≤ maxKinds := few

/-- Definitions all have answers if there are few enough names. -/
theorem exists_callAll (more : List Call)
    (few : ("Termination" :: (calls ++ more).map Call.name).dedup.length ≤ maxKinds) :
    ∃ kinds w, v.callAll more = some (kinds, w) ∧ w.Records (calls ++ more) (given ++ kinds) := by
  induction more generalizing v calls given with
  | nil => exact ⟨[], v, rfl, by rwa [List.append_nil, List.append_nil]⟩
  | cons c more ih =>
    obtain ⟨kind, u, made⟩ : ∃ kind u, v.call c = some (kind, u) := by
      rw [call_eq]
      cases known : v.kind? c.name with
      | some k => exact ⟨k, v, add_of_known known _⟩
      | none =>
        obtain ⟨u, added, -⟩ := add_of_new known (h.size_lt_maxKinds known few) c.entry.2
        exact ⟨_, u, added⟩
    rw [List.append_cons] at few
    obtain ⟨kinds, w, others, records⟩ := ih (h.call made) few
    refine ⟨kind :: kinds, w, by rw [callAll, made]; simp [others], ?_⟩
    rwa [List.append_cons calls, List.append_cons given]

end Records

/-- The tables of a vocabulary are consistent. As many definitions as there is room for all have
answers, and the vocabulary after them finds the kind that each of them answered by its name, with
the fixed text of the first definition of the name. Kinds have different names, by which they are
found; a fixed text is bound to the smallest kind that has it, if there is one; the termination
kind has its name and no fixed text. To define a name again changes nothing, and whatever else is
defined later, all that was answered about names, kinds and bound texts stays so. -/
theorem tables_consistent (calls : List Call)
    (few : ("Termination" :: calls.map Call.name).dedup.length ≤ maxKinds) :
    ∃ given v, initial.callAll calls = some (given, v) ∧
      calls.map (fun c => v.kind? c.name) = given.map some ∧
      (∀ name, (v.kind? name).map v.literal? =
        ((("Termination", none) :: calls.map Call.entry).find? (·.1 == name)).map Prod.snd) ∧
      ((v.kinds.map v.name).Nodup ∧ ∀ k ∈ v.kinds, v.kind? (v.name k) = some k) ∧
      (∀ text, (∀ k, v.literalKind? text = some k ↔
          v.literal? k = some text ∧ ∀ l, v.literal? l = some text → k.index ≤ l.index) ∧
        (v.literalKind? text = none ↔ ∀ k, v.literal? k ≠ some text)) ∧
      (v.name ⟨0⟩ = "Termination" ∧ v.literal? ⟨0⟩ = none) ∧
      (∀ name k, v.kind? name = some k →
        v.define name = some (k, v) ∧ ∀ text, v.defineLiteral name text = some (k, v)) ∧
      ∀ later more w, v.callAll later = some (more, w) →
        (∀ name k, v.kind? name = some k → w.kind? name = some k) ∧
        (∀ k ∈ v.kinds, w.name k = v.name k ∧ w.literal? k = v.literal? k) ∧
        ∀ text k, v.literalKind? text = some k → w.literalKind? text = some k := by
  obtain ⟨given, v, made, records⟩ := records_initial.exists_callAll calls few
  refine ⟨given, v, made, records.answers, records.first, ⟨v.nodup_names, fun _ => kind?_name⟩,
    fun _ => ⟨fun _ => literalKind?_eq_some_iff, literalKind?_eq_none_iff⟩,
    ⟨name_of_kind? v.kind?_termination, v.literal?_termination⟩,
    fun _ _ known => ⟨add_of_known known none, fun text => add_of_known known (some text)⟩, ?_⟩
  intro later more w done
  have keeps := extends_of_callAll done
  exact ⟨fun _ _ => keeps.kind?_eq, fun _ among => ⟨keeps.name_eq among, keeps.literal?_eq among⟩,
    fun _ _ => keeps.literalKind?_eq⟩

/-- A name that is defined again with a fixed text does not bind the text, and of two kinds with one
fixed text the first is bound to it. -/
theorem tables_consistent_redefined :
    let calls : List Call := [.define "id", .defineLiteral "larrow" "<-", .defineLiteral "id" "x",
      .defineLiteral "assign" "<-"]
    ("Termination" :: calls.map Call.name).dedup.length ≤ maxKinds ∧
    ∃ given v, initial.callAll calls = some (given, v) ∧ given = [⟨1⟩, ⟨2⟩, ⟨1⟩, ⟨3⟩] ∧
      v.literalKind? "x" = none ∧ v.literalKind? "<-" = some ⟨2⟩ ∧
      v.define "larrow" = some (⟨2⟩, v) := by
  intro calls
  have few : ("Termination" :: calls.map Call.name).dedup.length ≤ maxKinds := by decide +kernel
  obtain ⟨given, v, made, -, -, -, -, -, again, -⟩ := tables_consistent calls few
  have told : (initial.callAll calls).map (fun r =>
      (r.1, r.2.literalKind? "x", r.2.literalKind? "<-", r.2.kind? "larrow")) =
      some ([⟨1⟩, ⟨2⟩, ⟨1⟩, ⟨3⟩], none, some ⟨2⟩, some ⟨2⟩) := by
    decide +kernel
  rw [made, Option.map_some, Option.some.injEq] at told
  simp only [Prod.mk.injEq] at told
  obtain ⟨answered, unbound, bound, known⟩ := told
  exact ⟨few, given, v, made, answered, unbound, bound, (again _ _ known).1⟩

end Vocabulary

end CombinatorGrammar
