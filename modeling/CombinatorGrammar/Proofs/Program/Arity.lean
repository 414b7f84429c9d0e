import CombinatorGrammar.Proofs.Program.Resolution

/-!
# Numbers of values

The number of values that a matcher yields is the length of its signature; the interpreter looks
up the number only, while validation compares signatures. What validation says about a part of a
program is restated here in numbers.
-/

namespace CombinatorGrammar

namespace Signature

@[simp] theorem concat_nil : concat [] = some [] := rfl

@[simp] theorem concat_none (items : List (Option Signature)) : concat (none :: items) = none := by
  simp [concat]

@[simp] theorem concat_some (s : Signature) (items : List (Option Signature)) :
    concat (some s :: items) = (concat items).map (s ++ ·) := by
  cases h : items.mapM id <;> simp [concat, h]

/-- A signature that is put together is that of the first item and, behind it, that of the others.
-/
theorem concat_cons_eq_some_iff {item : Option Signature} {items : List (Option Signature)}
    {whole : Signature} : concat (item :: items) = some whole ↔
      ∃ s t, item = some s ∧ concat items = some t ∧ s ++ t = whole := by
  cases item with
  | none => simp
  | some s => simp [Option.map_eq_some_iff]

/-- Joining signatures of one length keeps that length. -/
theorem length_foldl_join (schema : Schema) (first : Signature) (others : List Signature)
    (even : ∀ s ∈ others, s.length = first.length) :
    (others.foldl (fun joined s => List.zipWith (Shape.join schema) joined s) first).length =
      first.length := by
  induction others generalizing first with
  | nil => rfl
  | cons s others ih =>
    obtain ⟨here, later⟩ := List.forall_mem_cons.mp even
    have kept : (List.zipWith (Shape.join schema) first s).length = first.length := by
      simp [here]
    rw [List.foldl_cons, ih _ (fun t among => (later t among).trans kept.symm), kept]

end Signature

namespace Matcher

variable {schema : Schema} {rules : RuleRef → Option Signature}

/-- The signatures of several matchers are computed one by one. -/
theorem signatures_eq_map (schema : Schema) (rules : RuleRef → Option Signature)
    (ms : List Matcher) : signatures schema rules ms = ms.map (signature? schema rules) := by
  induction ms with
  | nil => rfl
  | cons m ms ih => rw [signatures, ih, List.map_cons]

/-- The numbers of values of several matchers are computed one by one. -/
theorem arities_eq_map (rules : RuleRef → Option Nat) (ms : List Matcher) :
    arities rules ms = ms.map (arity? rules) := by
  induction ms with
  | nil => rfl
  | cons m ms ih => rw [arities, ih, List.map_cons]

/-- A sequence yields as many values as its first item and the others together. -/
theorem arity?_seq_cons {count : RuleRef → Option Nat} {m : Matcher} {ms : List Matcher} {i j : Nat}
    (first : m.arity? count = some i) (rest : (seq ms).arity? count = some j) :
    (seq (m :: ms)).arity? count = some (i + j) := by
  simp only [arity?, arities, List.mapM_cons] at first rest ⊢
  obtain ⟨numbers, found, rfl⟩ := Option.map_eq_some_iff.mp rest
  simp [first, found]

/-- The lengths of signatures one after the other add up. -/
private theorem sum_lengths (items : List (Option Signature)) :
    ((items.map (Option.map List.length)).mapM id).map (List.foldr (· + ·) 0) =
      (Signature.concat items).map List.length := by
  induction items with
  | nil => rfl
  | cons item items ih =>
    cases item with
    | none => simp
    | some s =>
      cases numbers : (items.map (Option.map List.length)).mapM id <;>
        cases joined : Signature.concat items <;> simp_all

/-- A choice has as many places as the first known alternative. -/
private theorem first_length (schema : Schema) (known : List (Option Signature)) :
    ((known.map (Option.map List.length)).filterMap id).head? =
      (Signature.alternatives schema known).map List.length := by
  have lengths : (known.map (Option.map List.length)).filterMap id =
      (known.filterMap id).map List.length := by
    rw [List.filterMap_map, List.map_filterMap]
    rfl
  rw [lengths, Signature.alternatives]
  cases known.filterMap id with
  | nil => rfl
  | cons first others =>
    rw [Option.map_some, Signature.length_foldl_join]
    · rfl
    · intro s among
      simpa using (List.mem_filter.mp among).2

/-- The number of values is the length of the signature. -/
theorem arity?_eq_length (m : Matcher) :
    m.arity? (fun ref => (rules ref).map List.length) =
      (m.signature? schema rules).map List.length := by
  induction m with
  | token kind text keep => cases keep <;> rfl
  | rule ref => rfl
  | seq items ih =>
    rw [arity?, signature?, arities_eq_map, signatures_eq_map, ← sum_lengths, List.map_map]
    rw [List.map_congr_left ih]
    rfl
  | choice alternatives ih =>
    rw [arity?, signature?, arities_eq_map, signatures_eq_map, ← first_length, List.map_map]
    rw [List.map_congr_left ih]
    rfl
  | opt m ih => exact ih
  | group => rfl
  | list => rfl
  | sepList => rfl
  | cut => rfl
  | predicate ref m ih => exact ih
  | skip => rfl
  | protect m guard ih => exact ih
  | null => rfl
  | node => rfl
  | enum => rfl

end Matcher

namespace Validation

/-- The defects of several matchers are found one by one. -/
theorem defectsOfAll_eq_flatMap (v : Validation) (ms : List Matcher) :
    v.defectsOfAll ms = ms.flatMap v.defects := by
  induction ms with
  | nil => rfl
  | cons m ms ih => rw [defectsOfAll, ih, List.flatMap_cons]

/-- Several matchers have no defects if none of them has. -/
theorem defectsOfAll_eq_nil_iff {v : Validation} {ms : List Matcher} :
    v.defectsOfAll ms = [] ↔ ∀ m ∈ ms, v.defects m = [] := by
  rw [defectsOfAll_eq_flatMap, List.flatMap_eq_nil_iff]

end Validation

namespace Program

variable {p : Program} {m n : Matcher} {ms : List Matcher}

/-- The signature of a matcher of the program, if it is known. -/
def signature? (p : Program) (m : Matcher) : Option Signature :=
  m.signature? p.schema p.signatures.get?

/-- The number of values that a matcher of the program yields, if it is known. -/
def arity? (p : Program) (m : Matcher) : Option Nat :=
  m.arity? fun ref => (p.signatures.get? ref).map List.length

theorem arity_eq_getD (p : Program) (m : Matcher) : p.arity m = (p.arity? m).getD 0 := rfl

/-- A matcher yields as many values as its signature has places. -/
theorem arity?_eq_length (p : Program) (m : Matcher) :
    p.arity? m = (p.signature? m).map List.length :=
  Matcher.arity?_eq_length m

/-- In a program, a sequence yields as many values as its first item and the others together. -/
theorem arity?_seq_cons (p : Program) (m : Matcher) (ms : List Matcher) {i j : Nat}
    (first : p.arity? m = some i) (rest : p.arity? (.seq ms) = some j) :
    p.arity? (.seq (m :: ms)) = some (i + j) :=
  Matcher.arity?_seq_cons first rest

/-- Validation finds no defect in the matcher as part of some rule. -/
def Valid (p : Program) (m : Matcher) : Prop :=
  ∃ rule, Validation.defects ⟨p.schema, p.signatures, rule⟩ m = []

namespace Valid

/-- What has no defect is made of operands without defects. -/
theorem operand (h : p.Valid m) (among : n ∈ m.operands) : p.Valid n := by
  obtain ⟨rule, sound⟩ := h
  refine ⟨rule, ?_⟩
  cases m with
  | seq items => exact Validation.defectsOfAll_eq_nil_iff.mp sound n among
  | choice alternatives =>
    exact Validation.defectsOfAll_eq_nil_iff.mp (List.append_eq_nil_iff.mp sound).1 n among
  | opt m =>
    obtain rfl := List.mem_singleton.mp among
    exact sound
  | group m =>
    obtain rfl := List.mem_singleton.mp among
    exact sound
  | list _ m | predicate _ m | node _ _ m | enum _ _ m =>
    obtain rfl := List.mem_singleton.mp among
    exact (List.append_eq_nil_iff.mp sound).1
  | sepList _ element separator =>
    simp only [Validation.defects, List.append_eq_nil_iff] at sound
    simp only [Matcher.operands, List.mem_cons, List.not_mem_nil, or_false] at among
    rcases among with rfl | rfl
    · exact sound.1.1
    · exact sound.1.2
  | protect m guard =>
    simp only [Validation.defects, List.append_eq_nil_iff] at sound
    simp only [Matcher.operands, List.mem_cons, List.not_mem_nil, or_false] at among
    rcases among with rfl | rfl
    · exact sound.1
    · exact sound.2
  | token | rule | cut | skip | null => cases among

/-- All known alternatives of a choice yield as many values as the choice. -/
theorem choice (h : p.Valid (.choice ms)) (among : m ∈ ms) {i : Nat}
    (known : p.arity? m = some i) : p.arity? (.choice ms) = some i := by
  obtain ⟨rule, sound⟩ := h
  have agree : Validation.choiceDefects ⟨p.schema, p.signatures, rule⟩ ms = [] :=
    (List.append_eq_nil_iff.mp sound).2
  have numbers : (Validation.arity? ⟨p.schema, p.signatures, rule⟩) = p.arity? :=
    funext fun n => (p.arity?_eq_length n).symm
  have listed : i ∈ ms.filterMap p.arity? := List.mem_filterMap.mpr ⟨m, among, known⟩
  have first : p.arity? (.choice ms) = (ms.filterMap p.arity?).head? := by
    rw [arity?, Matcher.arity?, Matcher.arities_eq_map, List.filterMap_map]
    rfl
  rw [Validation.choiceDefects, numbers] at agree
  rw [first]
  cases found : ms.filterMap p.arity? with
  | nil =>
    rw [found] at listed
    cases listed
  | cons expected others =>
    rw [found] at agree listed
    rcases List.mem_cons.mp listed with rfl | later
    · rfl
    · simp only at agree
      split at agree
      · cases agree
      · next none =>
        have same := List.find?_eq_none.mp none i later
        simp only [bne_iff_ne, ne_eq, Decidable.not_not] at same
        rw [same, List.head?_cons]

/-- Where no defect is found, a known number of values is the required one. -/
theorem arityDefects_nil {rule : String} {place : ArityPlace} {required i : Nat}
    (sound : Validation.arityDefects ⟨p.schema, p.signatures, rule⟩ place required m = [])
    (known : p.arity? m = some i) : i = required := by
  have number : Validation.arity? ⟨p.schema, p.signatures, rule⟩ m = some i :=
    (p.arity?_eq_length m).symm.trans known
  rw [Validation.arityDefects, number] at sound
  simpa using sound

/-- The element of a list yields one value, if it is known how many. -/
theorem list {repetition : Repetition} (h : p.Valid (.list repetition m)) {i : Nat}
    (known : p.arity? m = some i) : i = 1 := by
  obtain ⟨_, sound⟩ := h
  exact arityDefects_nil (List.append_eq_nil_iff.mp sound).2 known

/-- The element of a list with separators yields one value, if it is known how many. -/
theorem sepList {repetition : Repetition} (h : p.Valid (.sepList repetition m n)) {i : Nat}
    (known : p.arity? m = some i) : i = 1 := by
  obtain ⟨_, sound⟩ := h
  exact arityDefects_nil (List.append_eq_nil_iff.mp sound).2 known

/-- What stands behind an alternative of an enum type yields no value, if it is known how many. -/
theorem enum {type : EnumRef} {alternative : Nat} (h : p.Valid (.enum type alternative m)) {i : Nat}
    (known : p.arity? m = some i) : i = 0 := by
  obtain ⟨_, sound⟩ := h
  exact arityDefects_nil (List.append_eq_nil_iff.mp sound).2 known

/-- A skip yields a node of an error type. -/
theorem skip {errorType : NodeRef} (h : p.Valid (.skip errorType)) :
    p.schema.isError errorType = true := by
  obtain ⟨_, sound⟩ := h
  simpa [Validation.defects] using sound

/-- A node is built from one value of a fitting shape for each place of its layout, if the shapes
are known. -/
theorem node {type : NodeRef} {layout : List FieldKind} (h : p.Valid (.node type layout m))
    {shapes : Signature} (known : p.signature? m = some shapes) :
    shapes.length = layout.length ∧
      ∀ slot ∈ (shapes.zip layout).zip (p.schema.layout type),
        slot.1.1.fits p.schema slot.1.2 = true := by
  obtain ⟨rule, sound⟩ := h
  have nodes := (List.append_eq_nil_iff.mp sound).2
  have found : Validation.signature? ⟨p.schema, p.signatures, rule⟩ m = some shapes := known
  simp only [Validation.nodeDefects, found] at nodes
  split at nodes
  · cases nodes
  · split at nodes
    · cases nodes
    · next even =>
      refine ⟨Decidable.not_not.mp even, fun slot among => ?_⟩
      rw [List.map_eq_nil_iff, List.filter_eq_nil_iff] at nodes
      simpa using nodes slot among

end Valid

/-- Everything in a program that has been checked is valid. -/
theorem Checked.valid_part (checked : p.Checked) (part : m ∈ p.parts) : p.Valid m := by
  obtain ⟨rule, among, below⟩ := mem_parts.mp part
  exact Matcher.forall_parts (fun _ h _ => h.operand) ⟨rule.name, checked.valid rule among⟩ m below

/-- Every node construction in a program that has been checked has the layout of its type. -/
theorem Checked.node_layout (checked : p.Checked) {type : NodeRef} {layout : List FieldKind}
    (part : .node type layout m ∈ p.parts) : layout = (p.schema.layout type).map Field.kind := by
  obtain ⟨rule, among, below⟩ := mem_parts.mp part
  exact checked.anchored rule among _ below

/-- Every reference in a program that has been checked is to one of its rules. -/
theorem Checked.rule_lt (checked : p.Checked) {ref : RuleRef} (part : .rule ref ∈ p.parts) :
    ref.index < p.rules.size := by
  obtain ⟨rule, among, below⟩ := mem_parts.mp part
  exact checked.anchored rule among _ below

end Program

end CombinatorGrammar
