import CombinatorGrammar.Proofs.Likeness.Output
import CombinatorGrammar.Proofs.Program.Linking

/-!
# Likeness by texts

Two interners number texts in different orders. Names of the two correspond if they are names of
one text, and then sessions whose tokens have the same kinds and texts are alike. Values that are
alike by texts are shown alike, since an outline shows no spans.
-/

namespace CombinatorGrammar

/-- All but the spans is the same. -/
def Likeness.unplaced : Likeness := ⟨Eq, fun _ _ => True⟩

/-- Names correspond if they are names of one text. -/
def Likeness.texts (names names' : Interner) (span : Span → Span → Prop) : Likeness where
  name n n' := ∃ text, names.Gives n text ∧ names'.Gives n' text
  span := span

section Texts

variable {names names' : Interner} {span : Span → Span → Prop}

/-- Names that correspond have one text. -/
theorem text_eq_of_like {n n' : Name} (h : (Likeness.texts names names' span).name n n') :
    names'.text n' = names.text n := by
  obtain ⟨text, given, given'⟩ := h
  rw [Interner.text_of_gives given, Interner.text_of_gives given']

/-- Where the second interner gives what the first one gave, names that correspond are the same. -/
theorem name_eq_of_like (grows : names.Grows names') {n n' : Name}
    (h : (Likeness.texts names names' span).name n n') : n' = n := by
  obtain ⟨text, given, given'⟩ := h
  exact (grows given).name_eq given'

end Texts

namespace TokenStream

/-- The streams have tokens that are alike, one for one. -/
def Like (l : Likeness) (s s' : TokenStream) : Prop :=
  List.Forall₂ (Token.Like l) s.toList s'.toList

/-- The kinds and the texts of the tokens. -/
def wording (names : Interner) (s : TokenStream) : List (TokenKind × String) :=
  s.toList.map fun t => (t.kind, names.text t.text)

/-- All tokens have texts in the interner. -/
def Named (names : Interner) (s : TokenStream) : Prop :=
  ∀ t ∈ s.toList, ∃ text, names.Gives t.text text

variable {l : Likeness} {s s' : TokenStream}

/-- A stream has one token more than its last position. -/
theorem length_toList (s : TokenStream) : s.toList.length = s.lastPosition + 1 := by
  rw [toList, List.length_append, Array.length_toList, List.length_singleton, lastPosition]

/-- Every position from the last on holds the last token. -/
theorem getElem?_toList_min (s : TokenStream) (position : Nat) :
    s.toList[min position s.lastPosition]? = some (s.token position) := by
  rw [toList, lastPosition, token, Array.getD_eq_getD_getElem?, List.getElem?_append,
    Array.length_toList, Array.getElem?_toList]
  by_cases inside : position < s.body.size
  · rw [Nat.min_eq_left (Nat.le_of_lt inside), if_pos inside, Array.getElem?_eq_getElem inside,
      Option.getD_some]
  · rw [Nat.min_eq_right (Nat.le_of_not_lt inside), if_neg (Nat.lt_irrefl _), Nat.sub_self,
      Array.getElem?_eq_none (Nat.le_of_not_lt inside), Option.getD_none]
    rfl

/-- Streams that are alike end at one position. -/
theorem Like.lastPosition_eq (h : s.Like l s') : s'.lastPosition = s.lastPosition := by
  have same := List.Forall₂.length_eq h
  rw [length_toList, length_toList] at same
  omega

/-- Streams that are alike have tokens that are alike at each position. -/
theorem Like.token (h : s.Like l s') (position : Nat) :
    (s.token position).Like l (s'.token position) := by
  have first := s.getElem?_toList_min position
  have second := s'.getElem?_toList_min position
  rw [h.lastPosition_eq] at second
  obtain ⟨inside, first⟩ := List.getElem?_eq_some_iff.mp first
  obtain ⟨inside', second⟩ := List.getElem?_eq_some_iff.mp second
  have alike := (List.forall₂_iff_get.mp h).2 _ inside inside'
  rw [List.get_eq_getElem, List.get_eq_getElem, first, second] at alike
  exact alike

/-- Streams with one wording are alike wherever their tokens stand. -/
theorem like_of_wording {names names' : Interner} (named : s.Named names)
    (named' : s'.Named names') (same : s.wording names = s'.wording names') :
    s.Like (.texts names names' fun _ _ => True) s' := by
  have paired : List.Forall₂ (fun t u => (t.kind, names.text t.text) = (u.kind, names'.text u.text))
      s.toList s'.toList := by
    rw [wording, wording, ← List.forall₂_eq_eq_eq, List.forall₂_map_left_iff,
      List.forall₂_map_right_iff] at same
    exact same
  refine List.forall₂_iff_get.mpr ⟨paired.length_eq, fun i inside inside' => ?_⟩
  obtain ⟨kinds, texts⟩ := Prod.mk.inj ((List.forall₂_iff_get.mp paired).2 i inside inside')
  obtain ⟨text, given⟩ := named _ (List.get_mem ..)
  obtain ⟨text', given'⟩ := named' _ (List.get_mem ..)
  rw [Interner.text_of_gives given, Interner.text_of_gives given'] at texts
  exact ⟨kinds.symm, ⟨text, given, texts ▸ given'⟩, trivial⟩

end TokenStream

/-- Sessions of a program on tokens that are alike by their texts are alike, in interners that both
give the names that the program asks for to the same texts. -/
theorem Program.session_like {p : Program} {names names' : Interner}
    {tokens tokens' : TokenStream} (config : ParseConfig) {span : Span → Span → Prop}
    (asked : ∀ n, p.AsksFor n → ∃ text, names.Gives n text ∧ names'.Gives n text)
    (alike : tokens.Like (.texts names names' span) tokens')
    (merge : ∀ {s s' t t' : Span}, span s s' → span t t' → span (s.merge t) (s'.merge t'))
    (point : ∀ {s s' : Span}, span s s' → span (.point s.start) (.point s'.start))
    (checks : ∀ q ∈ p.predicates, ∀ {v w : Value}, v.Like (.texts names names' span) w →
      q.check p.schema names' w = q.check p.schema names v) :
    (p.session names tokens config).Like (.texts names names' span)
      (p.session names' tokens' config) where
  program_eq := rfl
  recovery_eq := rfl
  lastPosition_eq := alike.lastPosition_eq
  token := alike.token
  text_eq := text_eq_of_like
  asked_text among := by
    obtain ⟨text, given, given'⟩ := asked _ among
    exact (Interner.text_of_gives given').trans (Interner.text_of_gives given).symm
  asked_iff among same := by
    obtain ⟨text, given, given'⟩ := asked _ among
    obtain ⟨text', given₁, given₂⟩ := same
    constructor
    · rintro rfl
      obtain rfl := given.text_eq given₁
      exact given'.name_eq given₂
    · rintro rfl
      obtain rfl := given'.text_eq given₂
      exact given.name_eq given₁
  merge := merge
  point := point
  check_eq := checks

section Outlines

/-- Names that correspond have one text. -/
def Likeness.KeepsTexts (l : Likeness) (names names' : Interner) : Prop :=
  ∀ ⦃n n' : Name⦄, l.name n n' → names'.text n' = names.text n

variable {p : Program} {names names' : Interner} {l : Likeness}

mutual

/-- Values that are alike have one entry in the outline. -/
theorem entry_eq_of_like (texts : l.KeepsTexts names names') :
    ∀ (v : Value) {w : Value}, v.Like l w → ∀ indent label,
    (p.outlineContext names').entry indent label w = (p.outlineContext names).entry indent label v
  | .token t, .token u, .token same => by
    intro indent label
    simp only [OutlineContext.entry, OutlineContext.token, Program.outlineContext, same.kind_eq,
      texts same.text]
  | .node type _ fields, _, .node _ parts => by
    intro indent label
    simp only [OutlineContext.entry]
    exact congrArg _ (fieldEntries_eq_of_like texts fields parts _ _)
  | .list [], _, .list .nil => fun _ _ => rfl
  | .list (item :: items), _, .list (.cons first rest) => by
    intro indent label
    simp only [OutlineContext.entry, entry_eq_of_like texts item first,
      itemEntries_eq_of_like texts items rest]
  | .enum _ _ _, _, .enum _ => fun _ _ => rfl
  | .null, _, .null => fun _ _ => rfl
  | .absent _, _, .absent => fun _ _ => rfl

theorem fieldEntries_eq_of_like (texts : l.KeepsTexts names names') :
    ∀ (vs : List Value) {ws : List Value}, List.Forall₂ (Value.Like l) vs ws →
    ∀ indent fields, (p.outlineContext names').fieldEntries indent fields ws =
      (p.outlineContext names).fieldEntries indent fields vs
  | [], _, .nil, _, _ => by
    simp only [OutlineContext.fieldEntries]
  | v :: vs, _, .cons first rest, indent, fields => by
    cases fields with
    | nil => rfl
    | cons field fields =>
      simp only [OutlineContext.fieldEntries, entry_eq_of_like texts v first,
        fieldEntries_eq_of_like texts vs rest]

/-- Items that are alike have the same entries. -/
theorem itemEntries_eq_of_like (texts : l.KeepsTexts names names') :
    ∀ (vs : List Value) {ws : List Value}, List.Forall₂ (Value.Like l) vs ws →
    ∀ indent, (p.outlineContext names').itemEntries indent ws =
      (p.outlineContext names).itemEntries indent vs
  | [], _, .nil, _ => rfl
  | v :: vs, _, .cons first rest, indent => by
    simp only [OutlineContext.itemEntries, entry_eq_of_like texts v first,
      itemEntries_eq_of_like texts vs rest]

end

/-- Values that are alike have one outline where names that correspond have one text. -/
theorem outline_eq_of_keepsTexts (texts : l.KeepsTexts names names') {v w : Value}
    (h : v.Like l w) : (p.outlineContext names').outline w = (p.outlineContext names).outline v :=
  entry_eq_of_like texts v h 0 ""

/-- Values that are alike by texts have one outline. -/
theorem outline_eq_of_like {span : Span → Span → Prop} {v w : Value}
    (h : v.Like (.texts names names' span) w) :
    (p.outlineContext names').outline w = (p.outlineContext names).outline v :=
  outline_eq_of_keepsTexts (fun _ _ => text_eq_of_like) h

end Outlines

end CombinatorGrammar
