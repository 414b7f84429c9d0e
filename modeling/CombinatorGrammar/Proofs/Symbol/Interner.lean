import CombinatorGrammar.Token.Stream
import Mathlib.Data.List.Forall2

/-!
# Names and their texts

An interner gives each text one name and each name one text, and it keeps them whatever is interned
later. So the names of two interners correspond where their texts are the same, and the tokens that
one list of texts becomes in both are told apart by their numbers only.
-/

namespace CombinatorGrammar

namespace Interner

/-- The interner gave the name, to this text. -/
def Gives (names : Interner) (n : Name) (text : String) : Prop :=
  names.table.get? n.index = some text

/-- The later interner gives what the earlier one gave. -/
def Grows (earlier later : Interner) : Prop :=
  ∀ ⦃n : Name⦄ ⦃text : String⦄, earlier.Gives n text → later.Gives n text

variable {names earlier later : Interner} {n m : Name} {text : String}

/-- The empty name gives the empty text. -/
theorem gives_empty (names : Interner) : names.Gives .empty "" := names.first

theorem text_of_gives (h : names.Gives n text) : names.text n = text := by
  rw [Interner.text, h, Option.getD_some]

/-- A text has one name. -/
theorem Gives.name_eq (h : names.Gives n text) (h' : names.Gives m text) : m = n := by
  have first := (names.table.find?_eq_some_iff text n.index).mpr h
  have second := (names.table.find?_eq_some_iff text m.index).mpr h'
  rw [first] at second
  exact congrArg Name.mk (Option.some.inj second).symm

/-- A name has one text. -/
theorem Gives.text_eq {text' : String} (h : names.Gives n text) (h' : names.Gives n text') :
    text' = text :=
  Option.some.inj (h'.symm.trans h)

/-- A text is interned under a name that gives it. -/
theorem gives_intern (names : Interner) (text : String) :
    (names.intern text).2.Gives (names.intern text).1 text :=
  SymbolTable.get?_insert names.table text

/-- Interning a text that has a name answers that name. -/
theorem Gives.intern_fst (h : names.Gives n text) : (names.intern text).1 = n := by
  have found := (names.table.find?_eq_some_iff text n.index).mpr h
  exact congrArg (fun inserted => Name.mk inserted.1) (SymbolTable.insert_of_find? found)

namespace Grows

theorem refl (names : Interner) : names.Grows names := fun _ _ => id

theorem trans {latest : Interner} (h : earlier.Grows later) (h' : later.Grows latest) :
    earlier.Grows latest :=
  fun _ _ given => h' (h given)

/-- To intern a text takes no other text's name away. -/
theorem intern (names : Interner) (text : String) : names.Grows (names.intern text).2 :=
  fun _ _ => SymbolTable.get?_insert_of_get? text

/-- To intern many texts takes no other text's name away. -/
theorem internAll (names : Interner) (texts : List String) :
    names.Grows (names.internAll texts) := by
  induction texts generalizing names with
  | nil => exact .refl names
  | cons text texts ih => exact (intern names text).trans (ih (names.intern text).2)

end Grows

/-- Each of many interned texts has a name that gives it. -/
theorem gives_internAll (names : Interner) {texts : List String} (among : text ∈ texts) :
    ∃ n, (names.internAll texts).Gives n text := by
  induction texts generalizing names with
  | nil => cases among
  | cons first texts ih =>
    rcases List.mem_cons.mp among with rfl | later
    · exact ⟨_, Grows.internAll _ texts (names.gives_intern text)⟩
    · exact ih (names.intern first).2 later

/-- Nothing changes when all texts have names already. -/
theorem internAll_eq_self {names : Interner} {texts : List String}
    (known : ∀ text ∈ texts, ∃ n, names.Gives n text) : names.internAll texts = names := by
  induction texts with
  | nil => rfl
  | cons text texts ih =>
    obtain ⟨⟨n, given⟩, later⟩ := List.forall_mem_cons.mp known
    have found := (names.table.find?_eq_some_iff text n.index).mpr given
    have kept : (names.intern text).2 = names := by
      cases names
      simp only [intern, SymbolTable.insert_of_find? found]
    rw [internAll, List.foldl_cons, kept]
    exact ih later

end Interner

namespace Token

/-- Interning the texts of tokens is interning their texts in turn. -/
theorem internAll_snd (names : Interner) (words : List (TokenKind × String × Span)) :
    (Token.internAll names words).2 = names.internAll (words.map fun word => word.2.1) := by
  induction words generalizing names with
  | nil => rfl
  | cons word words ih => exact ih (names.intern word.2.1).2

/-- The tokens have the kinds, the texts and the places that they are made of. -/
theorem internAll_fst (names : Interner) (words : List (TokenKind × String × Span)) :
    List.Forall₂
      (fun t word => t.kind = word.1 ∧ (Token.internAll names words).2.Gives t.text word.2.1 ∧
        t.span = word.2.2)
      (Token.internAll names words).1 words := by
  induction words generalizing names with
  | nil => exact .nil
  | cons word words ih =>
    refine .cons ⟨rfl, ?_, rfl⟩ (ih (names.intern word.2.1).2)
    have kept : (names.intern word.2.1).2.Grows (Token.internAll names (word :: words)).2 := by
      rw [internAll_snd]
      exact .internAll _ _
    exact kept (names.gives_intern word.2.1)

/-- Every token is made of one of the words. -/
theorem exists_word_of_mem {names : Interner} {words : List (TokenKind × String × Span)} {t : Token}
    (among : t ∈ (Token.internAll names words).1) :
    ∃ word ∈ words, t.kind = word.1 ∧ (Token.internAll names words).2.Gives t.text word.2.1 := by
  obtain ⟨i, inside, rfl⟩ := List.getElem_of_mem among
  obtain ⟨lengths, made⟩ := List.forall₂_iff_get.mp (internAll_fst names words)
  obtain ⟨kind, given, _⟩ := made i inside (lengths ▸ inside)
  exact ⟨_, List.get_mem .., kind, given⟩

end Token

end CombinatorGrammar
