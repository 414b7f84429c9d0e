import CombinatorGrammar.Proofs.Symbol.Interner
import Mathlib.Logic.Function.Defs

/-!
# Interners in one another

Where an interner has names for all texts of another one, the names of the one can be exchanged for
those of the other. Names that were never given have no text in either interner; they are moved
beyond all that were given, so that no two names become one.
-/

namespace CombinatorGrammar

namespace Interner

/-- The texts that have names, in the order of these. -/
def texts (names : Interner) : List String := names.table.entries.toList

/-- The interner that has come to know all texts of another one. -/
def knowing (into names : Interner) : Interner := into.internAll names.texts

/-- The name in the second interner for the text that has a name in the first one. -/
def embed (names into : Interner) (n : Name) : Name :=
  match names.table.get? n.index with
  | some text => (into.intern text).1
  | none => ⟨into.size + n.index⟩

/-- Each text of the first interner has a name in the second one. -/
def Within (names into : Interner) : Prop :=
  ∀ ⦃n : Name⦄ ⦃text : String⦄, names.Gives n text → ∃ m, into.Gives m text

variable {names into : Interner}

/-- An interner that has learned the texts of another one knows all of them. -/
theorem within_knowing (names into : Interner) : names.Within (into.knowing names) := by
  intro n text given
  rw [Gives, SymbolTable.get?, ← Array.getElem?_toList] at given
  exact into.gives_internAll (List.mem_of_getElem? given)

/-- A text keeps its text under the new name. -/
theorem Within.gives_embed (h : names.Within into) {n : Name} {text : String}
    (given : names.Gives n text) : into.Gives (names.embed into n) text := by
  obtain ⟨m, known⟩ := h given
  have same : names.embed into n = (into.intern text).1 := by rw [embed, given]
  rw [same, known.intern_fst]
  exact known

/-- A name unknown to one interner is sent behind all names of the other. -/
theorem embed_of_none {n : Name} (unknown : names.table.get? n.index = none) :
    names.embed into n = ⟨into.size + n.index⟩ := by
  rw [embed, unknown]

theorem get?_size_add (names : Interner) (i : Nat) : names.table.get? (names.size + i) = none :=
  Array.getElem?_eq_none (Nat.le_add_right ..)

/-- The new names have the texts of the old ones. -/
theorem Within.text_embed (h : names.Within into) (n : Name) :
    into.text (names.embed into n) = names.text n := by
  cases found : names.table.get? n.index with
  | some text => rw [text_of_gives (h.gives_embed found), text_of_gives found]
  | none => rw [embed_of_none found, text, text, get?_size_add, found]

/-- Different names are exchanged for different names. -/
theorem Within.embed_injective (h : names.Within into) :
    Function.Injective (names.embed into) := by
  intro n m same
  cases first : names.table.get? n.index with
  | some text =>
    have given := h.gives_embed first
    cases second : names.table.get? m.index with
    | some text' =>
      obtain rfl : text' = text := (same ▸ given).text_eq (h.gives_embed second)
      exact (show names.Gives m text' from second).name_eq first
    | none =>
      rw [same, embed_of_none second, Gives, get?_size_add] at given
      cases given
  | none =>
    cases second : names.table.get? m.index with
    | some text =>
      have given := h.gives_embed second
      rw [← same, embed_of_none first, Gives, get?_size_add] at given
      cases given
    | none =>
      rw [embed_of_none first, embed_of_none second] at same
      injection same with same
      cases n
      cases m
      exact congrArg Name.mk (Nat.add_left_cancel same)

end Interner

end CombinatorGrammar
