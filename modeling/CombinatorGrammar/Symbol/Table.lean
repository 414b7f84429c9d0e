import Std.Data.TreeMap

/-!
# Symbol tables

A symbol table numbers distinct strings in the order of their first insertion. It holds the
strings by number and the numbers by string; the two views are inverse to each other by the
type, so no string has two numbers. An insertion never changes what an earlier one answered.
-/

namespace CombinatorGrammar

/-- Distinct strings, numbered from zero in the order in which they were first inserted. -/
structure SymbolTable where
  /-- The strings, each at its number. -/
  entries : Array String
  /-- The number of each string. -/
  numbers : Std.TreeMap String Nat
  /-- The two views agree. -/
  numbers_iff : ∀ (s : String) (i : Nat), numbers[s]? = some i ↔ entries[i]? = some s

namespace SymbolTable

/-- The table of no strings. -/
def empty : SymbolTable where
  entries := #[]
  numbers := ∅
  numbers_iff := by simp

/-- The number of a string, if the table holds it. -/
def find? (t : SymbolTable) (s : String) : Option Nat := t.numbers[s]?

/-- The string of a number, if the table holds so many. -/
def get? (t : SymbolTable) (i : Nat) : Option String := t.entries[i]?

/-- How many strings the table holds. -/
def size (t : SymbolTable) : Nat := t.entries.size

/-- Looking up a text and looking up a number are inverse to each other. -/
theorem find?_eq_some_iff (t : SymbolTable) (s : String) (i : Nat) :
    t.find? s = some i ↔ t.get? i = some s :=
  t.numbers_iff s i

private theorem numbers_insert_iff {entries : Array String} {numbers : Std.TreeMap String Nat}
    (agree : ∀ (s : String) (i : Nat), numbers[s]? = some i ↔ entries[i]? = some s)
    {s : String} (fresh : numbers[s]? = none) (u : String) (i : Nat) :
    (numbers.insert s entries.size)[u]? = some i ↔ (entries.push s)[i]? = some u := by
  have absent : ∀ j : Nat, entries[j]? ≠ some s := by
    intro j found
    rw [← agree, fresh] at found
    cases found
  rw [Std.TreeMap.getElem?_insert, Array.getElem?_push]
  by_cases same : s = u
  · subst same
    have other := absent i
    simp only [Std.compare_eq_iff_eq, ↓reduceIte, Option.some.injEq]
    constructor
    · intro h
      simp only [← h, ↓reduceIte]
    · intro h
      split at h
      · omega
      · exact absurd h other
  · simp only [Std.compare_eq_iff_eq, same, ↓reduceIte]
    rw [agree]
    by_cases last : i = entries.size
    · subst last
      simp only [↓reduceIte, Option.some.injEq, same, iff_false]
      simp
    · simp only [last, ↓reduceIte]

/-- The number of a string, and the table in which it has one: a string that is not yet there
gets the next number. -/
def insert (t : SymbolTable) (s : String) : Nat × SymbolTable :=
  match fresh : t.numbers[s]? with
  | some i => (i, t)
  | none => (t.size, {
      entries := t.entries.push s
      numbers := t.numbers.insert s t.entries.size
      numbers_iff := numbers_insert_iff t.numbers_iff fresh })

/-- A text that is in the table keeps its number, and the table is as before. -/
theorem insert_of_find? {t : SymbolTable} {s : String} {i : Nat} (h : t.find? s = some i) :
    t.insert s = (i, t) := by
  unfold find? at h
  unfold insert
  split
  · next j found =>
    rw [h, Option.some.injEq] at found
    rw [found]
  · next found =>
    rw [h] at found
    cases found

/-- A new text comes behind all others. -/
theorem entries_insert_of_find? {t : SymbolTable} {s : String} (h : t.find? s = none) :
    (t.insert s).1 = t.size ∧ (t.insert s).2.entries = t.entries.push s := by
  unfold find? at h
  unfold insert
  split
  · next j found =>
    rw [h] at found
    cases found
  · exact ⟨rfl, rfl⟩

/-- The number that an insertion answers is the string's number afterwards. -/
theorem get?_insert (t : SymbolTable) (s : String) :
    (t.insert s).2.get? (t.insert s).1 = some s := by
  cases h : t.find? s with
  | some i =>
    rw [insert_of_find? h]
    exact (t.find?_eq_some_iff s i).mp h
  | none =>
    obtain ⟨number, entries⟩ := entries_insert_of_find? h
    rw [number, get?, entries, size]
    simp

/-- A number keeps its string whatever is inserted later. -/
theorem get?_insert_of_get? {t : SymbolTable} {i : Nat} {u : String} (s : String)
    (h : t.get? i = some u) : (t.insert s).2.get? i = some u := by
  cases found : t.find? s with
  | some j => rw [insert_of_find? found]; exact h
  | none =>
    obtain ⟨-, entries⟩ := entries_insert_of_find? found
    rw [get?, entries, Array.getElem?_push]
    have inside : i < t.entries.size := by
      unfold get? at h
      exact (Array.getElem?_eq_some_iff.mp h).1
    rw [ite_cond_eq_false _ _ (by simp; omega)]
    exact h

end SymbolTable

end CombinatorGrammar
