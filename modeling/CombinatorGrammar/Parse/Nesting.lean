/-!
# Nesting levels

A nesting counts the levels that are entered and those that may still be entered. Their sum is
the limit, which entering and leaving a level do not change.
-/

namespace CombinatorGrammar

/-- Levels that are entered, and levels that may still be entered. -/
structure Nesting where
  depth : Nat
  remaining : Nat
  deriving DecidableEq

namespace Nesting

/-- No level is entered, and as many as the limit may be. -/
def ofLimit (limit : Nat) : Nesting := ⟨0, limit⟩

/-- The number of levels that may be entered at one time. -/
def limit (n : Nesting) : Nat := n.depth + n.remaining

/-- Enter one more level, if one remains. -/
def enter? (n : Nesting) : Option Nesting :=
  match n.remaining with
  | 0 => none
  | rest + 1 => some ⟨n.depth + 1, rest⟩

/-- Leave the level that was entered last. Outside all levels nothing changes. -/
def leave (n : Nesting) : Nesting :=
  match n.depth with
  | 0 => n
  | depth + 1 => ⟨depth, n.remaining + 1⟩

/-- The text that tells that no level remains. -/
def exceeded (n : Nesting) : String := s!"recursion limit of {n.limit} exceeded"

/-- Leaving a level undoes entering it. -/
theorem leave_of_enter? {n m : Nesting} (h : n.enter? = some m) : m.leave = n := by
  cases n with
  | mk depth remaining =>
    cases remaining with
    | zero => cases h
    | succ rest =>
      rw [enter?, Option.some.injEq] at h
      rw [← h]
      rfl

/-- Entering a level makes the nesting deeper by one. -/
theorem depth_of_enter? {n m : Nesting} (h : n.enter? = some m) : m.depth = n.depth + 1 := by
  cases n with
  | mk depth remaining =>
    cases remaining with
    | zero => cases h
    | succ rest =>
      rw [enter?, Option.some.injEq] at h
      rw [← h]

/-- The limit stays what it is, however deep the nesting. -/
theorem limit_of_enter? {n m : Nesting} (h : n.enter? = some m) : m.limit = n.limit := by
  cases n with
  | mk depth remaining =>
    cases remaining with
    | zero => cases h
    | succ rest =>
      rw [enter?, Option.some.injEq] at h
      subst h
      simp only [limit]
      omega

end Nesting

end CombinatorGrammar
