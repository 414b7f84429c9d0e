import CombinatorGrammar.Parse.State
import Mathlib.Data.List.Induction

/-!
# Logs of failures

A state keeps one failure of all that it has recorded. Here stands what this one is: if the failures
are listed in the order in which they were recorded, its position is the greatest of theirs, and it
expects what those at this position expect, in the order of discovery and each once. So it depends
on the list alone, and not on how its failures were merged.
-/

namespace CombinatorGrammar

section Duplicates

variable {α β : Type} [DecidableEq α] [DecidableEq β]

/-- One more element of a list without repetitions is appended if it is new. -/
theorem eraseDups_concat (l : List α) (a : α) :
    (l ++ [a]).eraseDups = if a ∈ l then l.eraseDups else l.eraseDups ++ [a] := by
  rw [List.eraseDups_append]
  by_cases known : a ∈ l <;> simp [List.removeAll, List.eraseDups_cons, known]

/-- A list without repetitions is left as it is. -/
theorem eraseDups_eq_self {l : List α} (nodup : l.Nodup) : l.eraseDups = l := by
  induction l using List.reverseRecOn with
  | nil => rfl
  | append_singleton l a ih =>
    obtain ⟨before, _, apart⟩ := List.nodup_append.mp nodup
    have new : a ∉ l := fun known => apart a known a (List.mem_singleton_self a) rfl
    rw [eraseDups_concat, if_neg new, ih before]

/-- What is added and known already adds nothing. -/
theorem eraseDups_append_of_subset {l m : List α} (known : m ⊆ l) :
    (l ++ m).eraseDups = l.eraseDups := by
  induction m using List.reverseRecOn with
  | nil => rw [List.append_nil]
  | append_singleton m a ih =>
    have among : a ∈ l ++ m :=
      List.mem_append_left m (known (List.mem_append_right m (List.mem_singleton_self a)))
    rw [← List.append_assoc, eraseDups_concat, if_pos among]
    exact ih fun b inside => known (List.mem_append_left [a] inside)

/-- Duplicates may be left out before as well, where those of images are left out. -/
theorem eraseDups_map_eraseDups (f : α → β) (l : List α) :
    (l.eraseDups.map f).eraseDups = (l.map f).eraseDups := by
  induction l using List.reverseRecOn with
  | nil => rfl
  | append_singleton l a ih =>
    rw [eraseDups_concat, List.map_append, List.map_singleton]
    by_cases known : a ∈ l
    · rw [if_pos known, ih, eraseDups_concat, if_pos (List.mem_map_of_mem known)]
    · rw [if_neg known, List.map_append, List.map_singleton, eraseDups_concat, eraseDups_concat, ih]
      simp only [List.mem_map, List.mem_eraseDups]

end Duplicates

namespace Failure

/-- A failure is recorded: it is merged into what is known. -/
def into (known : Option Failure) (f : Failure) : Failure :=
  match known with
  | some furthest => furthest.merge f
  | none => f

/-- Failures merged from left to right. -/
def merged (log : List Failure) : Option Failure :=
  log.foldl (fun known f => some (f.into known)) none

/-- The greatest of a position and those of the failures. -/
def greatest (position : Nat) (log : List Failure) : Nat :=
  (log.map Failure.position).foldl max position

/-- What the failures at a position expect, in order. -/
def expectedAt (position : Nat) (log : List Failure) : List Expectation :=
  (log.filter fun f => f.position = position).flatMap Failure.expected

variable {log : List Failure} {f : Failure} {position : Nat}

/-- One more failure is merged into what was merged before. -/
theorem merged_concat (log : List Failure) (f : Failure) :
    merged (log ++ [f]) = some (f.into (merged log)) := by
  rw [merged, List.foldl_append]
  rfl

/-- One more failure makes the furthest position its own, if it is further. -/
theorem greatest_concat (position : Nat) (log : List Failure) (f : Failure) :
    greatest position (log ++ [f]) = max (greatest position log) f.position := by
  rw [greatest, List.map_append, List.foldl_append]
  rfl

/-- The furthest position is the one asked for or one of the log. -/
theorem greatest_eq_max (position : Nat) (log : List Failure) :
    greatest position log = max position (greatest 0 log) := by
  induction log using List.reverseRecOn with
  | nil => exact (Nat.max_zero position).symm
  | append_singleton log f ih => rw [greatest_concat, greatest_concat, ih, Nat.max_assoc]

/-- No failure of a log is further than the furthest position. -/
theorem position_le_greatest (position : Nat) (among : f ∈ log) :
    f.position ≤ greatest position log := by
  induction log using List.reverseRecOn with
  | nil => cases among
  | append_singleton log g ih =>
    rw [greatest_concat]
    rcases List.mem_append.mp among with before | last
    · exact Nat.le_trans (ih before) (Nat.le_max_left ..)
    · obtain rfl := List.mem_singleton.mp last
      exact Nat.le_max_right ..

/-- One more failure adds what it expects at its own position. -/
theorem expectedAt_concat (position : Nat) (log : List Failure) (f : Failure) :
    expectedAt position (log ++ [f]) =
      expectedAt position log ++ if f.position = position then f.expected else [] := by
  rw [expectedAt, List.filter_append, List.flatMap_append]
  by_cases here : f.position = position <;> simp [expectedAt, here]

/-- Beyond all failures nothing is expected. -/
theorem expectedAt_eq_nil (beyond : greatest 0 log < position) : expectedAt position log = [] := by
  rw [expectedAt, List.flatMap_eq_nil_iff]
  intro f among
  obtain ⟨inside, here⟩ := List.mem_filter.mp among
  have within := position_le_greatest 0 inside
  rw [of_decide_eq_true here] at within
  exact absurd beyond (Nat.not_lt_of_le within)

/-- What a failure of the log expects is expected at its position. -/
theorem subset_expectedAt (among : f ∈ log) : f.expected ⊆ expectedAt f.position log :=
  fun _ inside => List.mem_flatMap.mpr
    ⟨f, List.mem_filter.mpr ⟨among, decide_eq_true rfl⟩, inside⟩

/-- What is collected was known or is among what is added. -/
theorem mem_collect {e : Expectation} {known more : List Expectation}
    (among : e ∈ collect known more) : e ∈ known ∨ e ∈ more := by
  induction more generalizing known with
  | nil => exact Or.inl among
  | cons first more ih =>
    rw [collect, List.foldl_cons] at among
    rcases ih among with before | later
    · split at before
      · exact Or.inl before
      · rcases List.mem_append.mp before with before | last
        · exact Or.inl before
        · exact Or.inr (List.mem_singleton.mp last ▸ List.mem_cons_self ..)
    · exact Or.inr (List.mem_cons_of_mem _ later)

/-- Collecting expectations leaves out duplicates. -/
theorem collect_eraseDups (known more : List Expectation) :
    collect known.eraseDups more = (known ++ more).eraseDups := by
  induction more generalizing known with
  | nil => rw [List.append_nil]; rfl
  | cons e more ih =>
    have next : (if known.eraseDups.contains e then known.eraseDups else known.eraseDups ++ [e]) =
        (known ++ [e]).eraseDups := by
      rw [eraseDups_concat]
      simp only [List.contains_iff_mem, List.mem_eraseDups]
    rw [collect, List.foldl_cons, next, List.append_cons known e more]
    exact ih (known ++ [e])

/-- The merged failure is at the greatest position, and expects what was expected there. -/
theorem merged_eq (nodup : ∀ f ∈ log, f.expected.Nodup) (any : log ≠ []) :
    merged log = some ⟨greatest 0 log, (expectedAt (greatest 0 log) log).eraseDups⟩ := by
  induction log using List.reverseRecOn with
  | nil => exact absurd rfl any
  | append_singleton log f ih =>
    obtain ⟨before, last⟩ := List.forall_mem_append.mp nodup
    have alone := eraseDups_eq_self (last f (List.mem_singleton_self f))
    rw [merged_concat, greatest_concat, expectedAt_concat]
    by_cases first : log = []
    · subst first
      simp [merged, into, greatest, expectedAt, alone]
    · rw [ih before first, into, merge]
      rcases Nat.lt_trichotomy (greatest 0 log) f.position with further | same | nearer
      · rw [if_pos further, Nat.max_eq_right (Nat.le_of_lt further), if_pos rfl,
          expectedAt_eq_nil further, List.nil_append, alone]
      · rw [if_neg (Nat.not_lt_of_le (Nat.le_of_eq same.symm)), if_pos same.symm, same,
          Nat.max_self, if_pos rfl, collect_eraseDups]
      · rw [if_neg (Nat.not_lt_of_lt nearer), if_neg (Nat.ne_of_lt nearer),
          Nat.max_eq_left (Nat.le_of_lt nearer), if_neg (Nat.ne_of_lt nearer), List.append_nil]

/-- The failure is one of the log, or it does not say what was expected. -/
def From (log : List Failure) (f : Failure) : Prop := f ∈ log ∨ f.expected = []

/-- A failure that is from a log is from a longer one. -/
theorem From.append {more : List Failure} (h : f.From log) : f.From (log ++ more) :=
  h.imp_left (List.mem_append_left more)

/-- A failure that is from a log expects nothing twice if none of the log does. -/
theorem From.nodup (h : f.From log) (nodup : ∀ g ∈ log, g.expected.Nodup) : f.expected.Nodup := by
  rcases h with among | none
  · exact nodup f among
  · rw [none]
    exact List.nodup_nil

/-- What a failure from a log expects is expected at its position. -/
theorem From.subset (h : f.From log) : f.expected ⊆ expectedAt f.position log := by
  rcases h with among | none
  · exact subset_expectedAt among
  · rw [none]
    exact List.nil_subset _

/-- Without a log, a failure that says nothing is merged into one at its own position. -/
theorem From.merge_eq_into (h : f.From log) (nodup : ∀ g ∈ log, g.expected.Nodup) :
    ((merged log).getD (plain f.position)).merge f = f.into (merged log) := by
  by_cases any : log = []
  · subst any
    obtain ⟨position, expected⟩ := f
    obtain rfl : expected = [] := h.resolve_left List.not_mem_nil
    change (plain position).merge ⟨position, []⟩ = ⟨position, []⟩
    simp only [merge, plain, Nat.lt_irrefl, if_false, if_true]
    rfl
  · rw [merged_eq nodup any]
    rfl

/-- A failure of the log adds its position to the merged failure, and nothing to what this
expects. -/
theorem From.merge_eq (h : f.From log) (nodup : ∀ g ∈ log, g.expected.Nodup) :
    ((merged log).getD (plain f.position)).merge f =
      ⟨greatest f.position log, (expectedAt (greatest f.position log) log).eraseDups⟩ := by
  have known : (if f.position = greatest f.position log then f.expected else []) ⊆
      expectedAt (greatest f.position log) log := by
    split
    · next here =>
      rw [← here]
      exact h.subset
    · exact List.nil_subset _
  have all : ∀ g ∈ log ++ [f], g.expected.Nodup :=
    List.forall_mem_append.mpr ⟨nodup, List.forall_mem_singleton.mpr (h.nodup nodup)⟩
  have whole := merged_eq all (List.append_ne_nil_of_right_ne_nil log (List.cons_ne_nil f []))
  rw [merged_concat, greatest_concat, Nat.max_comm, ← greatest_eq_max, expectedAt_concat,
    eraseDups_append_of_subset known] at whole
  exact (h.merge_eq_into nodup).trans (Option.some.inj whole)

end Failure

end CombinatorGrammar
