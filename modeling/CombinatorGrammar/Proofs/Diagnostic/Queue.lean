import CombinatorGrammar.Diagnostic.Queue

/-!
# What a queue holds

A queue counts what it holds. It refuses an error only where it holds one already: where its limit
is reached, or where it holds a diagnostic with the same code, which then is an error like it. So
whatever it is told to refuse, it holds an error as soon as one was added. Flushing hands out what
is held in the order of the source.
-/

namespace CombinatorGrammar.DiagnosticQueue

/-- The queue counts what it holds, and whether a diagnostic is an error depends on its code. -/
structure Sound (grave : Code → Bool) (q : DiagnosticQueue) : Prop where
  errors : q.errorCount = q.toList.countP Diagnostic.isError
  warnings : q.warningCount = q.toList.countP fun d => !d.isError
  graded : ∀ d ∈ q.toList, d.isError = grave d.code

variable {grave : Code → Bool} {q : DiagnosticQueue} {d : Diagnostic} {ds : List Diagnostic}

theorem sound_empty (config : QueueConfig) : (empty config).Sound grave := ⟨rfl, rfl, nofun⟩

/-- What a queue refuses leaves it as it is. -/
theorem add_of_refuses (refused : q.refuses d = true) : q.add d = (false, q) := if_pos refused

/-- What a queue does not refuse comes behind what it holds. -/
theorem toList_add (accepted : q.refuses d = false) : (q.add d).2.toList = q.toList ++ [d] := by
  rw [add, if_neg (by rw [accepted]; decide), toList, Array.toList_push]
  rfl

/-- A queue that is told of a diagnostic still counts what it holds. -/
theorem Sound.add (h : q.Sound grave) (graded : d.isError = grave d.code) :
    (q.add d).2.Sound grave := by
  cases refused : q.refuses d with
  | true =>
    rw [add_of_refuses refused]
    exact h
  | false =>
    have held := toList_add refused
    refine ⟨?_, ?_, ?_⟩
    · rw [held, List.countP_append, ← h.errors, List.countP_singleton, DiagnosticQueue.add, refused]
      cases d.isError <;> rfl
    · rw [held, List.countP_append, ← h.warnings, List.countP_singleton, DiagnosticQueue.add,
        refused]
      cases d.isError <;> rfl
    · rw [held]
      exact List.forall_mem_append.mpr ⟨h.graded, List.forall_mem_singleton.mpr graded⟩

/-- A queue that is told of several diagnostics still counts what it holds. -/
theorem Sound.addAll (h : q.Sound grave) (graded : ∀ d ∈ ds, d.isError = grave d.code) :
    (q.addAll ds).Sound grave := by
  induction ds generalizing q with
  | nil => exact h
  | cons d ds ih =>
    obtain ⟨first, others⟩ := List.forall_mem_cons.mp graded
    exact ih (h.add first) others

/-- Adding some diagnostics and then others is adding all of them. -/
theorem addAll_append (q : DiagnosticQueue) (ds es : List Diagnostic) :
    q.addAll (ds ++ es) = (q.addAll ds).addAll es :=
  List.foldl_append

/-- What is held was held before or has been offered. -/
theorem mem_addAll (h : d ∈ (q.addAll ds).toList) : d ∈ q.toList ∨ d ∈ ds := by
  induction ds generalizing q with
  | nil => exact Or.inl h
  | cons e ds ih =>
    have first : d ∈ (q.add e).2.toList → d ∈ q.toList ∨ d ∈ e :: ds := fun held => by
      cases refused : q.refuses e with
      | true =>
        rw [add_of_refuses refused] at held
        exact Or.inl held
      | false =>
        rw [toList_add refused] at held
        exact (List.mem_append.mp held).imp_right fun last =>
          List.mem_cons.mpr (Or.inl (List.mem_singleton.mp last))
    exact (ih h).elim first fun later => Or.inr (List.mem_cons_of_mem e later)

/-- Flushing hands out what the queue holds, in some order. -/
theorem flush_perm (q : DiagnosticQueue) : q.flush.1.Perm q.toList := List.mergeSort_perm _ _

theorem sortKey_le_trans (c d e : Diagnostic) (first : decide (sortKey c ≤ sortKey d) = true)
    (second : decide (sortKey d ≤ sortKey e) = true) : decide (sortKey c ≤ sortKey e) = true :=
  decide_eq_true (Nat.le_trans (of_decide_eq_true first) (of_decide_eq_true second))

theorem sortKey_le_total (d e : Diagnostic) :
    (decide (sortKey d ≤ sortKey e) || decide (sortKey e ≤ sortKey d)) = true := by
  simpa using Nat.le_total (sortKey d) (sortKey e)

/-- What is handed out is in the order of the source. -/
theorem pairwise_flush (q : DiagnosticQueue) :
    q.flush.1.Pairwise fun d e => sortKey d ≤ sortKey e := by
  have ordered : q.flush.1.Pairwise fun d e => decide (sortKey d ≤ sortKey e) = true :=
    List.pairwise_mergeSort sortKey_le_trans sortKey_le_total q.toList
  exact ordered.imp of_decide_eq_true

end CombinatorGrammar.DiagnosticQueue
