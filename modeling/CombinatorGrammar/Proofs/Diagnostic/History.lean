import CombinatorGrammar.Proofs.Diagnostic.Queue
import Mathlib.Data.List.Induction

/-!
# The history of a queue

What a queue holds is what has been added since it was flushed, without what repeats something
earlier and then without the errors behind the first so many. The queue decides about one diagnostic
at a time, and only looks at what it holds: that this makes no difference is because diagnostics of
one code are equally grave, so that what repeats a dropped error is an error beyond the limit as
well.
-/

namespace CombinatorGrammar.DiagnosticQueue

/-- Those of some diagnostics that are wanted, given what stands before them. -/
def select (wanted : List Diagnostic → Diagnostic → Bool) (before : List Diagnostic) :
    List Diagnostic → List Diagnostic
  | [] => []
  | d :: ds =>
    if wanted before d then d :: select wanted (before ++ [d]) ds
    else select wanted (before ++ [d]) ds

/-- Those that are like none before them. -/
def firsts : List Diagnostic → List Diagnostic :=
  select (fun before d => !before.any (alike d)) []

/-- Without the errors behind the first so many. -/
def firstErrors (limit : Nat) : List Diagnostic → List Diagnostic :=
  select (fun before d => !(d.isError && decide (limit ≤ before.countP Diagnostic.isError))) []

/-- Without repetitions, if these are to be refused. -/
def distinct (config : QueueConfig) (ds : List Diagnostic) : List Diagnostic :=
  if config.deduplicate then firsts ds else ds

/-- Without the errors beyond the limit, if there is one. -/
def limited (config : QueueConfig) (ds : List Diagnostic) : List Diagnostic :=
  if config.errorLimit = 0 then ds else firstErrors config.errorLimit ds

/-- What is to be kept of some diagnostics. -/
def kept (config : QueueConfig) (ds : List Diagnostic) : List Diagnostic :=
  limited config (distinct config ds)

variable {config : QueueConfig} {d e : Diagnostic} {ds : List Diagnostic} {limit : Nat}

/-- Diagnostics are alike if they have one code and one place. -/
theorem alike_iff : alike d e = true ↔ d.code = e.code ∧ d.primaryStart? = e.primaryStart? := by
  rw [alike, Bool.and_eq_true, beq_iff_eq, beq_iff_eq]

section Select

variable (wanted : List Diagnostic → Diagnostic → Bool)

/-- Whether the last one is selected depends on all that came before it. -/
theorem select_concat (before ds : List Diagnostic) (d : Diagnostic) :
    select wanted before (ds ++ [d]) =
      select wanted before ds ++ if wanted (before ++ ds) d then [d] else [] := by
  induction ds generalizing before with
  | nil =>
    rw [List.nil_append, List.append_nil, select, select]
    split <;> rfl
  | cons e ds ih =>
    rw [List.cons_append, select, select, ih, List.append_assoc, List.singleton_append]
    split <;> rfl

/-- What is selected is in the order of what there was. -/
theorem select_sublist (before ds : List Diagnostic) : (select wanted before ds).Sublist ds := by
  induction ds generalizing before with
  | nil => exact .slnil
  | cons e ds ih =>
    rw [select]
    split
    · exact (ih _).cons_cons e
    · exact (ih _).cons e

end Select

/-- The last one is kept if none before it is like it. -/
theorem firsts_concat (ds : List Diagnostic) (d : Diagnostic) :
    firsts (ds ++ [d]) = firsts ds ++ if ds.any (alike d) then [] else [d] := by
  rw [firsts, select_concat, List.nil_append]
  cases ds.any (alike d) <;> rfl

/-- What is like one of some diagnostics is like the first of its kind. -/
theorem exists_first (among : e ∈ ds) (like : alike d e = true) :
    ∃ f ∈ firsts ds, alike d f = true := by
  induction ds using List.reverseRecOn generalizing e with
  | nil => cases among
  | append_singleton ds c ih =>
    have later (among : e ∈ ds) : ∃ f ∈ firsts (ds ++ [c]), alike d f = true := by
      obtain ⟨f, first, like⟩ := ih among like
      rw [firsts_concat]
      exact ⟨f, List.mem_append_left _ first, like⟩
    rcases List.mem_append.mp among with among | last
    · exact later among
    · obtain rfl := List.mem_singleton.mp last
      rw [firsts_concat]
      split
      · next repeated =>
        obtain ⟨f, known, same⟩ := List.any_eq_true.mp repeated
        rw [alike_iff] at like same
        rw [List.append_nil]
        exact ih known (alike_iff.mpr ⟨like.1.trans same.1, like.2.trans same.2⟩)
      · exact ⟨e, List.mem_append_right _ (List.mem_singleton_self e), like⟩

/-- The last one is kept unless it is an error behind as many errors as the limit allows. -/
theorem firstErrors_concat (limit : Nat) (ds : List Diagnostic) (d : Diagnostic) :
    firstErrors limit (ds ++ [d]) = firstErrors limit ds ++
      if d.isError && decide (limit ≤ ds.countP Diagnostic.isError) then [] else [d] := by
  rw [firstErrors, select_concat, List.nil_append]
  cases d.isError && decide (limit ≤ ds.countP Diagnostic.isError) <;> rfl

/-- There are as many errors as there were, up to the limit. -/
theorem countP_firstErrors (limit : Nat) (ds : List Diagnostic) :
    (firstErrors limit ds).countP Diagnostic.isError =
      min limit (ds.countP Diagnostic.isError) := by
  induction ds using List.reverseRecOn with
  | nil => exact (Nat.min_zero _).symm
  | append_singleton ds d ih =>
    rw [firstErrors_concat, List.countP_append, List.countP_append, ih, List.countP_singleton]
    cases error : d.isError with
    | false => simp [error]
    | true =>
      by_cases beyond : limit ≤ ds.countP Diagnostic.isError
      · rw [decide_eq_true beyond, Bool.and_self, if_pos rfl, if_pos rfl, List.countP_nil]
        omega
      · rw [decide_eq_false beyond, Bool.and_false, if_neg Bool.false_ne_true,
          List.countP_singleton, error, if_pos rfl]
        omega

/-- Up to the limit nothing is left out. -/
theorem firstErrors_eq_self (few : ds.countP Diagnostic.isError ≤ limit) :
    firstErrors limit ds = ds := by
  induction ds using List.reverseRecOn with
  | nil => rfl
  | append_singleton ds d ih =>
    rw [List.countP_append, List.countP_singleton] at few
    rw [firstErrors_concat, ih (by omega)]
    cases error : d.isError with
    | false => rfl
    | true =>
      rw [error, if_pos rfl] at few
      rw [decide_eq_false (by omega)]
      rfl

/-- A warning is kept whatever the limit is. -/
theorem mem_firstErrors_of_not_isError (among : d ∈ ds) (warning : d.isError = false) :
    d ∈ firstErrors limit ds := by
  induction ds using List.reverseRecOn with
  | nil => cases among
  | append_singleton ds e ih =>
    rw [firstErrors_concat]
    rcases List.mem_append.mp among with among | last
    · exact List.mem_append_left _ (ih among)
    · obtain rfl := List.mem_singleton.mp last
      rw [warning]
      exact List.mem_append_right _ (List.mem_singleton_self d)

/-- The last one is kept unless repetitions are refused and it is one. -/
theorem distinct_concat (config : QueueConfig) (ds : List Diagnostic) (d : Diagnostic) :
    distinct config (ds ++ [d]) = distinct config ds ++
      if config.deduplicate && ds.any (alike d) then [] else [d] := by
  rw [distinct, distinct]
  cases config.deduplicate with
  | true => rw [if_pos rfl, if_pos rfl, firsts_concat, Bool.true_and]
  | false => rw [if_neg Bool.false_ne_true, if_neg Bool.false_ne_true, Bool.false_and]; rfl

/-- Leaving out repetitions leaves the others in their order. -/
theorem distinct_sublist (config : QueueConfig) (ds : List Diagnostic) :
    (distinct config ds).Sublist ds := by
  rw [distinct]
  split
  · exact select_sublist _ _ ds
  · exact .refl ds

/-- Whether there is no room for a further error beside some diagnostics. -/
def full (config : QueueConfig) (ds : List Diagnostic) : Bool :=
  decide (0 < config.errorLimit) && decide (config.errorLimit ≤ ds.countP Diagnostic.isError)

/-- The last one is kept unless it is an error and the queue is full. -/
theorem limited_concat (config : QueueConfig) (ds : List Diagnostic) (d : Diagnostic) :
    limited config (ds ++ [d]) =
      limited config ds ++ if d.isError && full config ds then [] else [d] := by
  rw [limited, limited, full]
  by_cases unlimited : config.errorLimit = 0
  · simp [unlimited]
  · rw [if_neg unlimited, if_neg unlimited, firstErrors_concat,
      decide_eq_true (Nat.pos_of_ne_zero unlimited), Bool.true_and]

/-- Keeping to the limit leaves the others in their order. -/
theorem limited_sublist (config : QueueConfig) (ds : List Diagnostic) :
    (limited config ds).Sublist ds := by
  rw [limited]
  split
  · exact .refl ds
  · exact select_sublist _ _ ds

/-- Leaving out what is beyond the limit makes no room for an error. -/
theorem full_limited (config : QueueConfig) (ds : List Diagnostic) :
    full config (limited config ds) = full config ds := by
  rw [limited]
  split
  · rfl
  · simp only [full, countP_firstErrors, Nat.le_min, Nat.le_refl, true_and]

/-- Where there is room nothing has been left out. -/
theorem limited_eq_self (room : full config ds = false) : limited config ds = ds := by
  rw [limited]
  split
  · rfl
  · next limited =>
    rw [full, decide_eq_true (Nat.pos_of_ne_zero limited), Bool.true_and,
      decide_eq_false_iff_not] at room
    exact firstErrors_eq_self (by omega)

/-- A warning is kept whatever the queue may hold. -/
theorem mem_limited_of_not_isError (among : d ∈ ds) (warning : d.isError = false) :
    d ∈ limited config ds := by
  rw [limited]
  split
  · exact among
  · exact mem_firstErrors_of_not_isError among warning

/-- What is kept is in the order of what was added. -/
theorem kept_sublist (config : QueueConfig) (ds : List Diagnostic) : (kept config ds).Sublist ds :=
  (limited_sublist config _).trans (distinct_sublist config ds)

/-- What is like one of some diagnostics is like one that is kept, unless it is an error for which
there is no room: it is as grave as those that it is like. -/
theorem any_kept (graded : ∀ e ∈ ds, d.code = e.code → e.isError = d.isError)
    (room : (d.isError && full config (distinct config ds)) = false)
    (dedup : config.deduplicate = true) :
    (kept config ds).any (alike d) = ds.any (alike d) := by
  rw [Bool.eq_iff_iff, List.any_eq_true, List.any_eq_true]
  constructor
  · rintro ⟨e, held, like⟩
    exact ⟨e, (kept_sublist config ds).subset held, like⟩
  · rintro ⟨e, among, like⟩
    obtain ⟨f, first, like⟩ := exists_first among like
    rw [← show distinct config ds = firsts ds from if_pos dedup] at first
    refine ⟨f, ?_, like⟩
    have same := graded f ((distinct_sublist config ds).subset first) (alike_iff.mp like).1
    cases error : d.isError with
    | false => exact mem_limited_of_not_isError first (same.trans error)
    | true =>
      rw [error, Bool.true_and] at room
      rw [kept, limited_eq_self room]
      exact first

/-- One more diagnostic is kept, unless it is an error for which there is no room or it is like one
that is kept. -/
theorem kept_concat (graded : ∀ e ∈ ds, d.code = e.code → e.isError = d.isError) :
    kept config (ds ++ [d]) = kept config ds ++
      if (d.isError && full config (kept config ds)) ||
        (config.deduplicate && (kept config ds).any (alike d)) then [] else [d] := by
  have refused : ((d.isError && full config (kept config ds)) ||
        (config.deduplicate && (kept config ds).any (alike d))) =
      ((d.isError && full config (distinct config ds)) ||
        (config.deduplicate && ds.any (alike d))) := by
    rw [kept, full_limited]
    cases beyond : d.isError && full config (distinct config ds) with
    | true => rfl
    | false =>
      cases dedup : config.deduplicate with
      | false => rfl
      | true => rw [← any_kept graded beyond dedup, kept]
  rw [refused, kept, distinct_concat]
  cases config.deduplicate && ds.any (alike d) with
  | true => rw [if_pos rfl, Bool.or_true, if_pos rfl, List.append_nil, List.append_nil, kept]
  | false => rw [if_neg Bool.false_ne_true, Bool.or_false, limited_concat, kept]

/-- The queue has been offered the diagnostics since it was flushed: it holds what is to be kept of
them and counts it, and diagnostics of one code are equally grave. -/
structure Holds (grave : Code → Bool) (config : QueueConfig) (ds : List Diagnostic)
    (q : DiagnosticQueue) : Prop where
  config_eq : q.config = config
  toList_eq : q.toList = kept config ds
  sound : q.Sound grave
  graded : ∀ d ∈ ds, d.isError = grave d.code

variable {grave : Code → Bool} {q : DiagnosticQueue}

theorem kept_nil (config : QueueConfig) : kept config [] = [] :=
  List.sublist_nil.mp (kept_sublist config [])

/-- An empty queue holds what is kept of nothing. -/
theorem holds_empty (grave : Code → Bool) (config : QueueConfig) :
    (empty config).Holds grave config [] where
  config_eq := rfl
  toList_eq := (kept_nil config).symm
  sound := sound_empty config
  graded := nofun

/-- A queue refuses what is not to be kept. -/
theorem Holds.refuses_eq (h : q.Holds grave config ds) (d : Diagnostic) :
    q.refuses d = ((d.isError && full config (kept config ds)) ||
      (config.deduplicate && (kept config ds).any (alike d))) := by
  rw [refuses, limitReached, h.config_eq, h.sound.errors, h.toList_eq, full, ← Array.any_toList]
  exact congrArg (fun held => _ || (_ && List.any held _)) h.toList_eq

/-- Adding does not change the configuration. -/
theorem config_add (q : DiagnosticQueue) (d : Diagnostic) : (q.add d).2.config = q.config := by
  rw [add]
  split <;> rfl

/-- Adding keeps what there is to be kept of one more diagnostic. -/
theorem Holds.add (h : q.Holds grave config ds) (graded : d.isError = grave d.code) :
    (q.add d).2.Holds grave config (ds ++ [d]) where
  config_eq := (q.config_add d).trans h.config_eq
  toList_eq := by
    have alike : ∀ e ∈ ds, d.code = e.code → e.isError = d.isError := fun e among same => by
      rw [h.graded e among, graded, same]
    rw [kept_concat alike, ← h.refuses_eq]
    cases refused : q.refuses d with
    | true => rw [add_of_refuses refused, if_pos rfl, List.append_nil, h.toList_eq]
    | false => rw [toList_add refused, if_neg Bool.false_ne_true, h.toList_eq]
  sound := h.sound.add graded
  graded := List.forall_mem_append.mpr ⟨h.graded, List.forall_mem_singleton.mpr graded⟩

/-- A queue that is flushed begins anew. -/
theorem Holds.flush (h : q.Holds grave config ds) : q.flush.2.Holds grave config [] := by
  rw [DiagnosticQueue.flush, h.config_eq]
  exact holds_empty grave config

/-- What is done with a queue. -/
inductive Call where
  | add (d : Diagnostic)
  | flush
  deriving DecidableEq

/-- The queue after a call. -/
def call (q : DiagnosticQueue) : Call → DiagnosticQueue
  | .add d => (q.add d).2
  | .flush => q.flush.2

/-- What has been added since the last flush, after a further call. -/
def Call.since (ds : List Diagnostic) : Call → List Diagnostic
  | .add d => ds ++ [d]
  | .flush => []

/-- The queue after some calls. -/
def afterCalls (config : QueueConfig) (calls : List Call) : DiagnosticQueue :=
  calls.foldl call (empty config)

/-- What some calls have added since the last flush among them. -/
def added (calls : List Call) : List Diagnostic := calls.foldl Call.since []

variable {calls : List Call}

/-- A queue goes on to hold what is to be kept. -/
theorem Holds.after (h : q.Holds grave config ds)
    (graded : ∀ d, .add d ∈ calls → d.isError = grave d.code) :
    (calls.foldl call q).Holds grave config (calls.foldl Call.since ds) := by
  induction calls generalizing q ds with
  | nil => exact h
  | cons c calls ih =>
    refine ih ?_ fun d among => graded d (List.mem_cons_of_mem c among)
    cases c with
    | add d => exact h.add (graded d List.mem_cons_self)
    | flush => exact h.flush

/-- What was added since the last flush was there before the calls or is added by one of them. -/
theorem mem_of_mem_since (h : d ∈ calls.foldl Call.since ds) : d ∈ ds ∨ .add d ∈ calls := by
  induction calls generalizing ds with
  | nil => exact Or.inl h
  | cons c calls ih =>
    rcases ih h with before | later
    · cases c with
      | add e =>
        refine (List.mem_append.mp before).imp_right fun last => ?_
        obtain rfl := List.mem_singleton.mp last
        exact List.mem_cons_self
      | flush => cases before
    · exact Or.inr (List.mem_cons_of_mem c later)

/-- Where diagnostics of one code are equally severe, the code says which are errors. -/
theorem exists_grave (severities : ∀ d e, .add d ∈ calls → .add e ∈ calls → d.code = e.code →
    d.severity = e.severity) :
    ∃ grave : Code → Bool, ∀ d, .add d ∈ calls → d.isError = grave d.code := by
  classical
  refine ⟨fun code => decide (∃ e, .add e ∈ calls ∧ e.code = code ∧ e.isError = true),
    fun d among => ?_⟩
  rw [Bool.eq_iff_iff, decide_eq_true_iff]
  constructor
  · exact fun error => ⟨d, among, rfl, error⟩
  · rintro ⟨e, among', same, error⟩
    rw [Diagnostic.isError, severities d e among among' same.symm]
    exact error

section Flush

/-- Diagnostics that have one place in the order of the source keep their order. -/
theorem filter_flush (q : DiagnosticQueue) {p : Diagnostic → Bool}
    (same : ∀ d e, p d = true → p e = true → sortKey d = sortKey e) :
    q.flush.1.filter p = q.toList.filter p := by
  have ordered : (q.toList.filter p).Pairwise fun d e => decide (sortKey d ≤ sortKey e) = true :=
    List.pairwise_of_forall_mem_list fun d first e second =>
      decide_eq_true (Nat.le_of_eq
        (same d e (List.mem_filter.mp first).2 (List.mem_filter.mp second).2))
  have among : (q.toList.filter p).Sublist q.flush.1 :=
    List.sublist_mergeSort sortKey_le_trans sortKey_le_total ordered List.filter_sublist
  have within := among.filter p
  rw [List.filter_filter] at within
  simp only [Bool.and_self] at within
  exact (within.eq_of_length (q.flush_perm.filter p).length_eq.symm).symm

/-- The first diagnostic need not stand behind the second one: it starts no later, where those
without a primary label are behind all others. -/
def Precedes (d e : Diagnostic) : Prop :=
  ∀ t, e.primaryStart? = some t → ∃ s, d.primaryStart? = some s ∧ s ≤ t

/-- A diagnostic with a place is sorted by its start. -/
theorem sortKey_of_some {s : Nat} (h : d.primaryStart? = some s) : sortKey d = s := by
  rw [sortKey, h, Option.getD_some]

/-- A diagnostic without a place is sorted as if it were at the largest offset. -/
theorem sortKey_of_none (h : d.primaryStart? = none) : sortKey d = maxOffset := by
  rw [sortKey, h, Option.getD_none]

/-- Those with and those without a primary label are told apart, unless one without stands in front
of one at the largest offset. -/
theorem pairwise_precedes_iff
    (offsets : ∀ d ∈ q.toList, ∀ s, d.primaryStart? = some s → s ≤ maxOffset) :
    q.flush.1.Pairwise Precedes ↔ ∀ d e, [d, e].Sublist q.toList →
      d.primaryStart? = none → e.primaryStart? ≠ some maxOffset := by
  constructor
  · intro ordered d e before none last
    have level : decide (sortKey d ≤ sortKey e) = true := by
      rw [sortKey_of_none none, sortKey_of_some last]
      rfl
    have kept : [d, e].Sublist q.flush.1 :=
      List.pair_sublist_mergeSort sortKey_le_trans sortKey_le_total level before
    obtain ⟨s, some, _⟩ := List.pairwise_iff_forall_sublist.mp ordered kept maxOffset last
    rw [none] at some
    cases some
  · intro apart
    refine List.pairwise_iff_forall_sublist.mpr fun {d e} before t last => ?_
    have ordered := List.pairwise_iff_forall_sublist.mp q.pairwise_flush before
    rw [sortKey_of_some last] at ordered
    cases first : d.primaryStart? with
    | some s => exact ⟨s, rfl, sortKey_of_some first ▸ ordered⟩
    | none =>
      -- both are at the largest offset, where they have kept their order
      rw [sortKey_of_none first] at ordered
      have held : e ∈ q.toList := q.flush_perm.subset (before.subset (by simp))
      obtain rfl : t = maxOffset := Nat.le_antisymm (offsets e held t last) ordered
      have stable := q.filter_flush (p := fun d => sortKey d == maxOffset)
        fun d e here there => (eq_of_beq here).trans (eq_of_beq there).symm
      have both : [d, e].Sublist (q.toList.filter fun d => sortKey d == maxOffset) := by
        rw [← stable]
        have kept := before.filter fun d => sortKey d == maxOffset
        simpa [sortKey_of_none first, sortKey_of_some last] using kept
      exact absurd last (apart d e (both.trans List.filter_sublist) first)

end Flush

/-- After any calls the queue holds what they have added since the last flush, without repetitions
and then without the errors beyond the limit, and counts it. Adding puts a diagnostic behind the
others or changes nothing, as the answer tells. Flushing leaves nothing and hands out what was held
in the order of the primary starts, those of one start in the order in which they were added; and
those without a primary label come last, unless one of them was added before one that starts at the
largest offset. -/
theorem history_kept (config : QueueConfig) {calls : List Call}
    (severities : ∀ d e, .add d ∈ calls → .add e ∈ calls → d.code = e.code →
      d.severity = e.severity)
    (offsets : ∀ d, .add d ∈ calls → ∀ s, d.primaryStart? = some s → s ≤ maxOffset) :
    let q := afterCalls config calls
    q.toList = kept config (added calls) ∧
    q.errorCount = q.toList.countP Diagnostic.isError ∧
    q.warningCount = q.toList.countP (fun d => !d.isError) ∧
    (∀ d, ((q.add d).1 = true ∧ (q.add d).2.toList = q.toList ++ [d]) ∨ q.add d = (false, q)) ∧
    q.flush.2 = empty config ∧
    q.flush.1.Perm q.toList ∧
    (∀ start, q.flush.1.filter (fun d => d.primaryStart? == start) =
      q.toList.filter fun d => d.primaryStart? == start) ∧
    (q.flush.1.Pairwise Precedes ↔ ∀ d e, [d, e].Sublist q.toList →
      d.primaryStart? = none → e.primaryStart? ≠ some maxOffset) := by
  obtain ⟨grave, graded⟩ := exists_grave severities
  have holds : (afterCalls config calls).Holds grave config (added calls) :=
    (holds_empty grave config).after graded
  have bounded : ∀ d ∈ (afterCalls config calls).toList, ∀ s, d.primaryStart? = some s →
      s ≤ maxOffset := fun d held => by
    rw [holds.toList_eq] at held
    have since := (kept_sublist config _).subset held
    exact offsets d ((mem_of_mem_since since).resolve_left List.not_mem_nil)
  refine ⟨holds.toList_eq, holds.sound.errors, holds.sound.warnings, fun d => ?_,
    congrArg empty holds.config_eq, flush_perm _,
    fun start => filter_flush _ fun d e here there => ?_, pairwise_precedes_iff bounded⟩
  · cases refused : (afterCalls config calls).refuses d with
    | true => exact Or.inr (add_of_refuses refused)
    | false =>
      have accepted : ((afterCalls config calls).add d).1 = true := by
        rw [add, if_neg (by rw [refused]; exact Bool.false_ne_true)]
      exact Or.inl ⟨accepted, toList_add refused⟩
  · rw [sortKey, sortKey, eq_of_beq here, eq_of_beq there]

/-- An error that is flushed, then the same, a repetition of it, an error without a place and a
warning before all of them. -/
def someCalls : List Call :=
  [.add (.syntaxError (.point 5) [] "a"), .flush, .add (.syntaxError (.point 5) [] "a"),
    .add (.syntaxError (.point 5) [] "b"), .add (.raise .error .trailingInput "" [] []),
    .add (.skippedToken (.point 3) "c")]

/-- If one error may be kept, that and the warning are, and the warning is handed out first. -/
theorem history_kept_someCalls :
    let q := afterCalls ⟨1, true⟩ someCalls
    q.toList = [.syntaxError (.point 5) [] "a", .skippedToken (.point 3) "c"] ∧
      q.errorCount = 1 ∧ q.warningCount = 1 ∧ q.flush.1.Pairwise Precedes := by
  have each : ∀ d, .add d ∈ someCalls →
      d.severity = (if d.code.isWarning then .warning else .error) ∧
        d.primaryStart? ∈ [none, some 3, some 5] := by
    intro d among
    simp only [someCalls, List.mem_cons, Call.add.injEq, reduceCtorEq, List.not_mem_nil, false_or,
      or_false] at among
    rcases among with rfl | rfl | rfl | rfl | rfl <;> decide
  obtain ⟨held, errors, warnings, _, _, _, _, last⟩ := history_kept ⟨1, true⟩
    (fun d e first second same => by rw [(each d first).1, (each e second).1, same])
    (fun d among s start => by
      have listed := (each d among).2
      rw [start] at listed
      simp at listed
      rcases listed with rfl | rfl <;> decide)
  have two : kept ⟨1, true⟩ (added someCalls) =
      [.syntaxError (.point 5) [] "a", .skippedToken (.point 3) "c"] := by rfl
  rw [two] at held
  have placed : ∀ d ∈ [Diagnostic.syntaxError (.point 5) [] "a", .skippedToken (.point 3) "c"],
      d.primaryStart? ≠ none := by decide
  refine ⟨held, by rw [errors, held]; rfl, by rw [warnings, held]; rfl, last.mpr ?_⟩
  rw [held]
  exact fun d e both none _ => placed d (both.subset List.mem_cons_self) none

/-- An error without a place is handed out before one at the largest offset that is added later. -/
theorem unplaced_before_largest :
    let d : Diagnostic := .raise .error .syntaxError "m" [] []
    let e : Diagnostic := .atSpan .recoveredFailure "m" (.point maxOffset) "l" []
    ¬ (afterCalls .unlimited [.add d, .add e]).flush.1.Pairwise Precedes := by
  intro d e ordered
  have offsets : ∀ c ∈ (afterCalls .unlimited [.add d, .add e]).toList, ∀ s,
      c.primaryStart? = some s → s ≤ maxOffset := by
    change ∀ c ∈ [d, e], _
    simp only [List.forall_mem_cons]
    exact ⟨nofun, fun s start => Nat.le_of_eq (Option.some.inj start).symm, nofun⟩
  exact (pairwise_precedes_iff offsets).mp ordered d e (List.Sublist.refl _) rfl rfl

end CombinatorGrammar.DiagnosticQueue
