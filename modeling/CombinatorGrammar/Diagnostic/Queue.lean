import CombinatorGrammar.Diagnostic.Basic

/-!
# Queues of diagnostics

A queue collects the diagnostics of one file. It refuses errors beyond a limit, and refuses a
diagnostic whose code and primary start are those of one that it holds. Flushing hands out what
it holds in the order of the source and leaves the queue as it was at the beginning.
-/

namespace CombinatorGrammar

/-- What a queue refuses. -/
structure QueueConfig where
  /-- How many errors the queue holds at most; zero stands for no limit. -/
  errorLimit : Nat
  /-- Whether a diagnostic like one that is held is refused. -/
  deduplicate : Bool
  deriving DecidableEq, Inhabited

namespace QueueConfig

/-- Ten errors, and no repetitions. -/
def standard : QueueConfig := ⟨10, true⟩

/-- Nothing is refused. -/
def unlimited : QueueConfig := ⟨0, false⟩

end QueueConfig

/-- Diagnostics in the order in which they were added, with their counts. -/
structure DiagnosticQueue where
  config : QueueConfig
  held : Array Diagnostic
  /-- How many of the held diagnostics are errors. -/
  errorCount : Nat
  /-- How many of the held diagnostics are not errors. -/
  warningCount : Nat

namespace DiagnosticQueue

/-- The queue that holds nothing. -/
def empty (config : QueueConfig) : DiagnosticQueue := ⟨config, #[], 0, 0⟩

/-- Whether no further error is accepted. -/
def limitReached (q : DiagnosticQueue) : Bool :=
  decide (0 < q.config.errorLimit) && decide (q.config.errorLimit ≤ q.errorCount)

/-- Whether two diagnostics count as one: they share the code and the primary start. -/
def alike (d e : Diagnostic) : Bool :=
  d.code == e.code && d.primaryStart? == e.primaryStart?

/-- Whether the queue refuses a diagnostic. -/
def refuses (q : DiagnosticQueue) (d : Diagnostic) : Bool :=
  (d.isError && q.limitReached) || (q.config.deduplicate && q.held.any (alike d))

/-- Add a diagnostic unless it is refused; the answer tells whether it was added. -/
def add (q : DiagnosticQueue) (d : Diagnostic) : Bool × DiagnosticQueue :=
  if q.refuses d then (false, q)
  else (true, {
    config := q.config
    held := q.held.push d
    errorCount := if d.isError then q.errorCount + 1 else q.errorCount
    warningCount := if d.isError then q.warningCount else q.warningCount + 1 })

/-- Add diagnostics one after the other. -/
def addAll (q : DiagnosticQueue) (ds : List Diagnostic) : DiagnosticQueue :=
  ds.foldl (fun q d => (q.add d).2) q

/-- Whether an error is held. -/
def hasErrors (q : DiagnosticQueue) : Bool := decide (0 < q.errorCount)

/-- The place of a diagnostic in the order of the source: its primary start, or the end of the
order if it has no primary label. -/
def sortKey (d : Diagnostic) : Nat := d.primaryStart?.getD maxOffset

/-- What is held, in the order in which it was added. -/
def toList (q : DiagnosticQueue) : List Diagnostic := q.held.toList

/-- What is held, in the order of the source; diagnostics at one place keep their order. -/
def sorted (q : DiagnosticQueue) : List Diagnostic :=
  q.toList.mergeSort fun d e => decide (sortKey d ≤ sortKey e)

/-- Hand out what is held in the order of the source, and start anew. -/
def flush (q : DiagnosticQueue) : List Diagnostic × DiagnosticQueue :=
  (q.sorted, empty q.config)

end DiagnosticQueue

end CombinatorGrammar
