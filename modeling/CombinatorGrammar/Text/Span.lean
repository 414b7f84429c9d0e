/-!
# Source spans

A span is a half-open range of byte offsets into one source text. Offsets are 32-bit numbers
kept as naturals: `Span.ofRange` is where a longer range is refused. Merging gives the least
span that covers both of its arguments.
-/

namespace CombinatorGrammar

/-- The largest byte offset that a span may hold. -/
def maxOffset : Nat := 4294967295

/-- The 32-bit number behind another one; behind the largest the numbers begin again at zero. -/
def wrappingSucc (n : Nat) : Nat := (n + 1) % (maxOffset + 1)

/-- A range of byte offsets, from `start` up to and excluding `stop`. -/
structure Span where
  /-- Offset of the first byte. -/
  start : Nat
  /-- Offset just past the last byte. -/
  stop : Nat
  deriving DecidableEq, Inhabited

/-- Why a range of offsets is not a span. -/
inductive RangeError where
  /-- The start lies beyond the largest offset. -/
  | startTooLarge (offset : Nat)
  /-- The end lies beyond the largest offset. -/
  | endTooLarge (offset : Nat)
  deriving DecidableEq

/-- The text of a range error. -/
def RangeError.message : RangeError → String
  | .startTooLarge offset => s!"span start {offset} exceeds u32::MAX ({maxOffset})"
  | .endTooLarge offset => s!"span end {offset} exceeds u32::MAX ({maxOffset})"

namespace Span

/-- The span of a range of offsets, when both ends can be held; the start is judged first. -/
def ofRange (start stop : Nat) : Except RangeError Span :=
  if maxOffset < start then .error (.startTooLarge start)
  else if maxOffset < stop then .error (.endTooLarge stop)
  else .ok ⟨start, stop⟩

/-- The empty span at an offset. -/
def point (offset : Nat) : Span := ⟨offset, offset⟩

/-- The number of bytes in the span. -/
def length (s : Span) : Nat := s.stop - s.start

/-- Whether the span holds no byte. -/
def isEmpty (s : Span) : Bool := s.start == s.stop

/-- The least span that covers both spans. -/
def merge (s t : Span) : Span := ⟨min s.start t.start, max s.stop t.stop⟩

/-- A span as text, such as `3..7`. -/
def text (s : Span) : String := s!"{s.start}..{s.stop}"

/-- It does not matter which of two spans is merged with the other. -/
theorem merge_comm (s t : Span) : s.merge t = t.merge s := by
  simp only [merge, Nat.min_comm, Nat.max_comm]

/-- Merging spans takes in all of them, however they are grouped. -/
theorem merge_assoc (s t u : Span) : (s.merge t).merge u = s.merge (t.merge u) := by
  simp only [merge, Nat.min_assoc, Nat.max_assoc]

/-- A span takes in itself. -/
@[simp] theorem merge_self (s : Span) : s.merge s = s := by
  simp only [merge, Nat.min_self, Nat.max_self]

end Span

end CombinatorGrammar
