import CombinatorGrammar.Text.Bytes
import CombinatorGrammar.Text.Span

/-!
# Lines and columns

A line table holds the byte offset at which each line of a source starts. Lines and columns are
counted from one in 32 bits, and a column counts characters. An offset inside a character has column
one, since no whole number of characters leads to it.
-/

namespace CombinatorGrammar

/-- The offsets at which lines start, in increasing order. -/
structure LineTable where
  starts : List Nat

namespace LineTable

/-- The table without lines. -/
def empty : LineTable := ⟨[]⟩

/-- The starts of the lines that begin within the characters from `offset` on. -/
def startsFrom (offset : Nat) : List Char → List Nat
  | [] => []
  | c :: cs =>
    let next := offset + c.utf8Size
    if c = '\n' then next :: startsFrom next cs else startsFrom next cs

/-- The table of a source: a line starts at its beginning and behind every newline. -/
def ofSource (source : List Char) : LineTable := ⟨0 :: startsFrom 0 source⟩

/-- The number of lines. -/
def count (t : LineTable) : Nat := t.starts.length

/-- The number of what stands behind `count` others, counted from one in 32 bits. A count that does
not fit is taken for the largest but one that does. The largest count fits, but the number behind it
does not and is zero. -/
def ordinal (count : Nat) : Nat :=
  wrappingSucc (if count ≤ maxOffset then count else maxOffset - 1)

/-- The line of an offset: the last that starts at or before it, or the first if none does. -/
def lineOf (t : LineTable) (offset : Nat) : Nat :=
  ordinal ((t.starts.takeWhile fun start => decide (start ≤ offset)).length - 1)

/-- The offset at which a line starts. -/
def start? (t : LineTable) (line : Nat) : Option Nat :=
  if line = 0 then none else t.starts[line - 1]?

/-- The line and the column of an offset; an offset beyond the source counts as its end. -/
def position (t : LineTable) (source : List Char) (offset : Nat) : Nat × Nat :=
  let line := t.lineOf offset
  let start := (t.start? line).getD 0
  let stop := max start (min offset (Text.byteLength source))
  (line, ordinal (((Text.slice? source start stop).map List.length).getD 0))

/-- Whether a character belongs to the end of a line. -/
def endsLine (c : Char) : Bool := c == '\n' || c == '\r'

/-- The characters of a line, without those that end it. -/
def text? (t : LineTable) (source : List Char) (line : Nat) : Option (List Char) := do
  let start ← t.start? line
  let stop := (t.start? (wrappingSucc line)).getD (Text.byteLength source)
  let text ← Text.slice? source start stop
  return (text.reverse.dropWhile endsLine).reverse

end LineTable

end CombinatorGrammar
