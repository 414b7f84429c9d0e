import CombinatorGrammar.Proofs.Text.Bytes
import CombinatorGrammar.Text.Lines
import CombinatorGrammar.Text.Span
import Mathlib.Data.List.Basic
import Mathlib.Data.List.Count
import Mathlib.Data.List.Induction
import Mathlib.Data.List.TakeWhile

/-!
# Exact lines and columns

The line of an offset counts the newlines before it, and its column the characters between the start
of the line and it. Nothing is lost: the start of the line and the column lead back to the offset,
later offsets have later places, and the lines one after the other are the source.
-/

namespace CombinatorGrammar

open Text

namespace LineTable

/-- A line with what ends it: the source from its start up to the start of the next line. -/
def whole? (t : LineTable) (source : List Char) (line : Nat) : Option (List Char) := do
  let start ← t.start? line
  slice? source start ((t.start? (line + 1)).getD (byteLength source))

/-- Below the largest number, the next number is the next one indeed. -/
theorem wrappingSucc_of_lt {n : Nat} (small : n < maxOffset) : wrappingSucc n = n + 1 :=
  Nat.mod_eq_of_lt (Nat.succ_lt_succ small)

/-- All numbers are within 32 bits. -/
theorem ordinal_le (count : Nat) : ordinal count ≤ maxOffset :=
  Nat.le_of_lt_succ (Nat.mod_lt _ (Nat.succ_pos _))

/-- Below the largest count, the number of what comes next is one more. -/
theorem ordinal_of_lt {count : Nat} (small : count < maxOffset) : ordinal count = count + 1 := by
  rw [ordinal, if_pos small.le, wrappingSucc_of_lt small]

/-- There is no number behind the largest count. -/
theorem ordinal_maxOffset : ordinal maxOffset = 0 := by
  rw [ordinal, if_pos (Nat.le_refl _), wrappingSucc, Nat.mod_self]

section Starts

variable {offset : Nat} {cs : List Char}

theorem startsFrom_append (offset : Nat) (cs cs' : List Char) :
    startsFrom offset (cs ++ cs') =
      startsFrom offset cs ++ startsFrom (offset + byteLength cs) cs' := by
  induction cs generalizing offset with
  | nil => rfl
  | cons c cs ih =>
    have size : offset + byteLength (c :: cs) = offset + c.utf8Size + byteLength cs :=
      (Nat.add_assoc ..).symm
    rw [List.cons_append, startsFrom, startsFrom, size, ih]
    split <;> rfl

/-- Lines start behind the offset, and within the characters or at their end. -/
theorem bounds_of_mem_startsFrom {start : Nat} (among : start ∈ startsFrom offset cs) :
    offset < start ∧ start ≤ offset + byteLength cs := by
  induction cs generalizing offset with
  | nil => cases among
  | cons c cs ih =>
    have positive := c.utf8Size_pos
    have size : byteLength (c :: cs) = c.utf8Size + byteLength cs := rfl
    have later (among : start ∈ startsFrom (offset + c.utf8Size) cs) :
        offset < start ∧ start ≤ offset + byteLength (c :: cs) := by
      have := ih among
      omega
    rw [startsFrom] at among
    split at among
    · rcases List.mem_cons.mp among with rfl | among
      · omega
      · exact later among
    · exact later among

/-- Each newline is followed by a line. -/
theorem length_startsFrom (offset : Nat) (cs : List Char) :
    (startsFrom offset cs).length = cs.count '\n' := by
  induction cs generalizing offset with
  | nil => rfl
  | cons c cs ih =>
    rw [startsFrom]
    by_cases newline : c = '\n'
    · rw [if_pos newline, List.length_cons, ih, newline, List.count_cons_self]
    · rw [if_neg newline, ih, List.count_cons_of_ne newline]

/-- No line starts behind the end of the source. -/
theorem le_of_mem_starts {start : Nat} (among : start ∈ (ofSource cs).starts) :
    start ≤ byteLength cs := by
  rcases List.mem_cons.mp among with rfl | among
  · exact Nat.zero_le _
  · have := bounds_of_mem_startsFrom among
    omega

/-- An offset beyond the source is on the last line. -/
theorem lineOf_beyond (large : byteLength cs ≤ offset) :
    (ofSource cs).lineOf offset = ordinal ((ofSource cs).count - 1) := by
  have all : ∀ start ∈ (ofSource cs).starts, decide (start ≤ offset) = true := fun start among =>
    decide_eq_true (Nat.le_trans (le_of_mem_starts among) large)
  rw [lineOf, List.takeWhile_eq_self_iff.mpr all, count]

end Starts

/-- A line starts behind these characters: there are none, or a newline is the last of them. -/
inductive LineStart : List Char → Prop where
  | first : LineStart []
  | next (cs : List Char) : LineStart (cs ++ ['\n'])

/-- Whatever characters there are, the line that they end in starts within them. -/
theorem exists_lineStart (cs : List Char) :
    ∃ front part, cs = front ++ part ∧ LineStart front ∧ '\n' ∉ part := by
  induction cs using List.reverseRecOn with
  | nil => exact ⟨[], [], rfl, .first, List.not_mem_nil⟩
  | append_singleton cs c ih =>
    by_cases newline : c = '\n'
    · exact ⟨cs ++ [c], [], (List.append_nil _).symm, newline ▸ .next cs, List.not_mem_nil⟩
    · obtain ⟨front, part, rfl, starts, here⟩ := ih
      refine ⟨front, part ++ [c], List.append_assoc .., starts, ?_⟩
      simpa using ⟨here, Ne.symm newline⟩

section Lookup

variable {front : List Char}

/-- The line of an offset counts the newlines before it. -/
theorem lineOf_boundary (before after : List Char) :
    (ofSource (before ++ after)).lineOf (byteLength before) = ordinal (before.count '\n') := by
  have among : ∀ start ∈ 0 :: startsFrom 0 before, decide (start ≤ byteLength before) = true := by
    refine List.forall_mem_cons.mpr ⟨by simp, fun start among => ?_⟩
    have := bounds_of_mem_startsFrom among
    simp only [decide_eq_true_eq]
    omega
  have beyond : (startsFrom (0 + byteLength before) after).takeWhile
      (fun start => decide (start ≤ byteLength before)) = [] := by
    cases later : startsFrom (0 + byteLength before) after with
    | nil => rfl
    | cons start starts =>
      have := bounds_of_mem_startsFrom (later ▸ List.mem_cons_self)
      apply List.takeWhile_cons_of_neg
      simp only [decide_eq_true_eq]
      omega
  rw [lineOf, ofSource, startsFrom_append, ← List.cons_append,
    List.takeWhile_append_of_pos among, beyond, List.append_nil, List.length_cons,
    length_startsFrom, Nat.add_sub_cancel]

/-- The line that starts behind some characters is the one after their newlines. -/
theorem start?_of_lineStart (h : LineStart front) (cs : List Char) :
    (ofSource (front ++ cs)).start? (front.count '\n' + 1) = some (byteLength front) := by
  rw [start?, if_neg (Nat.succ_ne_zero _), Nat.add_sub_cancel, ofSource]
  cases h with
  | first => rfl
  | next before =>
    have newline : startsFrom (0 + byteLength before) ['\n'] = [byteLength (before ++ ['\n'])] := by
      rw [byteLength_append, Nat.zero_add]
      rfl
    rw [startsFrom_append, startsFrom_append, newline, List.count_append,
      List.count_singleton_self, List.getElem?_cons_succ, List.append_assoc,
      List.getElem?_append_right (by rw [length_startsFrom]), length_startsFrom, Nat.sub_self]
    rfl

/-- There is one line more than there are line breaks. -/
theorem count_ofSource (source : List Char) : (ofSource source).count = source.count '\n' + 1 := by
  rw [count, ofSource, List.length_cons, length_startsFrom]

/-- No line starts behind the last newline of the source. -/
theorem start?_eq_none {source : List Char} {line : Nat} (h : source.count '\n' + 1 < line) :
    (ofSource source).start? line = none := by
  rw [start?, if_neg (by omega), List.getElem?_eq_none]
  rw [ofSource, List.length_cons, length_startsFrom]
  omega

/-- A line up to its newline. -/
theorem whole?_ended (h : LineStart front) {line : List Char} (here : '\n' ∉ line)
    (cs : List Char) :
    (ofSource (front ++ (line ++ ['\n'] ++ cs))).whole? (front ++ (line ++ ['\n'] ++ cs))
      (front.count '\n' + 1) = some (line ++ ['\n']) := by
  have starts := start?_of_lineStart h (line ++ ['\n'] ++ cs)
  have behind : LineStart (front ++ (line ++ ['\n'])) := List.append_assoc front .. ▸ .next _
  have newlines : (line ++ ['\n']).count '\n' = 1 := by
    rw [List.count_append, List.count_eq_zero.mpr here, List.count_singleton_self]
  have next := start?_of_lineStart behind cs
  rw [List.count_append, newlines, List.append_assoc] at next
  rw [whole?, starts, Option.bind_eq_bind, Option.bind_some, next, Option.getD_some,
    byteLength_append]
  exact slice?_append front (line ++ ['\n']) cs

/-- The last line. -/
theorem whole?_last (h : LineStart front) {line : List Char} (here : '\n' ∉ line) :
    (ofSource (front ++ line)).whole? (front ++ line) (front.count '\n' + 1) = some line := by
  have starts := start?_of_lineStart h line
  have next : (ofSource (front ++ line)).start? (front.count '\n' + 1 + 1) = none := by
    apply start?_eq_none
    rw [List.count_append, List.count_eq_zero.mpr here]
    omega
  rw [whole?, starts, next, Option.bind_eq_bind, Option.bind_some, Option.getD_none,
    byteLength_append]
  have slice := slice?_append front line []
  rw [List.append_nil] at slice
  exact slice

/-- The place of an offset: its line counts the newlines before, its column the characters since the
start of the line. -/
theorem position_boundary (h : LineStart front) {source part after : List Char} (here : '\n' ∉ part)
    (few : front.count '\n' < maxOffset) (split : source = front ++ part ++ after) :
    (ofSource source).position source (byteLength (front ++ part)) =
      (front.count '\n' + 1, ordinal part.length) := by
  have line := lineOf_boundary (front ++ part) after
  rw [← split, List.count_append, List.count_eq_zero.mpr here, Nat.add_zero,
    ordinal_of_lt few] at line
  have inside : byteLength (front ++ part) ≤ byteLength source := by
    rw [split, byteLength_append _ after]
    exact Nat.le_add_right ..
  have ordered : byteLength front ≤ byteLength front + byteLength part := Nat.le_add_right ..
  rw [List.append_assoc] at split
  have start := start?_of_lineStart h (part ++ after)
  have slice := slice?_append front part after
  rw [← split] at start slice
  rw [position, line, start, Option.getD_some, Nat.min_eq_left inside, byteLength_append,
    Nat.max_eq_right ordered, slice]
  rfl

end Lookup

/-- Lines and columns are within 32 bits. -/
theorem position_le (t : LineTable) (source : List Char) (offset : Nat) :
    (t.position source offset).1 ≤ maxOffset ∧ (t.position source offset).2 ≤ maxOffset :=
  ⟨ordinal_le _, ordinal_le _⟩

/-- Every boundary of a source is within a line, which starts before it and goes on behind it. -/
theorem exists_line {source before after : List Char} (split : source = before ++ after) :
    ∃ front part rest, before = front ++ part ∧ LineStart front ∧ '\n' ∉ part ∧
      (ofSource source).start? (before.count '\n' + 1) = some (byteLength front) ∧
      (ofSource source).whole? source (before.count '\n' + 1) = some (part ++ rest) := by
  obtain ⟨front, part, rfl, starts, here⟩ := exists_lineStart before
  have newlines : (front ++ part).count '\n' = front.count '\n' := by
    rw [List.count_append, List.count_eq_zero.mpr here, Nat.add_zero]
  have start := start?_of_lineStart starts (part ++ after)
  rw [newlines]
  rw [List.append_assoc] at split
  rw [← split] at start
  by_cases ended : '\n' ∈ after
  · obtain ⟨rest, cs, rfl, before⟩ := List.eq_append_cons_of_mem ended
    have here' : '\n' ∉ part ++ rest := fun among => (List.mem_append.mp among).elim here before
    have whole := whole?_ended starts here' cs
    simp only [List.append_assoc, List.singleton_append, ← split] at whole
    exact ⟨front, part, rest ++ ['\n'], rfl, starts, here, start, whole⟩
  · have here' : '\n' ∉ part ++ after := fun among => (List.mem_append.mp among).elim here ended
    have whole := whole?_last starts here'
    rw [← split] at whole
    exact ⟨front, part, after, rfl, starts, here, start, whole⟩

/-- What stands before an offset has too many newlines or, on its one line, too many characters for
their number in 32 bits. -/
def Overflows (before : List Char) : Prop :=
  before.count '\n' = maxOffset ∨ before.length = maxOffset ∧ '\n' ∉ before

/-- Only the largest offset can overflow. -/
theorem not_overflows_of_lt {before : List Char} (inside : byteLength before < maxOffset) :
    ¬ Overflows before := by
  have counted := List.count_le_length (a := '\n') (l := before)
  have bytes := length_le_byteLength before
  rintro (newlines | ⟨length, -⟩) <;> omega

section Bounded

variable {front part : List Char}

/-- What does not overflow has fewer newlines, and its last line fewer characters, than there are
numbers. -/
theorem counts_lt (small : byteLength (front ++ part) ≤ maxOffset) (here : '\n' ∉ part)
    (fits : ¬ Overflows (front ++ part)) :
    (front ++ part).count '\n' < maxOffset ∧ part.length < maxOffset := by
  have counted := List.count_le_length (a := '\n') (l := front ++ part)
  have bytes := length_le_byteLength (front ++ part)
  have lengths : (front ++ part).length = front.length + part.length := List.length_append
  constructor
  · exact Nat.lt_of_le_of_ne (by omega) fun newlines => fits (.inl newlines)
  · refine Nat.lt_of_le_of_ne (by omega) fun length => fits (.inr ⟨by omega, ?_⟩)
    obtain rfl : front = [] := List.eq_nil_of_length_eq_zero (by omega)
    exact here

/-- The line and the column count from one what stands before the offset, unless it overflows: then
one of them does not fit. -/
theorem position_eq_iff {source after : List Char} (starts : LineStart front) (here : '\n' ∉ part)
    (small : byteLength (front ++ part) ≤ maxOffset) (split : source = front ++ part ++ after) :
    (ofSource source).position source (byteLength (front ++ part)) =
        ((front ++ part).count '\n' + 1, part.length + 1) ↔
      ¬ Overflows (front ++ part) := by
  constructor
  · intro place overflows
    have bounds := position_le (ofSource source) source (byteLength (front ++ part))
    rw [place] at bounds
    rcases overflows with newlines | ⟨length, free⟩
    · rw [newlines] at bounds
      exact Nat.not_succ_le_self _ bounds.1
    · cases starts with
      | first =>
        rw [List.nil_append] at length
        rw [length] at bounds
        exact Nat.not_succ_le_self _ bounds.2
      | next cs => exact free (by simp)
  · intro fits
    obtain ⟨few, short⟩ := counts_lt small here fits
    have newlines : (front ++ part).count '\n' = front.count '\n' := by
      rw [List.count_append, List.count_eq_zero.mpr here, Nat.add_zero]
    rw [newlines] at few ⊢
    rw [position_boundary starts here few split, ordinal_of_lt short]

end Bounded

/-- One more line can be read where all before it can. -/
theorem mapM_range_succ {α : Type} {read : Nat → Option α} {n : Nat} {as : List α} {a : α}
    (before : (List.range n).mapM read = some as) (last : read n = some a) :
    (List.range (n + 1)).mapM read = some (as ++ [a]) := by
  rw [List.range_succ, List.mapM_append, before, List.mapM_cons, last]
  rfl

/-- As many lines as there are newlines make up the source up to the last of these newlines. -/
theorem exists_lines (source : List Char) {n : Nat} (h : n ≤ source.count '\n') :
    ∃ lines after, (List.range n).mapM (fun i => (ofSource source).whole? source (i + 1)) =
        some lines ∧ source = lines.flatten ++ after ∧ LineStart lines.flatten ∧
      lines.flatten.count '\n' = n := by
  induction n with
  | zero => exact ⟨[], source, rfl, rfl, .first, rfl⟩
  | succ n ih =>
    obtain ⟨lines, after, read, split, starts, newlines⟩ := ih (Nat.le_of_succ_le h)
    have more : '\n' ∈ after := by
      rw [split, List.count_append, newlines] at h
      exact List.count_pos_iff.mp (by omega)
    obtain ⟨line, cs, rfl, here⟩ := List.eq_append_cons_of_mem more
    have whole := whole?_ended starts here cs
    rw [List.append_assoc line, List.singleton_append, ← split, newlines] at whole
    have flat : (lines ++ [line ++ ['\n']]).flatten = lines.flatten ++ line ++ ['\n'] := by simp
    refine ⟨lines ++ [line ++ ['\n']], cs, mapM_range_succ read whole, ?_, ?_, ?_⟩
    · rw [flat, split]
      simp
    · exact flat ▸ .next _
    · rw [flat, List.count_append, List.count_append, newlines, List.count_eq_zero.mpr here,
        List.count_singleton_self]

/-- The table finds every place of a source exactly, if the place does not overflow, and nothing of
the source is lost. Places are looked up at the boundaries between its characters. -/
structure Exact (t : LineTable) (source : List Char) : Prop where
  /-- The line counts the newlines before, the column the characters since the line started, if and
  only if the place does not overflow. -/
  counts {before after : List Char} : source = before ++ after → ∃ front part,
    before = front ++ part ∧ LineStart front ∧ '\n' ∉ part ∧
    t.start? (before.count '\n' + 1) = some (byteLength front) ∧
    (t.position source (byteLength before) = (before.count '\n' + 1, part.length + 1) ↔
      ¬ Overflows before)
  /-- The start of the line and the characters in front of the column lead back. -/
  inverts {before after : List Char} : source = before ++ after → ¬ Overflows before →
    ∃ start line, t.start? (t.position source (byteLength before)).1 = some start ∧
      t.whole? source (t.position source (byteLength before)).1 = some line ∧
      start + byteLength (line.take ((t.position source (byteLength before)).2 - 1)) =
        byteLength before
  /-- Later offsets are on later lines, or on the same line at later columns. -/
  increases {before after before' after' : List Char} : source = before ++ after →
    source = before' ++ after' → ¬ Overflows before' → byteLength before < byteLength before' →
    Prod.Lex (· < ·) (· < ·) (t.position source (byteLength before))
      (t.position source (byteLength before'))
  /-- Only the end of a source of the largest size can overflow: a source that is all newlines, or a
  single line of characters of one byte. -/
  overflows {before after : List Char} : source = before ++ after → Overflows before →
    before = source ∧ byteLength source = maxOffset ∧
      ((∀ c ∈ source, c = '\n') ∨ ∀ c ∈ source, c ≠ '\n' ∧ c.utf8Size = 1)
  /-- Lines and columns are within 32 bits. -/
  bounded (offset : Nat) :
    (t.position source offset).1 ≤ maxOffset ∧ (t.position source offset).2 ≤ maxOffset
  /-- Offsets beyond the source count as its end. -/
  beyond {offset : Nat} : byteLength source ≤ offset →
    t.position source offset = t.position source (byteLength source)
  /-- The lines are the source. -/
  lines : ∃ lines, (List.range t.count).mapM (fun i => t.whole? source (i + 1)) = some lines ∧
    lines.flatten = source
  count : t.count = source.count '\n' + 1
  /-- All that the table holds are offsets. -/
  starts : ∀ start ∈ t.starts, start ≤ maxOffset

section Exact

variable {source : List Char}

/-- A place that does not overflow comes before all later ones. -/
theorem increases_ofSource (small : byteLength source ≤ maxOffset)
    {before after before' after' : List Char} (split : source = before ++ after)
    (split' : source = before' ++ after') (fits : ¬ Overflows before')
    (earlier : byteLength before < byteLength before') :
    Prod.Lex (· < ·) (· < ·) ((ofSource source).position source (byteLength before))
      ((ofSource source).position source (byteLength before')) := by
  have inside : byteLength before' ≤ maxOffset :=
    (byteLength_le_of_sublist (split' ▸ List.sublist_append_left before' after')).trans small
  have fits₀ := not_overflows_of_lt (earlier.trans_le inside)
  obtain ⟨front, part, _, rfl, starts, here, _, _⟩ := exists_line split
  have place := (position_eq_iff starts here (earlier.le.trans inside) split).mpr fits₀
  obtain ⟨between, rfl, _⟩ | ⟨between, same, _⟩ := List.append_eq_append_iff.mp (split ▸ split')
  · by_cases newline : '\n' ∈ between
    · obtain ⟨front', part', _, same, starts', here', _, _⟩ := exists_line split'
      rw [same] at split' fits inside ⊢
      have positive := List.count_pos_iff.mpr newline
      have newlines : (front' ++ part').count '\n' =
          (front ++ part).count '\n' + between.count '\n' := by
        rw [← same, ← List.count_append]
      rw [place, (position_eq_iff starts' here' inside split').mpr fits]
      exact .left _ _ (by omega)
    · have here' : '\n' ∉ part ++ between :=
        fun among => (List.mem_append.mp among).elim here newline
      have longer : part.length + 1 < (part ++ between).length + 1 := by
        have some : between ≠ [] := by
          rintro rfl
          rw [List.append_nil] at earlier
          exact Nat.lt_irrefl _ earlier
        have := List.length_pos_of_ne_nil some
        rw [List.length_append]
        omega
      rw [List.append_assoc front] at split' fits inside ⊢
      rw [place, (position_eq_iff starts here' inside split').mpr fits, List.count_append,
        List.count_append, List.count_eq_zero.mpr here, List.count_eq_zero.mpr here']
      exact .right _ longer
  · have bytes := congrArg byteLength same
    rw [byteLength_append _ between] at bytes
    omega

/-- The lines of a source, put together, are the source. -/
theorem lines_ofSource (source : List Char) :
    ∃ lines, (List.range (ofSource source).count).mapM
        (fun i => (ofSource source).whole? source (i + 1)) = some lines ∧
      lines.flatten = source := by
  obtain ⟨lines, last, read, split, starts, newlines⟩ := exists_lines source (Nat.le_refl _)
  have here : '\n' ∉ last := by
    rw [split, List.count_append] at newlines
    exact List.count_eq_zero.mp (by omega)
  have whole := whole?_last starts here
  rw [← split, newlines] at whole
  refine ⟨lines ++ [last], ?_, ?_⟩
  · rw [count_ofSource]
    exact mapM_range_succ read whole
  · rw [List.flatten_append, List.flatten_singleton, ← split]

/-- What overflows is a whole source of the largest size. -/
theorem eq_of_overflows (small : byteLength source ≤ maxOffset) {before after : List Char}
    (split : source = before ++ after) (overflows : Overflows before) :
    before = source ∧ byteLength source = maxOffset ∧
      ((∀ c ∈ source, c = '\n') ∨ ∀ c ∈ source, c ≠ '\n' ∧ c.utf8Size = 1) := by
  have large : maxOffset ≤ byteLength before :=
    Nat.le_of_not_lt fun inside => not_overflows_of_lt inside overflows
  have size := congrArg byteLength split
  rw [byteLength_append] at size
  obtain rfl : after = [] := by
    by_contra more
    have := byteLength_pos more
    omega
  rw [List.append_nil] at split
  subst split
  have counted := List.count_le_length (a := '\n') (l := source)
  have bytes := length_le_byteLength source
  refine ⟨rfl, by omega, ?_⟩
  rcases overflows with newlines | ⟨length, free⟩
  · have all : source.count '\n' = source.length := by omega
    exact .inl fun c among => (List.count_eq_length.mp all c among).symm
  · have narrow := byteLength_eq_length_iff.mp (show byteLength source = source.length by omega)
    exact .inr fun c among => ⟨fun newline => free (newline ▸ among), narrow c among⟩

/-- Looking up lines and columns is exact: it counts newlines and characters, it can be undone, it
keeps the order of the source, and the lines make up the source. Only the place behind the largest
source of newlines, or the largest line of one-byte characters, has a number that does not fit. -/
theorem ofSource_exact (small : byteLength source ≤ maxOffset) :
    (ofSource source).Exact source where
  counts {before after} split := by
    obtain ⟨front, part, _, rfl, starts, here, start, _⟩ := exists_line split
    have inside := (byteLength_le_of_sublist (split ▸ List.sublist_append_left _ after)).trans small
    exact ⟨front, part, rfl, starts, here, start, position_eq_iff starts here inside split⟩
  inverts {before after} split fits := by
    obtain ⟨front, part, rest, rfl, starts, here, start, whole⟩ := exists_line split
    have inside := (byteLength_le_of_sublist (split ▸ List.sublist_append_left _ after)).trans small
    rw [(position_eq_iff starts here inside split).mpr fits]
    refine ⟨byteLength front, part ++ rest, start, whole, ?_⟩
    rw [Nat.add_sub_cancel, List.take_left, byteLength_append]
  increases := increases_ofSource small
  overflows := eq_of_overflows small
  bounded := position_le _ _
  beyond large := by
    rw [position, position, lineOf_beyond large, lineOf_beyond (Nat.le_refl _),
      Nat.min_eq_right large, Nat.min_self]
  lines := lines_ofSource source
  count := count_ofSource source
  starts start among := Nat.le_trans (le_of_mem_starts among) small

/-- A source with a wide character, an empty line and a line without an end. -/
theorem ofSource_exact_emptyLine :
    byteLength "é\n\nb".toList ≤ maxOffset ∧ (ofSource "é\n\nb".toList).Exact "é\n\nb".toList := by
  have small : byteLength "é\n\nb".toList ≤ maxOffset := by decide
  exact ⟨small, ofSource_exact small⟩

/-- The column behind the largest line of one-byte characters is zero. -/
theorem position_largest_line {c : Char} (narrow : c.utf8Size = 1) (other : c ≠ '\n') :
    (ofSource (List.replicate maxOffset c)).position (List.replicate maxOffset c) maxOffset =
      (1, 0) := by
  have size := byteLength_replicate_narrow narrow maxOffset
  have here : '\n' ∉ List.replicate maxOffset c := fun among =>
    other (List.eq_of_mem_replicate among).symm
  have split : List.replicate maxOffset c = [] ++ List.replicate maxOffset c ++ [] := by
    rw [List.nil_append, List.append_nil]
  have place := position_boundary .first here (by decide) split
  rwa [List.nil_append, size, List.length_replicate, ordinal_maxOffset] at place

/-- Behind the largest source that is a line of one letter, the column is zero, and not one more
than the number of letters. -/
theorem position_letters :
    byteLength (List.replicate maxOffset 'a') = maxOffset ∧
      (ofSource (List.replicate maxOffset 'a')).position (List.replicate maxOffset 'a') maxOffset =
        (1, 0) ∧
      (ofSource (List.replicate maxOffset 'a')).position (List.replicate maxOffset 'a') maxOffset ≠
        ((List.replicate maxOffset 'a').count '\n' + 1,
          (List.replicate maxOffset 'a').length + 1) := by
  have narrow : 'a'.utf8Size = 1 := rfl
  have place := position_largest_line narrow (by decide)
  refine ⟨byteLength_replicate_narrow narrow maxOffset, place, ?_⟩
  have later (line column : Nat) : (1, 0) ≠ (line, column + 1) := fun same =>
    Nat.succ_ne_zero column (congrArg Prod.snd same).symm
  rw [place]
  exact later _ _

end Exact

end LineTable

end CombinatorGrammar
