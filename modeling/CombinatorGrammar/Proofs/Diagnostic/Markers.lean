import CombinatorGrammar.Diagnostic.Excerpt
import CombinatorGrammar.Proofs.Text.Lines

/-!
# Markers below a label

The row of markers below a line is indented by characters, but there are as many markers as the
label has bytes. They stand below the labelled characters, and below nothing else, exactly when
each of these is a single byte.
-/

namespace CombinatorGrammar

open Text

namespace LineTable

/-- A line that has a start begins behind the newlines of the lines before it. -/
theorem exists_lineStart_of_start? {source : List Char} {line start : Nat}
    (h : (ofSource source).start? line = some start) :
    ∃ front cs, source = front ++ cs ∧ LineStart front ∧ line = front.count '\n' + 1 ∧
      start = byteLength front := by
  have positive : line ≠ 0 := by
    rintro rfl
    cases h
  have counted : line - 1 ≤ source.count '\n' := by
    by_contra beyond
    rw [start?_eq_none (by omega)] at h
    cases h
  obtain ⟨lines, cs, -, split, starts, newlines⟩ := exists_lines source counted
  have number : line = lines.flatten.count '\n' + 1 := by omega
  have found := start?_of_lineStart starts cs
  rw [← split, ← number, h] at found
  exact ⟨lines.flatten, cs, split, starts, number, Option.some.inj found⟩

/-- The text of a line that starts below the largest offset is the whole line without what ends it.
The line behind the largest number is not found, but it is empty and starts at the end of the
source. -/
theorem text?_eq {source : List Char} {line start : Nat} (small : byteLength source ≤ maxOffset)
    (begins : (ofSource source).start? line = some start) (early : start < maxOffset) :
    (ofSource source).text? source line =
      ((ofSource source).whole? source line).map
        fun text => (text.reverse.dropWhile endsLine).reverse := by
  have next : ((ofSource source).start? (wrappingSucc line)).getD (byteLength source) =
      ((ofSource source).start? (line + 1)).getD (byteLength source) := by
    obtain ⟨front, cs, -, -, number, rfl⟩ := exists_lineStart_of_start? begins
    have counted := List.count_le_length (a := '\n') (l := front)
    have bytes := length_le_byteLength front
    rcases Nat.lt_or_ge line maxOffset with inside | last
    · rw [wrappingSucc_of_lt inside]
    · obtain rfl : line = maxOffset := by omega
      have wrapped : wrappingSucc maxOffset = 0 := Nat.mod_self _
      rw [wrapped]
      cases found : (ofSource source).start? (maxOffset + 1) with
      | none => rfl
      | some stop =>
        obtain ⟨front', cs', rfl, -, number', rfl⟩ := exists_lineStart_of_start? found
        have counted' := List.count_le_length (a := '\n') (l := front')
        have bytes' := length_le_byteLength front'
        rw [byteLength_append] at small ⊢
        change byteLength front' + byteLength cs' = byteLength front'
        omega
  rw [text?, whole?, begins, next]
  exact Option.map_eq_bind.symm

/-- What ends a line is left out of its text, and the rest has no newline. -/
theorem exists_prefix_of_trimmed {line ending : List Char} (here : '\n' ∉ line)
    (ends : ∀ c ∈ ending, endsLine c = true) :
    ∃ more, line ++ ending = ((line ++ ending).reverse.dropWhile endsLine).reverse ++ more ∧
      '\n' ∉ ((line ++ ending).reverse.dropWhile endsLine).reverse := by
  have dropped : (line ++ ending).reverse.dropWhile endsLine = line.reverse.dropWhile endsLine := by
    rw [List.reverse_append, List.dropWhile_append_of_pos]
    exact fun c among => ends c (List.mem_reverse.mp among)
  have initial : (line.reverse.dropWhile endsLine).reverse <+: line := by
    have suffix := List.reverse_prefix.mpr (List.dropWhile_suffix endsLine (l := line.reverse))
    rwa [List.reverse_reverse] at suffix
  obtain ⟨more, same⟩ := initial
  refine ⟨more ++ ending, ?_, ?_⟩
  · rw [dropped, ← List.append_assoc, same]
  · rw [dropped]
    intro among
    exact here (same ▸ List.mem_append_left more among)

/-- The text of a line is part of the source at the start of the line, and has no newline. -/
theorem exists_of_text? {source text : List Char} {line start : Nat}
    (small : byteLength source ≤ maxOffset) (early : start < maxOffset)
    (begins : (ofSource source).start? line = some start)
    (h : (ofSource source).text? source line = some text) :
    ∃ front after, source = front ++ text ++ after ∧ LineStart front ∧ '\n' ∉ text ∧
      line = front.count '\n' + 1 ∧ start = byteLength front := by
  rw [text?_eq small begins early] at h
  obtain ⟨front, cs, rfl, starts, rfl, start⟩ := exists_lineStart_of_start? begins
  by_cases ended : '\n' ∈ cs
  · obtain ⟨l, rest, rfl, here⟩ := List.eq_append_cons_of_mem ended
    have newline : ∀ c ∈ ['\n'], endsLine c = true := by simp [endsLine]
    obtain ⟨more, whole, free⟩ := exists_prefix_of_trimmed here newline
    have read := whole?_ended starts here rest
    rw [List.append_assoc l, List.singleton_append] at read
    rw [read] at h
    obtain rfl := Option.some.inj h
    refine ⟨front, more ++ rest, ?_, starts, free, rfl, start⟩
    rw [List.append_assoc, ← List.append_assoc _ more, ← whole, List.append_assoc l,
      List.singleton_append]
  · obtain ⟨more, whole, free⟩ :=
      exists_prefix_of_trimmed ended (List.forall_mem_nil fun c => endsLine c = true)
    rw [whole?_last starts ended] at h
    obtain rfl := Option.some.inj h
    rw [List.append_nil] at whole free
    exact ⟨front, more, by rw [List.append_assoc, ← whole], starts, free, rfl, start⟩

end LineTable

/-- The label is about some characters of the text of a line. -/
structure Label.Marks (l : Label) (source : List Char) (line : Nat)
    (before labelled after : List Char) : Prop where
  text : (LineTable.ofSource source).text? source line = some (before ++ labelled ++ after)
  place : ∃ start, (LineTable.ofSource source).start? line = some start ∧
    l.span = ⟨start + byteLength before, start + byteLength before + byteLength labelled⟩

namespace Excerpt

/-- A repeated character as the list of its copies. -/
theorem repeated_eq (n : Nat) (c : Char) : repeated n c = String.ofList (List.replicate n c) := by
  rw [← String.toList_inj, repeated, toList_pushn, String.toList_ofList, String.toList_ofList,
    List.nil_append]

/-- The row of markers: behind the gutter, as many spaces as there are characters before the label,
and then the markers with the message of the label. -/
def markerRow (colors : Bool) (severity : Severity) (l : Label) (line indent width : Nat) :
    String :=
  let pad := String.ofList (List.replicate (toString line).length ' ')
  let markers := String.ofList (List.replicate width (if l.isPrimary then '^' else '-'))
  let part : Part := if l.isPrimary then .severity severity else .secondaryLabel
  s!"{pad} | " ++ String.ofList (List.replicate indent ' ') ++
    paint colors part s!"{markers} {l.message}" ++ "\n"

/-- The rows above the markers: the place, an empty row and the line itself. -/
def lineRows (path : String) (l : Label) (line column : Nat) (text : List Char) : String :=
  let arrow := if l.isPrimary then "-->" else ":::"
  let pad := String.ofList (List.replicate (toString line).length ' ')
  s!"  {arrow} {path}:{line}:{column}\n" ++ s!"{pad} |\n" ++
    s!"{toString line} | {String.ofList text}\n"

section Markers

variable {l : Label} {source : List Char} {line : Nat} {before labelled after : List Char}

/-- The place of the label, counted in characters. -/
theorem position_of_marks (small : byteLength source ≤ maxOffset) (early : l.span.start < maxOffset)
    (h : l.Marks source line before labelled after) :
    (LineTable.ofSource source).position source l.span.start = (line, before.length + 1) := by
  obtain ⟨start, begins, place⟩ := h.place
  rw [place] at early
  have early' : start + byteLength before < maxOffset := early
  obtain ⟨front, rest, split, starts, free, rfl, rfl⟩ :=
    LineTable.exists_of_text? small ((Nat.le_add_right ..).trans_lt early') begins h.text
  have here : '\n' ∉ before := fun among =>
    free (List.mem_append_left after (List.mem_append_left labelled among))
  rw [place, ← byteLength_append]
  rw [← byteLength_append] at early'
  have behind : source = front ++ before ++ (labelled ++ after ++ rest) := by
    rw [split]
    simp only [List.append_assoc]
  have exact := (LineTable.position_eq_iff starts here early'.le behind).mpr
    (LineTable.not_overflows_of_lt early')
  rwa [List.count_append, List.count_eq_zero.mpr here, Nat.add_zero] at exact

/-- A label is shown as its place, its line and a row of markers. The markers are indented by the
characters before the label, and there are as many as the label has bytes. -/
theorem label_eq (colors : Bool) (path : String) (severity : Severity)
    (small : byteLength source ≤ maxOffset) (early : l.span.start < maxOffset)
    (h : l.Marks source line before labelled after) :
    label colors (.ofText path (String.ofList source)) severity l =
      lineRows path l line (before.length + 1) (before ++ labelled ++ after) ++
        markerRow colors severity l line before.length (max (byteLength labelled) 1) := by
  have width : l.span.length = byteLength labelled := by
    obtain ⟨_, _, place⟩ := h.place
    rw [place, Span.length, Nat.add_sub_cancel_left]
  have file : SourceFile.ofText path (String.ofList source) =
      ⟨path, source, LineTable.ofSource source⟩ := by
    rw [SourceFile.ofText, String.toList_ofList]
  rw [file]
  unfold label
  simp only [position_of_marks small early h, h.text, Option.getD_some, width, repeated_eq,
    Nat.add_sub_cancel]
  unfold lineRows markerRow
  simp only [String.append_assoc]

/-- Colors add the same number of characters to every text. -/
theorem length_paint (colors : Bool) (part : Part) (text : String) :
    (paint colors part text).length = text.length + (paint colors part "").length := by
  cases colors with
  | false => rfl
  | true =>
    simp only [paint, if_true, String.length_append, String.length_empty]
    omega

/-- Rows with a different number of markers are different. -/
theorem markerRow_inj {colors : Bool} {severity : Severity} {indent width width' : Nat}
    (h : markerRow colors severity l line indent width =
      markerRow colors severity l line indent width') : width = width' := by
  have lengths := congrArg String.length h
  have written (s : String) : toString s = s := rfl
  unfold markerRow at lengths
  simp only [String.length_append, length_paint _ _ (_ ++ _), written, String.length_ofList,
    List.length_replicate] at lengths
  omega

/-- There are as many bytes as characters only if each character is one byte. -/
theorem max_byteLength_eq_iff :
    max (byteLength labelled) 1 = max labelled.length 1 ↔ ∀ c ∈ labelled, c.utf8Size = 1 := by
  have atLeast := length_le_byteLength labelled
  rw [← byteLength_eq_length_iff]
  cases labelled with
  | nil => simp [byteLength]
  | cons c cs =>
    rw [List.length_cons] at atLeast ⊢
    omega

/-- The row of markers is indented so that the first of them stands below the first labelled
character, and there is one for each labelled byte. They stand below exactly the labelled characters
(one below the place of an empty label) if and only if each of these is a single byte. -/
theorem label_markers (colors : Bool) (path : String) (severity : Severity)
    (small : byteLength source ≤ maxOffset) (early : l.span.start < maxOffset)
    (h : l.Marks source line before labelled after) :
    label colors (.ofText path (String.ofList source)) severity l =
      lineRows path l line (before.length + 1) (before ++ labelled ++ after) ++
        markerRow colors severity l line before.length (max (byteLength labelled) 1) ∧
    (label colors (.ofText path (String.ofList source)) severity l =
      lineRows path l line (before.length + 1) (before ++ labelled ++ after) ++
        markerRow colors severity l line before.length (max labelled.length 1) ↔
      ∀ c ∈ labelled, c.utf8Size = 1) := by
  have shown := label_eq colors path severity small early h
  refine ⟨shown, ?_⟩
  rw [shown, ← max_byteLength_eq_iff, String.append_right_inj]
  constructor
  · exact markerRow_inj
  · intro same
    rw [same]

/-- A label behind a wide character, at the end of a line. -/
theorem label_markers_behindWide :
    byteLength "éab\r\nc".toList ≤ maxOffset ∧ 2 < maxOffset ∧
    Label.Marks ⟨⟨2, 4⟩, "l", true⟩ "éab\r\nc".toList 1 ['é'] ['a', 'b'] [] ∧
    label false (.ofText "p" (String.ofList "éab\r\nc".toList)) .error ⟨⟨2, 4⟩, "l", true⟩ =
      lineRows "p" ⟨⟨2, 4⟩, "l", true⟩ 1 2 ['é', 'a', 'b'] ++
        markerRow false .error ⟨⟨2, 4⟩, "l", true⟩ 1 1 2 := by
  have marks : Label.Marks ⟨⟨2, 4⟩, "l", true⟩ "éab\r\nc".toList 1 ['é'] ['a', 'b'] [] :=
    ⟨by decide, 0, by decide, by decide⟩
  have small : byteLength "éab\r\nc".toList ≤ maxOffset := by decide
  have early : 2 < maxOffset := by decide
  exact ⟨small, early, marks, (label_markers false "p" .error small early marks).1⟩

/-- A wide character has two markers, and the second does not stand below it. -/
theorem label_wide :
    Label.Marks ⟨⟨0, 2⟩, "l", true⟩ ['é'] 1 [] ['é'] [] ∧
    label false (.ofText "a" "é") .error ⟨⟨0, 2⟩, "l", true⟩ =
      "  --> a:1:1\n  |\n1 | é\n  | ^^ l\n" ∧
    label false (.ofText "a" "é") .error ⟨⟨0, 2⟩, "l", true⟩ ≠
      lineRows "a" ⟨⟨0, 2⟩, "l", true⟩ 1 1 ['é'] ++
        markerRow false .error ⟨⟨0, 2⟩, "l", true⟩ 1 0 (max ['é'].length 1) := by
  refine ⟨⟨by decide, 0, by decide, by decide⟩, ?_, ?_⟩
  · decide +kernel
  · decide +kernel

end Markers

end Excerpt

end CombinatorGrammar
