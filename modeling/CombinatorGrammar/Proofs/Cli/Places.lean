import CombinatorGrammar.Proofs.Cli.ExitStatus
import CombinatorGrammar.Proofs.Lkt.Accounting

/-!
# Where diagnostics point

Everything that is reported of a file points into it with one label: what the lexer reports at the
piece that it leaves out, and what the parser reports, or the fault that stops it, at a token or at
the end of the source. These are whole characters of the source. The report lists what it shows in
the order in which the labels start.
-/

namespace CombinatorGrammar

/-- The span is one of whole characters of the source. -/
structure Span.Within (source : String) (s : Span) : Prop where
  ordered : s.start ≤ s.stop
  inside : s.stop ≤ source.utf8ByteSize
  whole : ∃ text, Text.slice? source.toList s.start s.stop = some text

/-- The point at the end of a source is within it. -/
theorem Span.Within.ending (source : String) :
    (Span.point source.utf8ByteSize).Within source where
  ordered := Nat.le_refl _
  inside := Nat.le_refl _
  whole := by
    have last := Text.slice?_append source.toList [] []
    rw [List.append_nil, List.append_nil] at last
    rw [Span.point, Text.utf8ByteSize_eq]
    exact ⟨[], last⟩

/-- It has one label, which is primary, and that is at a place of the given kind. -/
def Diagnostic.PointsAt (places : Span → Prop) (d : Diagnostic) : Prop :=
  ∃ label, d.labels = [label] ∧ label.isPrimary = true ∧ places label.span

namespace Diagnostic

variable {places : Span → Prop} {tokens : TokenStream}

/-- What is raised about one place points at it. -/
theorem pointsAt_atSpan {span : Span} (here : places span) (code : Code) (message label : String)
    (notes : List String) : (atSpan code message span label notes).PointsAt places :=
  ⟨_, rfl, rfl, here⟩

/-- What is reported of a token points at the place of the token. -/
theorem OfToken.pointsAt {d : Diagnostic} (h : d.OfToken tokens)
    (here : ∀ position, places (tokens.token position).span) : d.PointsAt places := by
  cases h <;> exact pointsAt_atSpan (here _) ..

/-- The order of the source is that of the only labels. -/
theorem PointsAt.sortKey_eq {d : Diagnostic} {label : Label} (h : d.PointsAt places)
    (among : label ∈ d.labels) : DiagnosticQueue.sortKey d = label.span.start := by
  obtain ⟨only, labels, primary, _⟩ := h
  rw [labels, List.mem_singleton] at among
  rw [DiagnosticQueue.sortKey, primaryStart?, primarySpan?, labels, among,
    List.find?_cons_of_pos primary]
  rfl

end Diagnostic

namespace Lkt

open Text

variable {source : String}

/-- A piece ends as many bytes behind its start as its text has. -/
theorem stop_of_mem_place {offset : Nat} {ps : List Piece} {p : PlacedPiece}
    (among : p ∈ place offset ps) : p.span.stop = p.span.start + byteLength p.piece.text := by
  induction ps generalizing offset with
  | nil => cases among
  | cons first ps ih =>
    rcases List.mem_cons.mp among with rfl | later
    · rfl
    · exact ih later

/-- A piece of a source is within it. -/
theorem within_of_mem_place {p : PlacedPiece} (among : p ∈ place 0 (pieces source.toList)) :
    p.span.Within source := by
  have slice := slice?_of_mem_place [] among
  rw [List.nil_append, flatMap_text_pieces] at slice
  have ordered : p.span.start ≤ p.span.stop := stop_of_mem_place among ▸ Nat.le_add_right _ _
  refine ⟨ordered, ?_, _, slice⟩
  rw [utf8ByteSize_eq]
  exact stop_le_of_slice? ordered slice

/-- A token of a source is at the place of a piece. -/
theorem exists_placed_of_mem_tokens (names : Interner) (small : source.utf8ByteSize ≤ maxOffset)
    {t : Token} (among : t ∈ (lex names source).1.tokens.body) :
    ∃ p ∈ place 0 (pieces source.toList), p.span = t.span := by
  have placed : t.span ∈ (lex names source).1.tokens.body.toList.map Token.span :=
    List.mem_map_of_mem (Array.mem_toList_iff.mpr among)
  rw [spans_lex, words_eq small] at placed
  obtain ⟨word, made, same⟩ := List.mem_map.mp placed
  obtain ⟨p, listed, token⟩ := List.mem_filterMap.mp made
  obtain ⟨_, _, rfl⟩ := Option.map_eq_some_iff.mp token
  exact ⟨p, listed, same⟩

/-- A report of a piece that is not valid points at the piece. -/
theorem pointsAt_of_diagnostic? {places : Span → Prop} {p : PlacedPiece} {d : Diagnostic}
    (reported : diagnostic? p = some d) (here : p.piece.form.isReported = true → places p.span) :
    d.PointsAt places := by
  rw [diagnostic?.eq_def] at reported
  split at reported
  · next form =>
    obtain rfl := Option.some.inj reported
    exact Diagnostic.pointsAt_atSpan (here (by rw [form]; rfl)) ..
  · next form =>
    obtain rfl := Option.some.inj reported
    exact Diagnostic.pointsAt_atSpan (here (by rw [form]; rfl)) ..
  · cases reported

namespace FrontEnd

/-- The place of a token of the source, or that of a piece that is left out as not valid, or the
point at the end. -/
inductive Place (f : FrontEnd) (source : String) : Span → Prop
  | token {t : Token} : t ∈ (f.lex source).lexed.tokens.body → Place f source t.span
  | piece {p : PlacedPiece} : p ∈ place 0 (pieces source.toList) → p.piece.form.isReported = true →
      Place f source p.span
  | ending : Place f source (.point source.utf8ByteSize)

variable {f : FrontEnd}

/-- A place of a diagnostic is within the source. -/
theorem Place.within (small : source.utf8ByteSize ≤ maxOffset) {s : Span}
    (h : f.Place source s) : s.Within source := by
  cases h with
  | token among =>
    obtain ⟨p, placed, same⟩ := exists_placed_of_mem_tokens f.names small among
    exact same ▸ within_of_mem_place placed
  | piece among _ => exact within_of_mem_place among
  | ending => exact .ending source

/-- Wherever a parse is, the token there is one of the source or the end. -/
theorem place_token (f : FrontEnd) (small : source.utf8ByteSize ≤ maxOffset) (position : Nat) :
    f.Place source ((f.lex source).lexed.tokens.token position).span := by
  rw [TokenStream.token, Array.getD]
  split
  · exact .token (Array.getElem_mem _)
  · have last := (tokens_lex f.names source).2
    rw [extent, if_neg (Nat.not_lt.mpr small)] at last
    rw [show (f.lex source).lexed.tokens.last = .termination source.utf8ByteSize from last]
    exact .ending

/-- All that is found in a source points into it. -/
theorem pointsAt_of_mem_findings (small : source.utf8ByteSize ≤ maxOffset) {config : ParseConfig} :
    ∀ d ∈ f.findings config source, d.PointsAt (f.Place source) := by
  refine List.forall_mem_append.mpr ⟨fun d among => ?_, ?_⟩
  · have lexical := among
    rw [show (f.lex source).lexed.diagnostics = _ from diagnostics_lex f.names small] at lexical
    obtain ⟨p, placed, reported⟩ := List.mem_filterMap.mp lexical
    exact pointsAt_of_diagnostic? reported (.piece placed)
  · cases ran : f.parseLexed (f.lex source) config with
    | ok output =>
      exact fun d among => (Program.parse_ofToken ran d among).pointsAt (f.place_token small)
    | error fault =>
      exact List.forall_mem_singleton.mpr
        (Diagnostic.pointsAt_atSpan (f.place_token small fault.position) ..)

end FrontEnd

end Lkt

namespace Cli

open Lkt (FrontEnd)

variable {f : FrontEnd} {options : Options} {path source : String}

/-- What is shown of a file was found in it. -/
theorem mem_findings_of_shown {d : Diagnostic}
    (shown : d ∈ (check f options path source).diagnostics) :
    d ∈ f.findings options.config source := by
  rw [(check_eq f options path source).1, (DiagnosticQueue.flush_perm _).mem_iff] at shown
  exact (DiagnosticQueue.mem_addAll shown).resolve_left List.not_mem_nil

/-- Every diagnostic that is shown of a file has one label, which is primary and lies on whole
characters of the file: at a token, at a piece that is left out as not valid or at the end. They are
shown in the order in which their labels start. -/
theorem diagnostics_placed (f : FrontEnd) (options : Options) (path : String) {source : String}
    (small : source.utf8ByteSize ≤ maxOffset) :
    (∀ d ∈ (check f options path source).diagnostics, ∃ label, d.labels = [label] ∧
      label.isPrimary = true ∧ label.span.Within source ∧ f.Place source label.span) ∧
    (check f options path source).diagnostics.Pairwise fun d e =>
      ∀ l ∈ d.labels, ∀ m ∈ e.labels, l.span.start ≤ m.span.start := by
  have placed : ∀ d ∈ (check f options path source).diagnostics, d.PointsAt (f.Place source) :=
    fun d shown => FrontEnd.pointsAt_of_mem_findings small d (mem_findings_of_shown shown)
  refine ⟨fun d shown => ?_, ?_⟩
  · obtain ⟨label, labels, primary, here⟩ := placed d shown
    exact ⟨label, labels, primary, here.within small, here⟩
  · have ordered : (check f options path source).diagnostics.Pairwise fun d e =>
        DiagnosticQueue.sortKey d ≤ DiagnosticQueue.sortKey e := by
      rw [(check_eq f options path source).1]
      exact DiagnosticQueue.pairwise_flush _
    refine ordered.imp_of_mem fun first second before l among m among' => ?_
    rw [← (placed _ first).sortKey_eq among, ← (placed _ second).sortKey_eq among']
    exact before

/-- What is shown of a source with a stray character and a string that does not end lies on whole
characters of it. -/
theorem diagnostics_placed_open_string :
    ∃ f, Lkt.frontEnd = .ok f ∧ "a $ \"b".utf8ByteSize ≤ maxOffset ∧
      let shown := (check f ⟨["a.lkt"], .standard, 0, false, .auto⟩ "a.lkt" "a $ \"b").diagnostics
      (∀ d ∈ shown, ∃ label, d.labels = [label] ∧ label.isPrimary = true ∧
        label.span.Within "a $ \"b" ∧ f.Place "a $ \"b" label.span) ∧
      shown.Pairwise fun d e =>
        ∀ l ∈ d.labels, ∀ m ∈ e.labels, l.span.start ≤ m.span.start := by
  obtain ⟨f, made, -⟩ := Lkt.exists_charted
  have small : "a $ \"b".utf8ByteSize ≤ maxOffset := by decide
  exact ⟨f, made, small, diagnostics_placed f _ _ small⟩

end Cli

end CombinatorGrammar
