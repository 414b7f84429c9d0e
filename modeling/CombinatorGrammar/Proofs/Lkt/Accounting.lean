import CombinatorGrammar.Proofs.Lkt.Patterns
import CombinatorGrammar.Proofs.Lkt.Reading
import CombinatorGrammar.Proofs.Text.Bytes
import CombinatorGrammar.Proofs.Token.Vocabulary

/-!
# Accounting for a source

Lexing accounts for a source: the places of the tokens and of the reports, one after the other,
leave out blanks and comments only. A token has the text at its place, and a report has the place of
what is not valid.
-/

namespace CombinatorGrammar

namespace Lkt

open Text

/-- Blanks and comments in front of the rest of a source. A comment goes up to the end of its line,
and no second number sign follows its first. -/
inductive IsTrivia : List Char → List Char → Prop where
  | nil {rest : List Char} : IsTrivia [] rest
  | blank {c : Char} {gap rest : List Char} (here : isBlank c) (more : IsTrivia gap rest) :
      IsTrivia (c :: gap) rest
  | comment {body gap rest : List Char} (single : body.head? ≠ some '#')
      (line : ∀ c ∈ body, c ≠ '\n') (ends : ∀ c, (gap ++ rest).head? = some c → c = '\n')
      (more : IsTrivia gap rest) : IsTrivia ('#' :: (body ++ gap)) rest

/-- Beginning at an offset, the spans are the places of texts in the characters, and there is
nothing but blanks and comments before, between and behind them. -/
inductive Covers : Nat → List Char → List Span → Prop where
  | nil {offset : Nat} {gap : List Char} (trivia : IsTrivia gap []) : Covers offset gap []
  | cons {offset start stop : Nat} {gap text rest : List Char} {spans : List Span}
      (trivia : IsTrivia gap (text ++ rest)) (content : text ≠ [])
      (starts : start = offset + byteLength gap) (stops : stop = start + byteLength text)
      (more : Covers stop rest spans) :
      Covers offset (gap ++ (text ++ rest)) (⟨start, stop⟩ :: spans)

namespace Covers

variable {offset : Nat} {cs : List Char} {spans : List Span}

/-- Nothing that is covered starts before the offset. -/
theorem offset_le (h : Covers offset cs spans) {s : Span} (among : s ∈ spans) :
    offset ≤ s.start := by
  induction h with
  | nil => cases among
  | cons _ _ starts stops _ ih =>
    rcases List.mem_cons.mp among with rfl | later
    · exact starts ▸ Nat.le_add_right _ _
    · have := ih later
      omega

/-- Spans that cover something are disjoint and in order. -/
theorem pairwise (h : Covers offset cs spans) : spans.Pairwise fun s t => s.stop ≤ t.start := by
  induction h with
  | nil => exact .nil
  | cons _ _ _ _ more ih => exact .cons (fun _ later => more.offset_le later) ih

/-- No span of a covering is empty. -/
theorem start_lt_stop (h : Covers offset cs spans) {s : Span} (among : s ∈ spans) :
    s.start < s.stop := by
  induction h with
  | nil => cases among
  | cons _ content _ stops _ ih =>
    rcases List.mem_cons.mp among with rfl | later
    · exact stops ▸ Nat.lt_add_of_pos_right (byteLength_pos content)
    · exact ih later

/-- Spans that cover something begin and end with whole characters. -/
theorem exists_slice {before : List Char} (h : Covers (byteLength before) cs spans) {s : Span}
    (among : s ∈ spans) : ∃ text, slice? (before ++ cs) s.start s.stop = some text := by
  generalize atOffset : byteLength before = offset at h
  induction h generalizing before with
  | nil => cases among
  | @cons offset start stop gap text rest spans _ _ starts stops _ ih =>
    have startsAt : start = byteLength (before ++ gap) := by
      rw [byteLength_append, atOffset, starts]
    rcases List.mem_cons.mp among with rfl | later
    · refine ⟨text, ?_⟩
      rw [stops, startsAt, ← List.append_assoc]
      exact slice?_append (before ++ gap) text rest
    · have whole : before ++ (gap ++ (text ++ rest)) = before ++ gap ++ text ++ rest := by
        simp only [List.append_assoc]
      rw [whole]
      refine ih later ?_
      rw [byteLength_append, ← startsAt, stops]

/-- Blanks in front belong to the first gap. -/
theorem blanks {text : List Char} (blank : ∀ c ∈ text, isBlank c)
    (h : Covers (offset + byteLength text) cs spans) : Covers offset (text ++ cs) spans := by
  have trivia {gap rest : List Char} (more : IsTrivia gap rest) : IsTrivia (text ++ gap) rest := by
    clear h
    induction text with
    | nil => exact more
    | cons c text ih =>
      obtain ⟨here, others⟩ := List.forall_mem_cons.mp blank
      exact .blank here (ih others)
  cases h with
  | nil more => exact .nil (trivia more)
  | cons more content starts stops rest =>
    rw [← List.append_assoc]
    refine .cons (trivia more) content ?_ stops rest
    rw [byteLength_append, starts, Nat.add_assoc]

/-- A comment in front belongs to the first gap. -/
theorem comment {body : List Char} (single : body.head? ≠ some '#') (line : ∀ c ∈ body, c ≠ '\n')
    (ends : ∀ c, cs.head? = some c → c = '\n')
    (h : Covers (offset + byteLength ('#' :: body)) cs spans) :
    Covers offset ('#' :: body ++ cs) spans := by
  cases h with
  | nil more =>
    rw [List.cons_append]
    exact .nil (.comment single line (by rwa [List.append_nil]) more)
  | @cons _ _ _ gap _ _ _ more content starts stops rest =>
    rw [← List.append_assoc]
    refine .cons (.comment single line ends more) content ?_ stops rest
    rw [byteLength_append, starts, Nat.add_assoc]

end Covers

/-- Whether pieces of a form are left out without a report. -/
def Form.isTrivia : Form → Bool
  | .blank | .comment => true
  | _ => false

/-- Whether pieces of a form are reported. -/
def Form.isReported : Form → Bool
  | .unterminated | .invalid => true
  | _ => false

section Piece

variable {text rest : List Char}

/-- A piece of blanks has blanks only. -/
theorem isBlank_of_longest (size : text.length = max 1 (longest (text ++ rest)).2)
    (h : (longest (text ++ rest)).1 = .blank) : ∀ c ∈ text, isBlank c := by
  have among : text ∈ Lkt.blanks :=
    mem_of_longest size h nofun fun _ listed => by simpa [patterns] using listed
  obtain ⟨c, first, inner, others, rfl⟩ := mem_oneOf_mul.mp among
  exact List.forall_mem_cons.mpr ⟨first, mem_kstar_oneOf.mp others⟩

/-- A piece that is a comment goes up to the end of its line. -/
theorem comment_of_longest (size : text.length = max 1 (longest (text ++ rest)).2)
    (h : (longest (text ++ rest)).1 = .comment) :
    ∃ body, text = '#' :: body ∧ body.head? ≠ some '#' ∧ (∀ c ∈ body, c ≠ '\n') ∧
      ∀ c, rest.head? = some c → c = '\n' := by
  have among : text ∈ comments :=
    mem_of_longest size h nofun fun _ listed => by simpa [patterns] using listed
  obtain ⟨body, rfl, single, line⟩ := mem_comments.mp among
  refine ⟨body, rfl, single, fun c inside => bne_iff_ne.mp (line c inside), fun c next => ?_⟩
  by_contra other
  -- a character of the same line would make a longer match
  obtain ⟨rest, rfl⟩ := List.head?_eq_some_iff.mp next
  have start : '#' :: body ++ [c] <+: '#' :: body ++ c :: rest :=
    (List.prefix_append_right_inj _).mpr (List.prefix_append [c] rest)
  have longer : (longest ('#' :: body ++ c :: rest)).2 < ('#' :: body ++ [c]).length := by
    rw [← length_eq_longest size (h ▸ nofun), List.length_append]
    exact Nat.lt_succ_self _
  have extended : ∀ d ∈ body ++ [c], inComment d := List.forall_mem_append.mpr
    ⟨line, List.forall_mem_singleton.mpr (bne_iff_ne.mpr other)⟩
  by_cases double : (body ++ [c]).head? = some '#'
  · cases body with
    | cons d body => exact single double
    | nil =>
      obtain rfl := Option.some.inj double
      have among' : ['#', '#'] ∈ docComments :=
        mem_exactly_mul.mpr ⟨[], Language.nil_mem_kstar _, rfl⟩
      exact longer.not_ge <|
        length_le_longest (p := (.docComment, docComments)) (by simp [patterns]) among' start
  · have among' : '#' :: body ++ [c] ∈ comments := mem_comments.mpr ⟨_, rfl, double, extended⟩
    exact longer.not_ge <|
      length_le_longest (p := (.comment, comments)) (by simp [patterns]) among' start

end Piece

/-- The places of what is neither blank nor a comment cover the source. -/
theorem Cut.covers {cs : List Char} {ps : List Piece} (h : Cut cs ps) (offset : Nat) :
    Covers offset cs
      (((place offset ps).filter fun p => !p.piece.form.isTrivia).map PlacedPiece.span) := by
  induction h generalizing offset with
  | nil => exact .nil .nil
  | @cons text rest ps size _ ih =>
    have later := ih (offset + byteLength text)
    rw [place, List.filter_cons]
    split
    · have nothing : IsTrivia [] (text ++ rest) := .nil
      exact .cons nothing (ne_nil_of_size size) rfl rfl later
    · next trivia =>
      cases form : (longest (text ++ rest)).1 with
      | blank => exact .blanks (isBlank_of_longest size form) later
      | comment =>
        obtain ⟨body, rfl, single, line, ends⟩ := comment_of_longest size form
        exact .comment single line ends later
      | _ => exact absurd (by rw [form]; rfl) trivia

/-- Pieces placed one after the other are at the places of their texts in the whole. -/
theorem slice?_of_mem_place {ps : List Piece} {p : PlacedPiece} (before : List Char)
    (among : p ∈ place (byteLength before) ps) :
    slice? (before ++ ps.flatMap Piece.text) p.span.start p.span.stop = some p.piece.text := by
  induction ps generalizing before with
  | nil => cases among
  | cons first ps ih =>
    rw [List.flatMap_cons]
    rcases List.mem_cons.mp among with rfl | later
    · exact slice?_append before first.text _
    · rw [← byteLength_append] at later
      rw [← List.append_assoc]
      exact ih (before ++ first.text) later

/-- The places of pieces start behind the offset. -/
theorem start_le_of_mem_place {offset : Nat} {ps : List Piece} {p : PlacedPiece}
    (among : p ∈ place offset ps) : offset ≤ p.span.start := by
  induction ps generalizing offset with
  | nil => cases among
  | cons first ps ih =>
    rcases List.mem_cons.mp among with rfl | later
    · exact Nat.le_refl offset
    · exact (Nat.le_add_right _ _).trans (ih later)

/-- The places of pieces follow each other. -/
theorem pairwise_place (offset : Nat) (ps : List Piece) :
    (place offset ps).Pairwise fun p q => p.span.stop ≤ q.span.start := by
  induction ps generalizing offset with
  | nil => exact .nil
  | cons first ps ih => exact .cons (fun _ later => start_le_of_mem_place later) (ih _)

/-- A piece of a source has the text of its form. -/
def Piece.WellFormed (p : Piece) : Prop :=
  p.form ≠ .invalid → ∃ l, (p.form, l) ∈ patterns ∧ p.text ∈ l

/-- Pieces that a source is cut into are well formed. -/
theorem Cut.wellFormed {cs : List Char} {ps : List Piece} (h : Cut cs ps) :
    ∀ p ∈ ps, p.WellFormed := by
  induction h with
  | nil => exact nofun
  | cons size _ ih =>
    refine List.forall_mem_cons.mpr ⟨fun valid => ?_, ih⟩
    obtain ⟨l, listed, among⟩ := exists_pattern_of_longest (longest_pos valid)
    rw [← length_eq_longest size valid, List.take_left] at among
    exact ⟨l, listed, among⟩

/-- Every fixed text belongs to a kind. -/
theorem isSome_literalKind? : ∀ kind ∈ fixedKinds, (vocabulary.literalKind? kind.2).isSome := by
  decide +kernel

/-- The other kinds have names but no fixed texts. -/
theorem exists_kind_of_mem_openKinds {name : String} (h : name ∈ openKinds) :
    ∃ kind, vocabulary.kind? name = some kind ∧ vocabulary.literal? kind = none := by
  have all : ∀ name ∈ openKinds, (vocabulary.kind? name).any fun kind =>
      (vocabulary.literal? kind).isNone := by decide +kernel
  obtain ⟨named, open_⟩ := Option.any_eq_true_iff_get _ _ |>.mp (all name h)
  exact ⟨_, (Option.some_get named).symm, Option.isNone_iff_eq_none.mp open_⟩

section Kinds

variable {p : Piece}

/-- A piece that is neither left out nor reported is a token. -/
theorem exists_kind (h : p.WellFormed) (content : p.form.isTrivia = false)
    (valid : p.form.isReported = false) : ∃ kind, kind? p = some kind := by
  obtain ⟨form, text⟩ := p
  have named {name : String} (listed : name ∈ openKinds) :
      ∃ kind, vocabulary.kind? name = some kind :=
    (exists_kind_of_mem_openKinds listed).imp fun _ => And.left
  cases form with
  | fixed =>
    obtain ⟨l, listed, among⟩ := h nofun
    obtain ⟨name, word, known, rfl⟩ :
        ∃ name word, (name, word) ∈ fixedKinds ∧ exactly word.toList = l := by
      simpa [patterns] using listed
    obtain rfl : text = word.toList := among
    rw [kind?, String.ofList_toList]
    exact Option.isSome_iff_exists.mp (isSome_literalKind? (name, word) known)
  | identifier => exact named (by decide)
  | string => exact named (by decide)
  | number => exact named (by decide)
  | docComment => exact named (by decide)
  | blank => cases content
  | comment => cases content
  | unterminated => cases valid
  | invalid => cases valid

/-- A token of a kind with a fixed text has that text. -/
theorem text_of_literal? {kind : TokenKind} {word : String} (h : kind? p = some kind)
    (fixed : vocabulary.literal? kind = some word) : String.ofList p.text = word := by
  have never {name : String} (listed : name ∈ openKinds)
      (named : vocabulary.kind? name = some kind) : False := by
    obtain ⟨other, named', none⟩ := exists_kind_of_mem_openKinds listed
    rw [named] at named'
    rw [← Option.some.inj named', fixed] at none
    cases none
  rw [kind?] at h
  split at h
  · exact Option.some.inj ((Vocabulary.literal?_of_literalKind? h).symm.trans fixed)
  · exact (never (by decide) h).elim
  · exact (never (by decide) h).elim
  · exact (never (by decide) h).elim
  · exact (never (by decide) h).elim
  · cases h

end Kinds

/-- A piece is reported at its place, as a character or as a string. -/
theorem diagnostic?_cases (p : PlacedPiece) :
    (p.piece.form.isReported = false ∧ diagnostic? p = none) ∨
      p.piece.form.isReported = true ∧ ∃ d, diagnostic? p = some d ∧ d.primarySpan? = some p.span ∧
        (d.code = .invalidCharacter ∨ d.code = .unterminatedString) := by
  rw [diagnostic?.eq_def]
  cases p.piece.form with
  | unterminated => exact .inr ⟨rfl, _, rfl, rfl, .inr rfl⟩
  | invalid => exact .inr ⟨rfl, _, rfl, rfl, .inl rfl⟩
  | _ => exact .inl ⟨rfl, rfl⟩

/-- The places of the pieces that are reported. -/
def reportedSpans (placed : List PlacedPiece) : List Span :=
  (placed.filter fun p => p.piece.form.isReported).map PlacedPiece.span

/-- Each piece that is reported has its report. -/
theorem map_primarySpan? (placed : List PlacedPiece) :
    (placed.filterMap diagnostic?).map Diagnostic.primarySpan? =
      (reportedSpans placed).map some := by
  induction placed with
  | nil => rfl
  | cons p placed ih =>
    rcases diagnostic?_cases p with ⟨silent, none⟩ | ⟨reported, d, some, place, _⟩
    · rw [List.filterMap_cons_none none, ih, reportedSpans, reportedSpans,
        List.filter_cons_of_neg (by rw [silent]; exact Bool.false_ne_true)]
    · rw [List.filterMap_cons_some some, List.map_cons, place, ih, reportedSpans, reportedSpans,
        List.filter_cons_of_pos (by exact reported), List.map_cons, List.map_cons]

/-- A piece is left out, is a token or is reported. -/
theorem token?_cases {p : PlacedPiece} (h : p.piece.WellFormed) :
    (p.piece.form.isTrivia = true ∧ p.piece.form.isReported = false ∧ token? p = none) ∨
      (p.piece.form.isTrivia = false ∧ p.piece.form.isReported = false ∧
        ∃ kind, token? p = some (kind, String.ofList p.piece.text, p.span)) ∨
      p.piece.form.isTrivia = false ∧ p.piece.form.isReported = true ∧ token? p = none := by
  have token (content : p.piece.form.isTrivia = false) (valid : p.piece.form.isReported = false) :
      ∃ kind, token? p = some (kind, String.ofList p.piece.text, p.span) :=
    (exists_kind h content valid).imp fun kind found => by rw [token?, found]; rfl
  rw [token?, kind?.eq_def] at token ⊢
  cases form : p.piece.form with
  | blank | comment => exact .inl ⟨rfl, rfl, rfl⟩
  | unterminated | invalid => exact .inr (.inr ⟨rfl, rfl, rfl⟩)
  | _ =>
    rw [form] at token
    exact .inr (.inl ⟨rfl, rfl, token rfl rfl⟩)

/-- What is neither blank nor a comment is a token or is reported. -/
theorem perm_spans {placed : List PlacedPiece} (formed : ∀ p ∈ placed, p.piece.WellFormed) :
    ((placed.filter fun p => !p.piece.form.isTrivia).map PlacedPiece.span).Perm
      ((placed.filterMap token?).map (fun word => word.2.2) ++ reportedSpans placed) := by
  induction placed with
  | nil => exact .nil
  | cons p placed ih =>
    obtain ⟨first, others⟩ := List.forall_mem_cons.mp formed
    have rest := ih others
    rw [reportedSpans] at rest ⊢
    rcases token?_cases first with ⟨trivia, silent, none⟩ | ⟨content, silent, kind, some⟩ |
      ⟨content, reported, none⟩
    · simp only [List.filter_cons, List.filterMap_cons, trivia, silent, none]
      exact rest
    · simp only [List.filter_cons, List.filterMap_cons, content, silent, some]
      exact rest.cons p.span
    · simp only [List.filter_cons, List.filterMap_cons, content, reported, none]
      exact (rest.cons p.span).trans List.perm_middle.symm

/-- The tokens and the reports account for a source: their places are `spans` when they are merged,
those of the reports alone are `reported`. -/
structure Lexed.Accounts (lexed : Lexed) (names : Interner) (source : String)
    (spans reported : List Span) : Prop where
  /-- Each report is about a place. -/
  reports : lexed.diagnostics.map Diagnostic.primarySpan? = reported.map some
  /-- Only stray characters and strings that do not end are reported. -/
  codes : ∀ d ∈ lexed.diagnostics, d.code = .invalidCharacter ∨ d.code = .unterminatedString
  /-- No place is dropped or counted twice. -/
  merged : spans.Perm (lexed.tokens.body.toList.map Token.span ++ reported)
  /-- Only blanks and comments are left out. -/
  covers : Covers 0 source.toList spans
  /-- Places are not empty. -/
  nonempty : ∀ s ∈ spans, s.start < s.stop
  /-- Places begin and end with whole characters. -/
  boundaries : ∀ s ∈ spans, ∃ text, slice? source.toList s.start s.stop = some text
  /-- Places do not overlap. -/
  disjoint : spans.Pairwise fun s t => s.stop ≤ t.start
  /-- Tokens are in the order of the source. -/
  tokens_ordered :
    (lexed.tokens.body.toList.map Token.span).Pairwise fun s t => s.stop ≤ t.start
  /-- Reports are in the order of the source. -/
  reports_ordered : reported.Pairwise fun s t => s.stop ≤ t.start
  /-- A token has the text at its place. -/
  texts : ∀ t ∈ lexed.tokens.body,
    slice? source.toList t.span.start t.span.stop = some (names.text t.text).toList
  /-- A token of a kind with a fixed text has that text. -/
  literals : ∀ t ∈ lexed.tokens.body, ∀ text, vocabulary.literal? t.kind = some text →
    names.text t.text = text
  /-- The tokens end where the source does. -/
  ends : lexed.tokens.last = .termination source.utf8ByteSize

/-- The words of a source that is not too large are the tokens among its pieces. -/
theorem words_eq {source : String} (small : source.utf8ByteSize ≤ maxOffset) :
    words source = (place 0 (pieces source.toList)).filterMap token? :=
  if_neg (Nat.not_lt.mpr small)

/-- What is reported of the text of a source that is not too large are pieces of it. -/
theorem diagnostics_lex (names : Interner) {source : String}
    (small : source.utf8ByteSize ≤ maxOffset) :
    (lex names source).1.diagnostics = (place 0 (pieces source.toList)).filterMap diagnostic? := by
  rw [lex_eq_internAll]
  exact if_neg (Nat.not_lt.mpr small)

/-- What is placed are the pieces. -/
theorem piece_of_mem_place {offset : Nat} {ps : List Piece} {p : PlacedPiece}
    (among : p ∈ place offset ps) : p.piece ∈ ps := by
  induction ps generalizing offset with
  | nil => cases among
  | cons first ps ih =>
    rcases List.mem_cons.mp among with rfl | later
    · exact List.mem_cons_self
    · exact List.mem_cons_of_mem first (ih later)

/-- A word of a source is a token of it, at its place. -/
theorem exists_piece_of_mem_words {source : String} {word : TokenKind × String × Span}
    (among : word ∈ words source) : ∃ p ∈ pieces source.toList, kind? p = some word.1 ∧
      word.2.1 = String.ofList p.text ∧
      slice? source.toList word.2.2.start word.2.2.stop = some p.text := by
  rw [words] at among
  split at among
  · cases among
  · obtain ⟨p, placed, made⟩ := List.mem_filterMap.mp among
    obtain ⟨kind, found, rfl⟩ := Option.map_eq_some_iff.mp made
    have slice := slice?_of_mem_place [] placed
    rw [List.nil_append, flatMap_text_pieces] at slice
    exact ⟨p.piece, piece_of_mem_place placed, found, rfl, slice⟩

/-- The places of words are in the order of the source. -/
theorem pairwise_words (source : String) :
    ((words source).map fun word => word.2.2).Pairwise fun s t => s.stop ≤ t.start := by
  rw [words]
  split
  · exact .nil
  · refine List.pairwise_map.mpr ((pairwise_place 0 _).filterMap _ fun p q order => ?_)
    rintro _ made _ made'
    obtain ⟨_, _, rfl⟩ := Option.map_eq_some_iff.mp made
    obtain ⟨_, _, rfl⟩ := Option.map_eq_some_iff.mp made'
    exact order

/-- The tokens of a source are its words, and the end of the source is behind them. -/
theorem tokens_lex (names : Interner) (source : String) :
    (lex names source).1.tokens.body.toList = (Token.internAll names (words source)).1 ∧
      (lex names source).1.tokens.last = .termination (extent source) := by
  have others : ∀ t ∈ (Token.internAll names (words source)).1, t.kind.isTermination = false := by
    intro t among
    obtain ⟨word, among, same, _⟩ := Token.exists_word_of_mem among
    exact same ▸ isTermination_of_mem_words among
  have whole := TokenStream.toList_ofList others (extent source)
  rw [lex_eq_internAll]
  obtain ⟨body, last⟩ := List.append_inj' whole rfl
  exact ⟨body, List.singleton_inj.mp last⟩

/-- The places of the tokens are those of the words. -/
theorem spans_lex (names : Interner) (source : String) :
    (lex names source).1.tokens.body.toList.map Token.span =
      (words source).map fun word => word.2.2 := by
  rw [(tokens_lex names source).1, ← List.forall₂_eq_eq_eq, List.forall₂_map_left_iff,
    List.forall₂_map_right_iff]
  exact (Token.internAll_fst names (words source)).imp fun _ _ made => made.2.2

/-- Every token of a source is a piece of it, at its place. -/
theorem exists_piece_of_mem_tokens (names : Interner) {source : String} {t : Token}
    (among : t ∈ (lex names source).1.tokens.body) :
    ∃ p ∈ pieces source.toList, kind? p = some t.kind ∧
      (lex names source).2.text t.text = String.ofList p.text ∧
      slice? source.toList t.span.start t.span.stop = some p.text := by
  rw [← Array.mem_toList_iff, (tokens_lex names source).1] at among
  obtain ⟨i, inside, rfl⟩ := List.getElem_of_mem among
  obtain ⟨lengths, made⟩ := List.forall₂_iff_get.mp (Token.internAll_fst names (words source))
  obtain ⟨kind, given, span⟩ := made i inside (lengths ▸ inside)
  obtain ⟨p, listed, found, text, slice⟩ :=
    exists_piece_of_mem_words (List.get_mem (words source) ⟨i, lengths ▸ inside⟩)
  rw [List.get_eq_getElem] at kind given span
  refine ⟨p, listed, kind ▸ found, ?_, span ▸ slice⟩
  rw [lex_eq_internAll, Interner.text_of_gives given]
  exact text

/-- What covers a text from its beginning on begins and ends with whole characters of it. -/
theorem exists_slice_of_covers {cs : List Char} {spans : List Span} {s : Span}
    (h : Covers 0 cs spans) (among : s ∈ spans) :
    ∃ text, slice? cs s.start s.stop = some text := by
  have begun : Covers (byteLength []) cs spans := h
  exact begun.exists_slice among

/-- Lexing accounts for every byte of a source that is not too large. -/
theorem lex_accounts (names : Interner) {source : String}
    (small : source.utf8ByteSize ≤ maxOffset) :
    ∃ spans reported, (lex names source).1.Accounts (lex names source).2 source spans reported := by
  have formed : ∀ p ∈ place 0 (pieces source.toList), p.piece.WellFormed := fun p placed =>
    (cut_pieces source.toList).wellFormed _ (piece_of_mem_place placed)
  have covers := (cut_pieces source.toList).covers 0
  have remarked := diagnostics_lex names small
  refine ⟨_, reportedSpans (place 0 (pieces source.toList)), {
    reports := by rw [remarked, map_primarySpan?]
    codes := fun d among => ?_
    merged := by rw [spans_lex, words_eq small]; exact perm_spans formed
    covers := covers
    nonempty := fun s among => covers.start_lt_stop among
    boundaries := fun s among => exists_slice_of_covers covers among
    disjoint := covers.pairwise
    tokens_ordered := by rw [spans_lex]; exact pairwise_words source
    reports_ordered := ((pairwise_place 0 _).filter _).map _ fun _ _ => id
    texts := fun t among => ?_
    literals := fun t among text fixed => ?_
    ends := ?_ }⟩
  · rw [remarked] at among
    obtain ⟨p, _, made⟩ := List.mem_filterMap.mp among
    rcases diagnostic?_cases p with ⟨_, none⟩ | ⟨_, e, some, _, code⟩
    · rw [none] at made
      cases made
    · rw [some] at made
      exact Option.some.inj made ▸ code
  · obtain ⟨p, _, _, text, slice⟩ := exists_piece_of_mem_tokens names among
    rw [slice, text, String.toList_ofList]
  · obtain ⟨p, _, found, same, _⟩ := exists_piece_of_mem_tokens names among
    exact same.trans (text_of_literal? found fixed)
  · rw [(tokens_lex names source).2, extent, if_neg (Nat.not_lt.mpr small)]

/-- A source with a token, a stray character and a string that does not end. -/
theorem lex_accounts_open_string :
    "a $ \"b".utf8ByteSize ≤ maxOffset ∧ ∃ spans reported,
      (lex .initial "a $ \"b").1.Accounts (lex .initial "a $ \"b").2 "a $ \"b" spans reported :=
  have small : "a $ \"b".utf8ByteSize ≤ maxOffset := by decide
  ⟨small, lex_accounts .initial small⟩

end Lkt

end CombinatorGrammar
