import CombinatorGrammar.Proofs.Lkt.Accounting
import Mathlib.Data.List.Flatten

/-!
# Lexing what was lexed

The texts of the tokens of a source, on a line each, have the same tokens again. No text of a
pattern but the blanks goes on behind the end of a line, so each token is the longest match of its
text alone; and a line end between two tokens is a piece of its own. The line ends take bytes, so a
source of many short tokens can become too large to be lexed again.
-/

namespace CombinatorGrammar.Lkt

open Text
open scoped Computability

section Lines

variable {text word tail : List Char} {form : Form} {l : Language Char}

/-- The characters end or their line does. -/
def EndsLine (cs : List Char) : Prop := ∀ c, cs.head? = some c → c = '\n'

/-- The inside of a string does not go on behind the end of a line. -/
theorem inComment_of_mem_insides (h : text ∈ insides) : ∀ c ∈ text, inComment c := by
  obtain ⟨parts, rfl, all⟩ := Language.mem_kstar.mp h
  intro c among
  obtain ⟨part, listed, inside⟩ := List.mem_flatten.mp among
  rcases all part listed with ⟨d, plain, rfl⟩ | pair
  · obtain rfl := List.mem_singleton.mp inside
    rw [isPlain, Bool.and_eq_true] at plain
    exact plain.2
  · obtain ⟨_, ⟨d, other, rfl⟩, rfl⟩ := mem_exactly_mul.mp pair
    rcases List.mem_cons.mp inside with rfl | inside
    · rfl
    · exact List.mem_singleton.mp inside ▸ other

theorem inComment_of_not_blank {c : Char} (h : isBlank c = false) : inComment c :=
  bne_iff_ne.mpr fun same => by
    rw [same] at h
    cases h

/-- The blanks, one by one. -/
theorem isBlank_iff {c : Char} : isBlank c ↔ c ∈ [' ', '\t', '\r', '\n', '\x0c'] := by
  simp [isBlank, or_assoc]

/-- A character of a class without blanks is not a blank. -/
theorem isBlank_eq_false_of {p : Char → Bool}
    (none : [' ', '\t', '\r', '\n', '\x0c'].all (fun c => !p c)) {c : Char} (h : p c) :
    isBlank c = false := by
  rw [← Bool.not_eq_true]
  intro blank
  have other := List.all_eq_true.mp none c (isBlank_iff.mp blank)
  rw [h] at other
  cases other

/-- A fixed text does not begin with a blank and has no line end. -/
theorem fixedKinds_begin {kind : String × String} (h : kind ∈ fixedKinds) :
    ∃ c rest, kind.2.toList = c :: rest ∧ isBlank c = false ∧ ∀ d ∈ rest, inComment d := by
  have all : fixedKinds.all (fun kind => kind.2.toList.head?.any (fun c => !isBlank c) &&
      kind.2.toList.all inComment) = true := by
    decide +kernel
  have one := List.all_eq_true.mp all kind h
  cases whole : kind.2.toList with
  | nil =>
    rw [whole] at one
    cases one
  | cons c rest =>
    rw [whole, Bool.and_eq_true, List.all_cons, Bool.and_eq_true] at one
    exact ⟨c, rest, rfl, Bool.not_eq_true' _ ▸ one.1, List.all_eq_true.mp one.2.2⟩

/-- A text of a pattern other than the blanks does not begin with a blank and has no line end. -/
theorem begins_of_mem_patterns (listed : (form, l) ∈ patterns) (content : form ≠ .blank)
    (among : text ∈ l) :
    ∃ c rest, text = c :: rest ∧ isBlank c = false ∧ ∀ d ∈ rest, inComment d := by
  have cases : (∃ kind ∈ fixedKinds, l = exactly kind.2.toList) ∨ l = comments ∨ l = docComments ∨
      l = identifiers ∨ l = strings ∨ l = openStrings ∨ l = numbers := by
    rcases List.mem_append.mp listed with fixed | other
    · obtain ⟨kind, known, same⟩ := List.mem_map.mp fixed
      exact .inl ⟨kind, known, (congrArg Prod.snd same).symm⟩
    · simp only [List.mem_cons, Prod.mk.injEq, List.not_mem_nil, or_false] at other
      tauto
  rcases cases with ⟨kind, known, rfl⟩ | rfl | rfl | rfl | rfl | rfl | rfl
  · exact among ▸ fixedKinds_begin known
  · obtain ⟨body, rfl, _, line⟩ := mem_comments.mp among
    exact ⟨'#', body, rfl, rfl, line⟩
  · obtain ⟨body, line, rfl⟩ := mem_exactly_mul.mp among
    exact ⟨'#', '#' :: body, rfl, rfl,
      List.forall_mem_cons.mpr ⟨rfl, mem_kstar_oneOf.mp line⟩⟩
  · obtain ⟨c, begins, rest, continues, rfl⟩ := mem_oneOf_mul.mp among
    exact ⟨c, rest, rfl, isBlank_eq_false_of (by decide) begins, fun d inside =>
      inComment_of_not_blank
        (isBlank_eq_false_of (by decide) (mem_kstar_oneOf.mp continues d inside))⟩
  · obtain ⟨first, opened, _, rfl, rfl⟩ := Language.mem_mul.mp among
    obtain ⟨inner, inside, rfl⟩ := mem_exactly_mul.mp opened
    exact ⟨'"', inner ++ ['"'], rfl, rfl, List.forall_mem_append.mpr
      ⟨inComment_of_mem_insides inside, List.forall_mem_singleton.mpr rfl⟩⟩
  · obtain ⟨inner, inside, rfl⟩ := mem_exactly_mul.mp among
    exact ⟨'"', inner, rfl, rfl, inComment_of_mem_insides inside⟩
  · obtain ⟨c, digit, rest, digits, rfl⟩ := mem_oneOf_mul.mp among
    exact ⟨c, rest, rfl, isBlank_eq_false_of (by decide) digit, fun d inside =>
      inComment_of_not_blank (isBlank_eq_false_of (by decide) (mem_kstar_oneOf.mp digits d inside))⟩

/-- A text without a line end does not go on behind one. -/
theorem prefix_of_prefix_append (line : ∀ c ∈ word, inComment c) (ends : EndsLine tail)
    (start : word <+: text ++ tail) : word <+: text := by
  refine List.prefix_of_prefix_length_le start (List.prefix_append text tail) ?_
  by_contra longer
  obtain ⟨rest, rfl⟩ := List.prefix_of_prefix_length_le (List.prefix_append text tail) start
    (Nat.le_of_not_le longer)
  rw [List.prefix_append_right_inj] at start
  cases rest with
  | nil => exact longer (by rw [List.append_nil])
  | cons c rest =>
    obtain ⟨others, rfl⟩ := start
    obtain rfl := ends c rfl
    exact absurd rfl (bne_iff_ne.mp (line '\n' (List.mem_append_right text List.mem_cons_self)))

/-- A pattern matches as much of a text that does not begin with a blank at the end of a line as
it does elsewhere, if it does not match more than the text. -/
theorem IsLongest.isolate {c : Char} {rest : List Char} {n : Nat} (listed : (form, l) ∈ patterns)
    (first : isBlank c = false) (h : IsLongest l (c :: text ++ rest) n)
    (inside : n ≤ (c :: text).length) (ends : EndsLine tail) :
    IsLongest l (c :: text ++ tail) n where
  exists_prefix positive := by
    obtain ⟨word, among, start, rfl⟩ := h.exists_prefix positive
    have start' := List.prefix_of_prefix_length_le start (List.prefix_append _ rest) inside
    exact ⟨word, among, start'.trans (List.prefix_append _ tail), rfl⟩
  length_le word among start := by
    by_cases blank : form = .blank
    · obtain rfl : l = blanks := by
        subst blank
        simpa [patterns] using listed
      obtain ⟨d, begins, others, _, rfl⟩ := mem_oneOf_mul.mp among
      obtain ⟨rfl, _⟩ := List.cons_prefix_cons.mp start
      rw [first] at begins
      cases begins
    · obtain ⟨d, others, rfl, begins, line⟩ := begins_of_mem_patterns listed blank among
      have line' : ∀ e ∈ d :: others, inComment e :=
        List.forall_mem_cons.mpr ⟨inComment_of_not_blank begins, line⟩
      exact h.length_le _ among
        ((prefix_of_prefix_append line' ends start).trans (List.prefix_append _ rest))

end Lines

/-- The piece is the longest match of its text wherever a line ends behind it, and does not begin
with a blank. -/
structure Piece.StandsAlone (p : Piece) : Prop where
  begins : ∃ c text, p.text = c :: text ∧ isBlank c = false
  longest_eq : ∀ tail, EndsLine tail → longest (p.text ++ tail) = (p.form, p.text.length)

/-- A piece other than blanks stands alone. -/
theorem standsAlone_of_longest {text rest : List Char}
    (size : text.length = max 1 (longest (text ++ rest)).2)
    (valid : (longest (text ++ rest)).1 ≠ .invalid)
    (content : (longest (text ++ rest)).1 ≠ .blank) :
    Piece.StandsAlone ⟨(longest (text ++ rest)).1, text⟩ := by
  have length := length_eq_longest size valid
  obtain ⟨l, listed, among⟩ := exists_pattern_of_longest (longest_pos valid)
  rw [← length, List.take_left] at among
  obtain ⟨c, others, rfl, first, _⟩ := begins_of_mem_patterns listed content among
  refine ⟨⟨c, others, rfl, first⟩, fun tail ends => ?_⟩
  have same : longest (c :: others ++ tail) = longest (c :: others ++ rest) := by
    rw [longest_eq, longest_eq]
    refine List.foldl_ext _ _ _ fun best form known => ?_
    obtain ⟨p, listed', _, measured⟩ := exists_measured known
    have longest := measured (c :: others ++ rest)
    have inside : form.2 (c :: others ++ rest) ≤ (c :: others).length := by
      rcases Nat.eq_zero_or_pos (form.2 (c :: others ++ rest)) with none | positive
      · exact none ▸ Nat.zero_le _
      · obtain ⟨word, among', start, same⟩ := longest.exists_prefix positive
        rw [← same, length]
        exact length_le_longest listed' among' start
    have same := (longest.isolate listed' first inside ends).unique (measured (c :: others ++ tail))
    rw [improve, improve, same]
  exact same.trans (Prod.ext rfl length.symm)

/-- A line end before what does not begin with a blank is a piece of its own. -/
theorem longest_newline {c : Char} (first : isBlank c = false) (rest : List Char) :
    longest ('\n' :: c :: rest) = (.blank, 1) := by
  have listed : (Form.blank, blanks) ∈ patterns := by simp [patterns]
  have newline : ['\n'] ∈ blanks :=
    mem_oneOf_mul.mpr ⟨'\n', rfl, [], Language.nil_mem_kstar _, rfl⟩
  have one : 1 ≤ (longest ('\n' :: c :: rest)).2 :=
    length_le_longest listed newline (List.prefix_append ['\n'] (c :: rest))
  obtain ⟨l, listed, among⟩ := exists_pattern_of_longest one
  obtain ⟨n, same⟩ := Nat.exists_eq_succ_of_ne_zero (Nat.pos_iff_ne_zero.mp one)
  rw [same, List.take_succ_cons] at among
  have blank : (longest ('\n' :: c :: rest)).1 = .blank := by
    by_contra content
    obtain ⟨d, others, whole, begins, _⟩ := begins_of_mem_patterns listed content among
    obtain ⟨rfl, _⟩ := List.cons.inj whole
    cases begins
  refine Prod.ext blank (same.trans ?_)
  rw [blank] at listed
  obtain rfl : l = blanks := by simpa [patterns] using listed
  cases n with
  | zero => rfl
  | succ n =>
    obtain ⟨_, _, others, more, whole⟩ := mem_oneOf_mul.mp among
    obtain ⟨_, rfl⟩ := List.cons.inj whole
    have := mem_kstar_oneOf.mp more c List.mem_cons_self
    rw [first] at this
    cases this

/-- A line end between two pieces. -/
def lineEnd : Piece := ⟨.blank, ['\n']⟩

/-- A source has one cut into pieces. -/
theorem Cut.unique {cs : List Char} {ps qs : List Piece} (h : Cut cs ps) (h' : Cut cs qs) :
    ps = qs := by
  generalize same : cs = cs' at h'
  induction h generalizing cs' qs with
  | nil =>
    cases h' with
    | nil => rfl
    | cons size _ =>
      obtain ⟨rfl, _⟩ := List.append_eq_nil_iff.mp same.symm
      exact absurd rfl (ne_nil_of_size size)
  | cons size _ ih =>
    cases h' with
    | nil =>
      obtain ⟨rfl, _⟩ := List.append_eq_nil_iff.mp same
      exact absurd rfl (ne_nil_of_size size)
    | cons size' more' =>
      have lengths := size.trans (by rw [same, ← size'])
      rw [same]
      obtain ⟨rfl, rfl⟩ := List.append_inj same lengths
      rw [ih _ rfl more']

/-- A piece that stands alone is cut off in front of what ends its line. -/
theorem Piece.StandsAlone.cut {p : Piece} (h : p.StandsAlone) {tail : List Char}
    (ends : EndsLine tail) {ps : List Piece} (more : Cut tail ps) :
    Cut (p.text ++ tail) (p :: ps) := by
  have found := h.longest_eq tail ends
  obtain ⟨c, text, begins, _⟩ := h.begins
  have size : p.text.length = max 1 (longest (p.text ++ tail)).2 := by
    rw [found, begins]
    exact (max_eq_right (Nat.le_add_left 1 _)).symm
  have cut := Cut.cons size more
  rwa [found] at cut

/-- A line end is cut off in front of what is not blank. -/
theorem cut_lineEnd {c : Char} {rest : List Char} {ps : List Piece} (content : isBlank c = false)
    (more : Cut (c :: rest) ps) : Cut ('\n' :: c :: rest) (lineEnd :: ps) := by
  have found : longest (['\n'] ++ (c :: rest)) = (.blank, 1) := longest_newline content rest
  have size : ['\n'].length = max 1 (longest (['\n'] ++ (c :: rest))).2 := by
    rw [found]
    rfl
  have cut := Cut.cons size more
  rwa [found] at cut

/-- Texts of pieces that stand alone, on a line each, have these pieces with line ends between
them. -/
theorem cut_intercalate {ps : List Piece} (alone : ∀ p ∈ ps, p.StandsAlone) :
    Cut (['\n'].intercalate (ps.map Piece.text)) (ps.intersperse lineEnd) := by
  induction ps with
  | nil => exact .nil
  | cons p ps ih =>
    obtain ⟨first, others⟩ := List.forall_mem_cons.mp alone
    cases ps with
    | nil =>
      have ends : EndsLine [] := nofun
      have last := first.cut ends .nil
      rw [List.append_nil] at last
      rw [List.map_singleton, List.intercalate_singleton]
      exact last
    | cons q ps =>
      obtain ⟨c, text, begins, content⟩ := (List.forall_mem_cons.mp others).1.begins
      obtain ⟨rest, whole⟩ : ∃ rest, ['\n'].intercalate ((q :: ps).map Piece.text) = c :: rest := by
        rw [List.map_cons, begins]
        cases ps with
        | nil => exact ⟨text, List.intercalate_singleton⟩
        | cons r ps => exact ⟨_, by rw [List.map_cons, List.intercalate_cons_cons]; rfl⟩
      have later := ih others
      rw [whole] at later
      have ends : EndsLine ('\n' :: c :: rest) := fun d next => (Option.some.inj next).symm
      have cut := first.cut ends (cut_lineEnd content later)
      rw [List.map_cons, List.map_cons, List.intercalate_cons_cons, ← List.map_cons, whole,
        List.append_assoc]
      exact cut

/-- The kind and the text of a piece that is a token. -/
def spelling? (p : Piece) : Option (TokenKind × String) :=
  (kind? p).map fun kind => (kind, String.ofList p.text)

/-- Every token among the pieces of a source stands alone. -/
theorem Cut.standsAlone {cs : List Char} {ps : List Piece} (h : Cut cs ps) :
    ∀ p ∈ ps, (spelling? p).isSome → p.StandsAlone := by
  induction h with
  | nil => exact nofun
  | cons size _ ih =>
    refine List.forall_mem_cons.mpr ⟨fun token => ?_, ih⟩
    rw [spelling?, Option.isSome_map, kind?] at token
    refine standsAlone_of_longest size (fun invalid => ?_) (fun blank => ?_)
    · rw [invalid] at token
      cases token
    · rw [blank] at token
      cases token

/-- The kinds and the texts of the tokens are those of the pieces, wherever these are. -/
theorem map_filterMap_token? (offset : Nat) (ps : List Piece) :
    ((place offset ps).filterMap token?).map (fun word => (word.1, word.2.1)) =
      ps.filterMap spelling? := by
  induction ps generalizing offset with
  | nil => rfl
  | cons p ps ih =>
    rw [place, List.filterMap_cons, List.filterMap_cons, token?, spelling?]
    cases kind? p with
    | none => exact ih _
    | some kind => exact congrArg ((kind, String.ofList p.text) :: ·) (ih _)

/-- Line ends between pieces are neither tokens nor reported. -/
theorem filterMap_intersperse {α : Type} {f : Piece → Option α} (none : f lineEnd = none)
    (ps : List Piece) : (ps.intersperse lineEnd).filterMap f = ps.filterMap f := by
  induction ps with
  | nil => rfl
  | cons p ps ih =>
    cases ps with
    | nil => rfl
    | cons q ps =>
      rw [List.intersperse_cons_cons, List.filterMap_cons, List.filterMap_cons_none none, ih,
        ← List.filterMap_cons]

/-- Between the pieces there are line ends only. -/
theorem mem_of_mem_intersperse {p : Piece} {ps : List Piece} (h : p ∈ ps.intersperse lineEnd) :
    p = lineEnd ∨ p ∈ ps := by
  induction ps with
  | nil => cases h
  | cons q ps ih =>
    cases ps with
    | nil => exact .inr h
    | cons r ps =>
      rw [List.intersperse_cons_cons] at h
      rcases List.mem_cons.mp h with rfl | h
      · exact .inr List.mem_cons_self
      · rcases List.mem_cons.mp h with rfl | h
        · exact .inl rfl
        · exact (ih h).imp_right (List.mem_cons_of_mem q)

/-- A token is not reported. -/
theorem isReported_of_isSome {p : Piece} (token : (spelling? p).isSome) :
    p.form.isReported = false := by
  rw [spelling?, Option.isSome_map, kind?.eq_def] at token
  cases form : p.form with
  | unterminated | invalid =>
    rw [form] at token
    cases token
  | _ => rfl

/-- The kinds and the texts of the tokens before the end of a source. -/
def spellings (lexed : Lexed × Interner) : List (TokenKind × String) :=
  lexed.1.tokens.body.toList.map fun t => (t.kind, lexed.2.text t.text)

/-- The texts of the tokens of a source, on a line each. -/
def relined (lexed : Lexed × Interner) : String :=
  "\n".intercalate ((spellings lexed).map Prod.snd)

/-- The kinds and the texts of the tokens are those of the words. -/
theorem spellings_lex (names : Interner) (source : String) :
    spellings (lex names source) = (words source).map fun word => (word.1, word.2.1) := by
  rw [spellings, (tokens_lex names source).1, lex_eq_internAll, ← List.forall₂_eq_eq_eq,
    List.forall₂_map_left_iff, List.forall₂_map_right_iff]
  exact (Token.internAll_fst names (words source)).imp fun _ _ made =>
    Prod.ext made.1 (Interner.text_of_gives made.2.1)

/-- The kinds and the texts of the tokens of a source that is not too large are those of its
pieces. -/
theorem spellings_lex_eq (names : Interner) {source : String}
    (small : source.utf8ByteSize ≤ maxOffset) :
    spellings (lex names source) = (pieces source.toList).filterMap spelling? := by
  rw [spellings_lex, words_eq small, map_filterMap_token?]

/-- The tokens of a source are pieces of it that stand alone. -/
theorem exists_pieces (names : Interner) (source : String) :
    ∃ ps : List Piece, ps.Sublist (pieces source.toList) ∧ (∀ p ∈ ps, (spelling? p).isSome) ∧
      spellings (lex names source) = ps.filterMap spelling? := by
  by_cases small : source.utf8ByteSize ≤ maxOffset
  · refine ⟨(pieces source.toList).filter fun p => (spelling? p).isSome, List.filter_sublist,
      fun _ among => (List.mem_filter.mp among).2, ?_⟩
    rw [spellings_lex_eq names small, List.filterMap_filter]
    refine List.filterMap_congr fun p _ => ?_
    cases spelling? p with
    | none => rfl
    | some _ => rfl
  · refine ⟨[], List.nil_sublist _, List.forall_mem_nil _, ?_⟩
    rw [spellings_lex, words, if_pos (Nat.lt_of_not_le small)]
    rfl

/-- The texts of tokens are those of their pieces. -/
theorem toList_intercalate_spellings {ps : List Piece} (tokens : ∀ p ∈ ps, (spelling? p).isSome) :
    ("\n".intercalate ((ps.filterMap spelling?).map Prod.snd)).toList =
      ['\n'].intercalate (ps.map Piece.text) := by
  have texts : ((ps.filterMap spelling?).map Prod.snd).map String.toList = ps.map Piece.text := by
    induction ps with
    | nil => rfl
    | cons p ps ih =>
      obtain ⟨first, others⟩ := List.forall_mem_cons.mp tokens
      obtain ⟨_, found⟩ := Option.isSome_iff_exists.mp first
      obtain ⟨kind, _, rfl⟩ := Option.map_eq_some_iff.mp found
      rw [List.filterMap_cons_some found, List.map_cons, List.map_cons, ih others, List.map_cons,
        String.toList_ofList]
  rw [String.toList_intercalate, texts]
  rfl

/-- Scanning the texts of the tokens of a source, on a line each, gives the tokens with line ends
between them. -/
theorem exists_pieces_relined (names : Interner) (source : String) :
    ∃ ps : List Piece, ps.Sublist (pieces source.toList) ∧ (∀ p ∈ ps, (spelling? p).isSome) ∧
      spellings (lex names source) = ps.filterMap spelling? ∧
      (relined (lex names source)).toList = ['\n'].intercalate (ps.map Piece.text) ∧
      pieces (relined (lex names source)).toList = ps.intersperse lineEnd := by
  obtain ⟨ps, part, tokens, same⟩ := exists_pieces names source
  have alone : ∀ p ∈ ps, p.StandsAlone := fun p among =>
    (cut_pieces source.toList).standsAlone p (part.subset among) (tokens p among)
  have text : (relined (lex names source)).toList = ['\n'].intercalate (ps.map Piece.text) := by
    rw [relined, same, toList_intercalate_spellings tokens]
  refine ⟨ps, part, tokens, same, text, ?_⟩
  rw [text]
  exact (cut_pieces _).unique (cut_intercalate alone)

/-- Line ends between texts take a byte each. -/
theorem byteLength_intercalate {texts : List (List Char)} (some : texts ≠ []) :
    byteLength (['\n'].intercalate texts) + 1 = byteLength texts.flatten + texts.length := by
  induction texts with
  | nil => exact absurd rfl some
  | cons text texts ih =>
    cases texts with
    | nil => rw [List.intercalate_singleton, List.flatten_singleton, List.length_singleton]
    | cons next texts =>
      have newline : byteLength ['\n'] = 1 := by decide
      have rest := ih (List.cons_ne_nil _ _)
      rw [List.intercalate_cons_cons, List.flatten_cons, byteLength_append, byteLength_append,
        byteLength_append, List.length_cons]
      omega

/-- There are no more texts than bytes, if none is empty. -/
theorem length_le_byteLength_flatten {texts : List (List Char)}
    (content : ∀ text ∈ texts, text ≠ []) : texts.length ≤ byteLength texts.flatten := by
  induction texts with
  | nil => exact Nat.zero_le _
  | cons text texts ih =>
    obtain ⟨first, others⟩ := List.forall_mem_cons.mp content
    have positive := byteLength_pos first
    have rest := ih others
    rw [List.flatten_cons, byteLength_append, List.length_cons]
    omega

/-- Line ends between tokens take no more bytes than the tokens do. -/
theorem utf8ByteSize_relined_le (names : Interner) (source : String) :
    (relined (lex names source)).utf8ByteSize ≤ 2 * source.utf8ByteSize := by
  obtain ⟨ps, part, tokens, _, text, _⟩ := exists_pieces_relined names source
  have content : ∀ text ∈ ps.map Piece.text, text ≠ [] := by
    intro text among
    obtain ⟨p, listed, rfl⟩ := List.mem_map.mp among
    obtain ⟨_, _, begins, _⟩ :=
      ((cut_pieces source.toList).standsAlone p (part.subset listed) (tokens p listed)).begins
    rw [begins]
    exact List.cons_ne_nil _ _
  have bound := byteLength_le_of_sublist (part.flatMap Piece.text)
  rw [flatMap_text_pieces, List.flatMap_def] at bound
  have few := length_le_byteLength_flatten content
  rw [utf8ByteSize_eq, utf8ByteSize_eq, text]
  by_cases some : ps.map Piece.text = []
  · rw [some]
    exact Nat.zero_le _
  · have size := byteLength_intercalate some
    omega

/-- Nothing is reported of a source that is not too large if each of its pieces is valid. -/
theorem diagnostics_lex_eq_nil (names : Interner) {source : String}
    (small : source.utf8ByteSize ≤ maxOffset)
    (silent : ∀ p ∈ pieces source.toList, p.form.isReported = false) :
    (lex names source).1.diagnostics = [] := by
  rw [diagnostics_lex names small]
  refine List.filterMap_eq_nil_iff.mpr fun p placed => ?_
  rcases diagnostic?_cases p with ⟨_, none⟩ | ⟨reported, _⟩
  · exact none
  · rw [silent _ (piece_of_mem_place placed)] at reported
    cases reported

/-- A source that is too large is reported and has no tokens. -/
theorem lex_of_large (names : Interner) {source : String}
    (large : maxOffset < source.utf8ByteSize) :
    (lex names source).1.diagnostics = [tooLarge source.utf8ByteSize] ∧
      spellings (lex names source) = [] := by
  constructor
  · rw [lex_eq_internAll, remarks, if_pos large]
  · rw [spellings_lex, words, if_pos large]
    rfl

/-- Lexing the texts of the tokens of a source, on a line each, gives the same kinds and texts, and
there is nothing to report. Only a text that has become too large by its line ends is refused as a
whole, although it consists of the same tokens. -/
theorem lex_relined (names names' : Interner) (source : String) :
    let lexed := lex names source
    let again := lex names' (relined lexed)
    ((pieces (relined lexed).toList).filterMap spelling? = spellings lexed ∧
        ∀ p ∈ pieces (relined lexed).toList, p.form.isReported = false) ∧
      if (relined lexed).utf8ByteSize ≤ maxOffset then
        again.1.diagnostics = [] ∧ spellings again = spellings lexed
      else
        maxOffset < 2 * source.utf8ByteSize ∧
          again.1.diagnostics = [tooLarge (relined lexed).utf8ByteSize] := by
  intro lexed again
  obtain ⟨ps, _, tokens, same, _, scanned⟩ := exists_pieces_relined names source
  have kept : (pieces (relined lexed).toList).filterMap spelling? = spellings lexed := by
    rw [scanned, filterMap_intersperse rfl, same]
  have silent : ∀ p ∈ pieces (relined lexed).toList, p.form.isReported = false := by
    rw [scanned]
    intro p among
    rcases mem_of_mem_intersperse among with rfl | token
    · rfl
    · exact isReported_of_isSome (tokens p token)
  refine ⟨⟨kept, silent⟩, ?_⟩
  split
  · next small =>
    exact ⟨diagnostics_lex_eq_nil names' small silent, (spellings_lex_eq names' small).trans kept⟩
  · next large =>
    have large := Nat.lt_of_not_le large
    exact ⟨large.trans_le (utf8ByteSize_relined_le names source), (lex_of_large names' large).1⟩

section Parentheses

/-- An opening parenthesis as a piece. -/
def paren : Piece := ⟨.fixed, ['(']⟩

/-- So many opening parentheses in a row. -/
def parens (n : Nat) : String := String.ofList (List.replicate n '(')

/-- No other pattern begins with a parenthesis, so it is a piece whatever follows. -/
theorem longest_paren (rest : List Char) : longest ('(' :: rest) = (.fixed, 1) := rfl

/-- Parentheses are cut off one by one. -/
theorem cut_parens (n : Nat) : Cut (List.replicate n '(') (List.replicate n paren) := by
  induction n with
  | zero => exact .nil
  | succ n ih =>
    have found : longest (['('] ++ List.replicate n '(') = (.fixed, 1) := longest_paren _
    have size : ['('].length = max 1 (longest (['('] ++ List.replicate n '(')).2 := by
      rw [found]
      rfl
    have cut := Cut.cons size ih
    rw [found] at cut
    exact cut

/-- The pieces of parentheses are the parentheses. -/
theorem pieces_parens (n : Nat) : pieces (parens n).toList = List.replicate n paren := by
  rw [parens, String.toList_ofList]
  exact (cut_pieces _).unique (cut_parens n)

/-- A parenthesis is one byte. -/
theorem utf8ByteSize_parens (n : Nat) : (parens n).utf8ByteSize = n := by
  rw [utf8ByteSize_eq, parens, String.toList_ofList]
  exact byteLength_replicate_narrow rfl n

variable {n : Nat}

/-- Each parenthesis is a token, if there are not too many to be lexed. -/
theorem texts_parens (names : Interner) (small : n ≤ maxOffset) :
    (spellings (lex names (parens n))).map Prod.snd = List.replicate n "(" := by
  have token : (spelling? paren).map Prod.snd = some "(" := by decide +kernel
  obtain ⟨spelling, found, text⟩ := Option.map_eq_some_iff.mp token
  have small' : (parens n).utf8ByteSize ≤ maxOffset := (utf8ByteSize_parens n).trans_le small
  rw [spellings_lex_eq names small', pieces_parens, List.filterMap_replicate_of_some found,
    List.map_replicate, text]

/-- On a line each, parentheses take nearly twice as many bytes. -/
theorem utf8ByteSize_relined_parens (names : Interner) (small : n ≤ maxOffset) (some : n ≠ 0) :
    (relined (lex names (parens n))).utf8ByteSize = 2 * n - 1 := by
  have size := byteLength_intercalate (mt (List.replicate_eq_nil_iff (a := ['('])).mp some)
  rw [List.flatten_replicate_singleton, byteLength_replicate_narrow rfl,
    List.length_replicate] at size
  rw [utf8ByteSize_eq, relined, String.toList_intercalate, texts_parens names small,
    List.map_replicate]
  change byteLength (['\n'].intercalate (List.replicate n ['('])) = 2 * n - 1
  omega

/-- Parentheses that are more than half of the bytes that a source may have are lexed, but on a line
each they are refused. -/
theorem lex_relined_parens (names names' : Interner) (small : n ≤ maxOffset)
    (large : maxOffset < 2 * n - 1) :
    (lex names (parens n)).1.diagnostics = [] ∧
      (spellings (lex names (parens n))).map Prod.snd = List.replicate n "(" ∧
      (lex names' (relined (lex names (parens n)))).1.diagnostics = [tooLarge (2 * n - 1)] ∧
      spellings (lex names' (relined (lex names (parens n)))) = [] := by
  have size := utf8ByteSize_relined_parens names small (by omega)
  have small' : (parens n).utf8ByteSize ≤ maxOffset := (utf8ByteSize_parens n).trans_le small
  have refused := lex_of_large names' (large.trans_eq size.symm)
  rw [size] at refused
  refine ⟨diagnostics_lex_eq_nil names small' ?_, texts_parens names small, refused⟩
  rw [pieces_parens]
  intro p among
  rw [List.eq_of_mem_replicate among]
  rfl

/-- Not every source has its tokens again if they are on a line each: this one is lexed, and then
there are too many bytes. -/
theorem not_relexed_parens :
    (parens 2147483649).utf8ByteSize ≤ maxOffset ∧
      (lex .initial (parens 2147483649)).1.diagnostics = [] ∧
      (lex .initial (relined (lex .initial (parens 2147483649)))).1.diagnostics =
        [tooLarge 4294967297] ∧
      spellings (lex .initial (relined (lex .initial (parens 2147483649)))) ≠
        spellings (lex .initial (parens 2147483649)) := by
  have small : 2147483649 ≤ maxOffset := by decide
  obtain ⟨valid, texts, refused, none⟩ := lex_relined_parens .initial .initial small (by decide)
  refine ⟨(utf8ByteSize_parens _).trans_le small, valid, refused, fun same => ?_⟩
  rw [← same, none] at texts
  exact absurd (congrArg List.length texts) (by rw [List.length_replicate]; decide)

end Parentheses

end CombinatorGrammar.Lkt
