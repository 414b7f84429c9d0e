import CombinatorGrammar.Lkt.Piece
import Mathlib.Computability.Language
import Mathlib.Data.List.TakeWhile

/-!
# Patterns of pieces

Each form of a piece has a pattern, which is a language of texts built by union, concatenation and
repetition. The forms compute how long the longest text of their pattern is at the beginning of
some characters. So a piece is a longest text that any pattern matches at its place, and of the
patterns with texts that long its form is that of the first.
-/

namespace CombinatorGrammar.Lkt

open scoped Computability

/-- The text alone. -/
def exactly (text : List Char) : Language Char := {text}

/-- The texts of one character that satisfies a condition. -/
def oneOf (p : Char → Bool) : Language Char := {text | ∃ c, p c ∧ text = [c]}

/-- Blanks in a row. -/
def blanks : Language Char := oneOf isBlank * (oneOf isBlank)∗

/-- Number signs that no second one follows, each with the rest of its line. -/
def comments : Language Char :=
  exactly ['#'] * (1 + oneOf (fun c => c != '#' && inComment c) * (oneOf inComment)∗)

/-- Two number signs with the rest of their line. -/
def docComments : Language Char := exactly ['#', '#'] * (oneOf inComment)∗

/-- Letters, digits and underscores, without a digit at the beginning. -/
def identifiers : Language Char := oneOf beginsIdentifier * (oneOf continuesIdentifier)∗

/-- Whether a character of a string stands for itself. -/
def isPlain (c : Char) : Bool := c != '"' && c != '\\' && c != '\n'

/-- Characters of strings: each stands for itself or follows a backslash. -/
def characters : Language Char := oneOf isPlain + exactly ['\\'] * oneOf inComment

/-- Insides of strings. -/
def insides : Language Char := characters∗

/-- Strings that lack a closing quotation mark. -/
def openStrings : Language Char := exactly ['"'] * insides

/-- Strings with a closing quotation mark. -/
def strings : Language Char := openStrings * exactly ['"']

/-- Digits in a row. -/
def numbers : Language Char := oneOf Char.isDigit * (oneOf Char.isDigit)∗

/-- The patterns of the forms, in the order in which they are tried. -/
def patterns : List (Form × Language Char) :=
  fixedKinds.map (fun (_, text) => (.fixed, exactly text.toList)) ++
    [(.blank, blanks), (.comment, comments), (.docComment, docComments),
      (.identifier, identifiers), (.string, strings), (.unterminated, openStrings),
      (.number, numbers)]

section Membership

variable {p q : Char → Bool} {text part : List Char} {l : Language Char}

/-- A text of a fixed beginning and a language is the beginning with a text of the language behind
it. -/
theorem mem_exactly_mul : text ∈ exactly part * l ↔ ∃ rest ∈ l, part ++ rest = text := by
  rw [Language.mem_mul]
  constructor
  · rintro ⟨_, rfl, rest, among, whole⟩
    exact ⟨rest, among, whole⟩
  · rintro ⟨rest, among, whole⟩
    exact ⟨part, rfl, rest, among, whole⟩

/-- Repeating a character class gives the texts of that class. -/
theorem mem_kstar_oneOf : text ∈ (oneOf p)∗ ↔ ∀ c ∈ text, p c := by
  rw [Language.mem_kstar]
  constructor
  · rintro ⟨parts, rfl, ones⟩ c among
    obtain ⟨one, listed, inside⟩ := List.mem_flatten.mp among
    obtain ⟨d, holds, rfl⟩ := ones one listed
    rw [List.mem_singleton.mp inside]
    exact holds
  · intro all
    refine ⟨text.map fun c => [c], (List.flatMap_singleton' text).symm, fun one listed => ?_⟩
    obtain ⟨c, among, rfl⟩ := List.mem_map.mp listed
    exact ⟨c, all c among, rfl⟩

/-- A text of a class and a language is a character of the class with a text of the language behind
it. -/
theorem mem_oneOf_mul : text ∈ oneOf p * l ↔ ∃ c, p c ∧ ∃ rest ∈ l, text = c :: rest := by
  rw [Language.mem_mul]
  constructor
  · rintro ⟨_, ⟨c, holds, rfl⟩, rest, among, rfl⟩
    exact ⟨c, holds, rest, among, rfl⟩
  · rintro ⟨c, holds, rest, among, rfl⟩
    exact ⟨[c], ⟨c, holds, rfl⟩, rest, among, rfl⟩

/-- A comment is a number sign and what follows on its line, unless that begins with another one. -/
theorem mem_comments : text ∈ comments ↔
    ∃ body, text = '#' :: body ∧ body.head? ≠ some '#' ∧ ∀ c ∈ body, inComment c := by
  rw [comments, mem_exactly_mul]
  constructor
  · rintro ⟨body, among, rfl⟩
    refine ⟨body, rfl, ?_⟩
    rcases among with rfl | among
    · exact ⟨nofun, nofun⟩
    · obtain ⟨c, first, rest, others, rfl⟩ := mem_oneOf_mul.mp among
      rw [Bool.and_eq_true, bne_iff_ne] at first
      exact ⟨fun same => first.1 (Option.some.inj same),
        List.forall_mem_cons.mpr ⟨first.2, mem_kstar_oneOf.mp others⟩⟩
  · rintro ⟨body, rfl, single, line⟩
    refine ⟨body, ?_, rfl⟩
    cases body with
    | nil => exact .inl rfl
    | cons c rest =>
      obtain ⟨first, others⟩ := List.forall_mem_cons.mp line
      refine .inr (mem_oneOf_mul.mpr ⟨c, ?_, rest, mem_kstar_oneOf.mpr others, rfl⟩)
      exact Bool.and_eq_true_iff.mpr ⟨bne_iff_ne.mpr fun same => single (congrArg some same), first⟩

theorem nil_mem_insides : [] ∈ insides := Language.nil_mem_kstar _

/-- The inside of a string goes on with what may follow one of its characters. -/
theorem append_mem_insides (h : part ∈ characters) (h' : text ∈ insides) :
    part ++ text ∈ insides :=
  Set.mem_of_mem_of_subset (Language.append_mem_mul h h') (mul_kstar_le_kstar (a := characters))

/-- A backslash takes the next character with it, unless the line ends there. -/
theorem pair_mem_characters {c : Char} (h : c ≠ '\n') : ['\\', c] ∈ characters :=
  .inr (mem_exactly_mul.mpr ⟨[c], ⟨c, bne_iff_ne.mpr h, rfl⟩, rfl⟩)

/-- A plain character is one of the inside. -/
theorem insideLength_cons {c : Char} (h : isPlain c) (cs : List Char) :
    insideLength (c :: cs) = 1 + insideLength cs := by
  rw [isPlain, Bool.and_eq_true, Bool.and_eq_true, bne_iff_ne, bne_iff_ne, bne_iff_ne] at h
  obtain ⟨⟨quotation, backslash⟩, newline⟩ := h
  rw [insideLength.eq_4 _ _ (fun same _ => backslash same) (fun _ _ same _ => backslash same),
    decide_eq_false quotation, decide_eq_false newline, Bool.or_self, if_neg Bool.false_ne_true]

/-- The inside of a string takes its characters off the beginning. -/
theorem insideLength_append (h : text ∈ insides) (rest : List Char) :
    insideLength (text ++ rest) = text.length + insideLength rest := by
  obtain ⟨parts, rfl, all⟩ := Language.mem_kstar.mp h
  clear h
  induction parts with
  | nil => exact (Nat.zero_add _).symm
  | cons part parts ih =>
    obtain ⟨first, others⟩ := List.forall_mem_cons.mp all
    rw [List.flatten_cons, List.length_append, List.append_assoc, Nat.add_assoc, ← ih others]
    rcases first with ⟨c, plain, rfl⟩ | pair
    · exact insideLength_cons plain _
    · obtain ⟨_, ⟨c, other, rfl⟩, rfl⟩ := mem_exactly_mul.mp pair
      exact if_neg (bne_iff_ne.mp other)

/-- As much as is measured is an inside of a string. -/
theorem take_insideLength_mem (cs : List Char) : cs.take (insideLength cs) ∈ insides := by
  fun_induction insideLength cs with
  | case1 => exact nil_mem_insides
  | case2 => exact nil_mem_insides
  | case3 => exact nil_mem_insides
  | case4 c cs other ih =>
    rw [Nat.add_comm, List.take_succ_cons, List.take_succ_cons]
    exact append_mem_insides (pair_mem_characters other) ih
  | case5 => exact nil_mem_insides
  | case6 c cs lone pair other ih =>
    have backslash : c ≠ '\\' := fun same => by
      cases cs with
      | nil => exact lone same rfl
      | cons d cs => exact pair d cs same rfl
    rw [Bool.or_eq_true, decide_eq_true_eq, decide_eq_true_eq, not_or] at other
    have plain : isPlain c := by
      rw [isPlain, bne_iff_ne.mpr other.1, bne_iff_ne.mpr backslash, bne_iff_ne.mpr other.2]
      rfl
    rw [Nat.add_comm, List.take_succ_cons]
    exact append_mem_insides (.inl ⟨c, plain, rfl⟩) ih

/-- An inside is not longer than what there is. -/
theorem insideLength_le (cs : List Char) : insideLength cs ≤ cs.length := by
  fun_induction insideLength cs with
  | case1 => exact Nat.le_refl 0
  | case2 => exact Nat.zero_le _
  | case3 => exact Nat.zero_le _
  | case4 _ _ _ ih => rw [List.length_cons, List.length_cons]; omega
  | case5 => exact Nat.zero_le _
  | case6 _ _ _ _ _ ih => rw [List.length_cons]; omega

end Membership

/-- The number is the length of the longest text of a language at the beginning of some
characters, or zero if there is none. -/
structure IsLongest (l : Language Char) (cs : List Char) (n : Nat) : Prop where
  exists_prefix : 0 < n → ∃ text ∈ l, text <+: cs ∧ text.length = n
  length_le : ∀ text ∈ l, text <+: cs → text.length ≤ n

namespace IsLongest

variable {l m : Language Char} {cs rest : List Char} {n : Nat}

/-- There is one longest match. -/
theorem unique {n' : Nat} (h : IsLongest l cs n) (h' : IsLongest l cs n') : n = n' := by
  have below {n n' : Nat} (h : IsLongest l cs n) (h' : IsLongest l cs n') : n ≤ n' := by
    rcases Nat.eq_zero_or_pos n with rfl | positive
    · exact Nat.zero_le n'
    · obtain ⟨text, among, start, rfl⟩ := h.exists_prefix positive
      exact h'.length_le text among start
  exact Nat.le_antisymm (below h h') (below h' h)

/-- The first `n` characters are themselves a text of the language. -/
theorem take_mem (h : IsLongest l cs n) (positive : 0 < n) : cs.take n ∈ l := by
  obtain ⟨text, among, start, rfl⟩ := h.exists_prefix positive
  rwa [← List.prefix_iff_eq_take.mp start]

/-- A match is not longer than what there is. -/
theorem le_length (h : IsLongest l cs n) : n ≤ cs.length := by
  rcases Nat.eq_zero_or_pos n with rfl | positive
  · exact Nat.zero_le _
  · obtain ⟨_, _, start, rfl⟩ := h.exists_prefix positive
    exact start.length_le

/-- The empty text adds nothing. -/
theorem one_add (h : IsLongest l cs n) : IsLongest (1 + l) cs n where
  exists_prefix positive :=
    let ⟨text, among, start⟩ := h.exists_prefix positive
    ⟨text, .inr among, start⟩
  length_le text among start := by
    rcases among with rfl | among
    · exact Nat.zero_le n
    · exact h.length_le text among start

/-- Nothing is matched where what comes first is not. -/
theorem mul_of_not_prefix (h : ∀ first ∈ l, ¬ first <+: cs) : IsLongest (l * m) cs 0 where
  exists_prefix positive := absurd positive (Nat.lt_irrefl 0)
  length_le text among start := by
    obtain ⟨first, listed, other, _, rfl⟩ := Language.mem_mul.mp among
    exact absurd ((List.prefix_append first other).trans start) (h first listed)

/-- If what comes first is matched and all its texts are equally long, the rest is matched behind
it. -/
theorem mul {first : List Char} (h : IsLongest m rest n) (empty : [] ∈ m) (listed : first ∈ l)
    (equal : ∀ other ∈ l, other.length = first.length) :
    IsLongest (l * m) (first ++ rest) (first.length + n) where
  exists_prefix _ := by
    rcases Nat.eq_zero_or_pos n with rfl | positive
    · refine ⟨first ++ [], Language.append_mem_mul listed empty, ?_, ?_⟩
      · exact List.prefix_append_right_inj first |>.mpr List.nil_prefix
      · rw [List.append_nil, Nat.add_zero]
    · obtain ⟨text, among, start, rfl⟩ := h.exists_prefix positive
      exact ⟨first ++ text, Language.append_mem_mul listed among,
        (List.prefix_append_right_inj first).mpr start, List.length_append⟩
  length_le text among start := by
    obtain ⟨other, listed', text, inner, rfl⟩ := Language.mem_mul.mp among
    obtain rfl : other = first := by
      have start' := (List.prefix_append other text).trans start
      exact (List.prefix_of_prefix_length_le start' (List.prefix_append first rest)
        (equal other listed').le).eq_of_length (equal other listed')
    rw [List.length_append]
    have start' := (List.prefix_append_right_inj other).mp start
    exact Nat.add_le_add_left (h.length_le text inner start') _

/-- A character class in front of a language. -/
theorem oneOf_mul {p : Char → Bool} {c : Char} (h : IsLongest m rest n) (empty : [] ∈ m) :
    IsLongest (oneOf p * m) (c :: rest) (if p c then 1 + n else 0) := by
  split
  · next holds =>
    have listed : [c] ∈ oneOf p := ⟨c, holds, rfl⟩
    refine h.mul empty listed ?_
    rintro _ ⟨d, _, rfl⟩
    rfl
  · next fails =>
    refine mul_of_not_prefix ?_
    rintro _ ⟨d, holds, rfl⟩ start
    obtain ⟨rfl, _⟩ := List.cons_prefix_cons.mp start
    exact fails holds

/-- At the end nothing that begins with a character is matched. -/
theorem oneOf_mul_nil {p : Char → Bool} : IsLongest (oneOf p * m) [] 0 := by
  refine mul_of_not_prefix ?_
  rintro _ ⟨c, _, rfl⟩ start
  exact List.cons_ne_nil c [] (List.prefix_nil.mp start)

/-- A fixed beginning in front of a language. -/
theorem exactly_mul {first : List Char} (h : IsLongest m rest n) (empty : [] ∈ m) :
    IsLongest (exactly first * m) (first ++ rest) (first.length + n) :=
  h.mul empty rfl fun _ same => congrArg List.length same

/-- Where the characters do not begin with a text, nothing that begins with it is matched. -/
theorem exactly_mul_of_not_prefix {first : List Char} (h : ¬ first <+: cs) :
    IsLongest (exactly first * m) cs 0 := by
  refine mul_of_not_prefix ?_
  rintro _ rfl
  exact h

/-- A run of a class is the longest text of such characters. -/
theorem run (p : Char → Bool) (cs : List Char) : IsLongest (oneOf p)∗ cs (runLength p cs) where
  exists_prefix _ := ⟨cs.takeWhile p, mem_kstar_oneOf.mpr fun _ => List.mem_takeWhile_imp,
    List.takeWhile_prefix p, rfl⟩
  length_le text among start := by
    obtain ⟨rest, rfl⟩ := start
    rw [runLength, List.takeWhile_append_of_pos (mem_kstar_oneOf.mp among), List.length_append]
    exact Nat.le_add_right _ _

/-- A character class followed by repetitions of another. -/
theorem head_run (p q : Char → Bool) (c : Char) (cs : List Char) :
    IsLongest (oneOf p * (oneOf q)∗) (c :: cs) (if p c then 1 + runLength q cs else 0) :=
  (run q cs).oneOf_mul (Language.nil_mem_kstar _)

/-- One or more of a character class. -/
theorem run_pos (p : Char → Bool) (cs : List Char) :
    IsLongest (oneOf p * (oneOf p)∗) cs (runLength p cs) := by
  cases cs with
  | nil => exact oneOf_mul_nil
  | cons c cs =>
    have h := head_run p p c cs
    have same : (if p c then 1 + runLength p cs else 0) = runLength p (c :: cs) := by
      rw [runLength, runLength, List.takeWhile_cons]
      split
      · rw [List.length_cons, Nat.add_comm]
      · rfl
    rwa [same] at h

/-- A fixed text is matched as a whole. -/
theorem fixed (text cs : List Char) : IsLongest (exactly text) cs (fixedLength text cs) := by
  rw [fixedLength]
  split
  · next starts =>
    exact ⟨fun _ => ⟨text, rfl, List.isPrefixOf_iff_prefix.mp starts, rfl⟩,
      fun _ same _ => (congrArg List.length same).le⟩
  · next other =>
    refine ⟨fun positive => absurd positive (Nat.lt_irrefl 0), ?_⟩
    rintro _ rfl start
    exact absurd (List.isPrefixOf_iff_prefix.mpr start) other

/-- What is measured is the longest identifier. -/
theorem identifier (cs : List Char) : IsLongest identifiers cs (identifierLength cs) := by
  cases cs with
  | nil => exact oneOf_mul_nil
  | cons c cs => exact head_run beginsIdentifier continuesIdentifier c cs

/-- What is measured is the longest documentation comment. -/
theorem docComment (cs : List Char) : IsLongest docComments cs (docCommentLength cs) := by
  rw [docCommentLength.eq_def]
  split
  · next rest => exact (run inComment rest).exactly_mul (Language.nil_mem_kstar _)
  · next other =>
    refine exactly_mul_of_not_prefix ?_
    rintro ⟨rest, rfl⟩
    exact other rest rfl

/-- What is measured is the longest comment. -/
theorem comment (cs : List Char) : IsLongest comments cs (commentLength cs) := by
  have empty : [] ∈ (1 : Language Char) +
      oneOf (fun c => c != '#' && inComment c) * (oneOf inComment)∗ := .inl rfl
  rw [commentLength.eq_def]
  split
  · next rest =>
    -- the second number sign does not go on with the comment
    have none := head_run (fun c => c != '#' && inComment c) inComment '#' rest
    exact none.one_add.exactly_mul empty
  · next rest single =>
    suffices body : IsLongest (oneOf (fun c => c != '#' && inComment c) * (oneOf inComment)∗) rest
        (runLength inComment rest) from body.one_add.exactly_mul empty
    cases rest with
    | nil => exact oneOf_mul_nil
    | cons c rest =>
      have other : c ≠ '#' := fun same => single rest (by rw [same])
      have h := head_run (fun c => c != '#' && inComment c) inComment c rest
      have same : (if (c != '#' && inComment c) = true then 1 + runLength inComment rest else 0) =
          runLength inComment (c :: rest) := by
        rw [bne_iff_ne.mpr other, Bool.true_and, runLength, runLength, List.takeWhile_cons]
        split
        · rw [List.length_cons, Nat.add_comm]
        · rfl
      rwa [same] at h
  · next none =>
    refine exactly_mul_of_not_prefix ?_
    rintro ⟨rest, rfl⟩
    exact none rest rfl

/-- What is measured is the longest inside of a string. -/
theorem inside (cs : List Char) : IsLongest insides cs (insideLength cs) where
  exists_prefix _ := ⟨_, take_insideLength_mem cs, List.take_prefix _ cs,
    List.length_take_of_le (insideLength_le cs)⟩
  length_le text among start := by
    obtain ⟨rest, rfl⟩ := start
    rw [insideLength_append among]
    exact Nat.le_add_right _ _

/-- What is measured is the longest string without its end. -/
theorem unterminated (cs : List Char) : IsLongest openStrings cs (unterminatedLength cs) := by
  rw [unterminatedLength.eq_def]
  split
  · next rest => exact (inside rest).exactly_mul nil_mem_insides
  · next none =>
    refine exactly_mul_of_not_prefix ?_
    rintro ⟨rest, rfl⟩
    exact none rest rfl

/-- An open string is matched up to what no inside begins with. -/
theorem unterminatedLength_append {text : List Char} (h : text ∈ openStrings)
    (ends : insideLength rest = 0) : unterminatedLength (text ++ rest) = text.length := by
  obtain ⟨inner, among, rfl⟩ := mem_exactly_mul.mp h
  rw [List.append_assoc, List.length_append]
  change 1 + insideLength (inner ++ rest) = 1 + inner.length
  rw [insideLength_append among, ends, Nat.add_zero]

/-- What is measured is the longest string. -/
theorem string (cs : List Char) : IsLongest strings cs (stringLength cs) := by
  have opened := unterminated cs
  rw [stringLength]
  split
  · next found =>
    obtain ⟨positive, closing⟩ := found
    have whole :
        cs.take (unterminatedLength cs + 1) = cs.take (unterminatedLength cs) ++ ['"'] := by
      rw [List.take_add_one, closing]
      rfl
    refine ⟨fun _ => ⟨cs.take (unterminatedLength cs + 1), ?_, List.take_prefix _ cs,
      List.length_take_of_le (List.getElem?_eq_some_iff.mp closing).1⟩, fun text among start => ?_⟩
    · rw [whole]
      exact Language.append_mem_mul (opened.take_mem positive) rfl
    · obtain ⟨first, listed, _, rfl, rfl⟩ := Language.mem_mul.mp among
      have start' := (List.prefix_append first ['"']).trans start
      rw [List.length_append]
      exact Nat.add_le_add_right (opened.length_le first listed start') 1
  · next none =>
    refine ⟨fun positive => absurd positive (Nat.lt_irrefl 0), fun text among start => ?_⟩
    obtain ⟨first, listed, _, rfl, rfl⟩ := Language.mem_mul.mp among
    obtain ⟨rest, rfl⟩ := start
    have length : unterminatedLength (first ++ ['"'] ++ rest) = first.length := by
      rw [List.append_assoc]
      exact unterminatedLength_append listed rfl
    have positive : 0 < first.length := by
      obtain ⟨_, _, rfl⟩ := mem_exactly_mul.mp listed
      exact Nat.succ_pos _
    refine absurd ⟨length ▸ positive, ?_⟩ none
    rw [length, List.append_assoc, List.getElem?_append_right (Nat.le_refl _), Nat.sub_self]
    rfl

end IsLongest

/-- The form computes how long the longest text of the pattern is at the beginning. -/
def Measures (form : Form × (List Char → Nat)) (p : Form × Language Char) : Prop :=
  form.1 = p.1 ∧ ∀ cs, IsLongest p.2 cs (form.2 cs)

/-- The forms compute the lengths of the longest texts of their patterns. -/
theorem forms_measure : List.Forall₂ Measures forms patterns := by
  refine List.rel_append ?_ ?_
  · rw [List.forall₂_map_left_iff, List.forall₂_map_right_iff, List.forall₂_same]
    exact fun kind _ => ⟨rfl, .fixed kind.2.toList⟩
  · exact .cons ⟨rfl, .run_pos isBlank⟩ <| .cons ⟨rfl, .comment⟩ <| .cons ⟨rfl, .docComment⟩ <|
      .cons ⟨rfl, .identifier⟩ <| .cons ⟨rfl, .string⟩ <| .cons ⟨rfl, .unterminated⟩ <|
      .cons ⟨rfl, .run_pos Char.isDigit⟩ .nil

/-- Every form that is tried measures a pattern. -/
theorem exists_measured {form : Form × (List Char → Nat)} (known : form ∈ forms) :
    ∃ p ∈ patterns, Measures form p := by
  obtain ⟨i, inside, rfl⟩ := List.getElem_of_mem known
  obtain ⟨lengths, measured⟩ := List.forall₂_iff_get.mp forms_measure
  exact ⟨_, List.get_mem patterns ⟨i, lengths ▸ inside⟩, measured i inside (lengths ▸ inside)⟩

/-- Which match is the best so far, after another form has been tried. -/
def improve (cs : List Char) (best : Form × Nat) (form : Form × (List Char → Nat)) : Form × Nat :=
  if best.2 < form.2 cs then (form.1, form.2 cs) else best

/-- The longest match is found by trying one form after the other. -/
theorem longest_eq (cs : List Char) : longest cs = forms.foldl (improve cs) (.invalid, 0) := rfl

/-- Among the patterns, the match is that of the first with a longest text at the beginning of the
characters. -/
def IsFirstLongest (cs : List Char) (ps : List (Form × Language Char)) (best : Form × Nat) : Prop :=
  ∃ before l after, ps = before ++ (best.1, l) :: after ∧ IsLongest l cs best.2 ∧
    (∀ p ∈ before, ∀ text ∈ p.2, text <+: cs → text.length < best.2) ∧
    ∀ p ∈ after, ∀ text ∈ p.2, text <+: cs → text.length ≤ best.2

/-- Trying forms one after the other finds the first of the longest matches, unless none is longer
than the best before. -/
theorem foldl_improve {cs : List Char} {fs : List (Form × (List Char → Nat))}
    {ps : List (Form × Language Char)} (measured : List.Forall₂ Measures fs ps)
    (best : Form × Nat) :
    fs.foldl (improve cs) best = best ∧
        (∀ p ∈ ps, ∀ text ∈ p.2, text <+: cs → text.length ≤ best.2) ∨
      best.2 < (fs.foldl (improve cs) best).2 ∧
        IsFirstLongest cs ps (fs.foldl (improve cs) best) := by
  induction measured generalizing best with
  | nil => exact .inl ⟨rfl, nofun⟩
  | @cons form p fs ps first _ ih =>
    have same := first.1
    have longest := first.2 cs
    rw [List.foldl_cons]
    by_cases better : best.2 < form.2 cs
    · rw [improve, if_pos better]
      rcases ih (form.1, form.2 cs) with ⟨stays, below⟩ | ⟨longer, before, l, after, rfl, won⟩
      · rw [stays]
        exact .inr ⟨better, [], p.2, ps, by rw [same, List.nil_append], longest, nofun, below⟩
      · refine .inr ⟨better.trans longer, p :: before, l, after, rfl, won.1, ?_, won.2.2⟩
        exact List.forall_mem_cons.mpr ⟨fun text among start =>
          (longest.length_le text among start).trans_lt longer, won.2.1⟩
    · rw [improve, if_neg better]
      have worse := Nat.le_of_not_lt better
      rcases ih best with ⟨stays, below⟩ | ⟨longer, before, l, after, rfl, won⟩
      · exact .inl ⟨stays, List.forall_mem_cons.mpr ⟨fun text among start =>
          (longest.length_le text among start).trans worse, below⟩⟩
      · refine .inr ⟨longer, p :: before, l, after, rfl, won.1, ?_, won.2.2⟩
        exact List.forall_mem_cons.mpr ⟨fun text among start =>
          ((longest.length_le text among start).trans worse).trans_lt longer, won.2.1⟩

/-- Either no pattern has a text at the beginning, or the match is that of the first pattern with a
longest one. -/
theorem longest_cases (cs : List Char) :
    longest cs = (.invalid, 0) ∧ (∀ p ∈ patterns, ∀ text ∈ p.2, text <+: cs → text = []) ∨
      0 < (longest cs).2 ∧ IsFirstLongest cs patterns (longest cs) := by
  rcases foldl_improve forms_measure (.invalid, 0) with ⟨none, short⟩ | found
  · exact .inl ⟨none, fun p listed text among start =>
      List.length_eq_zero_iff.mp (Nat.le_zero.mp (short p listed text among start))⟩
  · exact .inr found

/-- No pattern has a longer text at the beginning than the longest match. -/
theorem length_le_longest {cs text : List Char} {p : Form × Language Char} (listed : p ∈ patterns)
    (among : text ∈ p.2) (start : text <+: cs) : text.length ≤ (longest cs).2 := by
  rcases longest_cases cs with ⟨_, none⟩ | ⟨_, before, l, after, whole, longest, shorter, below⟩
  · rw [none p listed text among start]
    exact Nat.zero_le _
  · rw [whole] at listed
    rcases List.mem_append.mp listed with first | rest
    · exact (shorter p first text among start).le
    · rcases List.mem_cons.mp rest with rfl | last
      · exact longest.length_le text among start
      · exact below p last text among start

/-- What is matched is a text of the pattern of its form. -/
theorem exists_pattern_of_longest {cs : List Char} (matched : 0 < (longest cs).2) :
    ∃ l, ((longest cs).1, l) ∈ patterns ∧ cs.take (longest cs).2 ∈ l := by
  rcases longest_cases cs with ⟨none, _⟩ | ⟨_, before, l, after, whole, longest, _⟩
  · rw [none] at matched
    exact absurd matched (Nat.lt_irrefl 0)
  · exact ⟨l, whole ▸ List.mem_append_right before List.mem_cons_self, longest.take_mem matched⟩

/-- A match is not longer than what there is. -/
theorem longest_le_length (cs : List Char) : (longest cs).2 ≤ cs.length := by
  rcases longest_cases cs with ⟨none, _⟩ | ⟨_, _, _, _, _, longest, _⟩
  · rw [none]
    exact Nat.zero_le _
  · exact longest.le_length

/-- A form is that of a match. -/
theorem longest_pos {cs : List Char} (h : (longest cs).1 ≠ .invalid) : 0 < (longest cs).2 := by
  rcases longest_cases cs with ⟨none, _⟩ | ⟨matched, _⟩
  · exact absurd (congrArg Prod.fst none) h
  · exact matched

/-- Pieces of a source: each takes as many characters as the longest match at its place, but at
least one, and the others are pieces of the rest. -/
inductive Cut : List Char → List Piece → Prop where
  | nil : Cut [] []
  | cons {text rest : List Char} {ps : List Piece}
      (size : text.length = max 1 (longest (text ++ rest)).2) (more : Cut rest ps) :
      Cut (text ++ rest) (⟨(longest (text ++ rest)).1, text⟩ :: ps)

/-- The pieces are a cut of the source. -/
theorem cut_pieces (cs : List Char) : Cut cs (pieces cs) := by
  induction cs using pieces.induct with
  | case1 =>
    rw [pieces]
    exact .nil
  | case2 c cs form n found ih =>
    have whole : c :: cs.take (n - 1) ++ cs.drop (n - 1) = c :: cs :=
      congrArg (c :: ·) (List.take_append_drop (n - 1) cs)
    have bound : n ≤ cs.length + 1 := by
      have := longest_le_length (c :: cs)
      rwa [found] at this
    have size : (c :: cs.take (n - 1)).length = max 1 n := by
      rw [List.length_cons, List.length_take_of_le (by omega)]
      omega
    have first : Cut (c :: cs.take (n - 1) ++ cs.drop (n - 1)) _ :=
      .cons (by rw [whole, found, size]) ih
    rw [whole, found] at first
    rw [pieces, found]
    exact first

section Piece

variable {text rest : List Char}

/-- A piece has at least one character. -/
theorem ne_nil_of_size (size : text.length = max 1 (longest (text ++ rest)).2) : text ≠ [] := by
  rintro rfl
  have := Nat.le_max_left 1 (longest ([] ++ rest)).2
  rw [← size] at this
  exact absurd this (Nat.not_succ_le_zero 0)

/-- A piece with a form is the longest match. -/
theorem length_eq_longest (size : text.length = max 1 (longest (text ++ rest)).2)
    (valid : (longest (text ++ rest)).1 ≠ .invalid) : text.length = (longest (text ++ rest)).2 :=
  size.trans (max_eq_right (longest_pos valid))

/-- A piece of a form with one pattern is a text of that pattern. -/
theorem mem_of_longest (size : text.length = max 1 (longest (text ++ rest)).2) {form : Form}
    {l : Language Char} (h : (longest (text ++ rest)).1 = form) (valid : form ≠ .invalid)
    (only : ∀ m, (form, m) ∈ patterns → m = l) : text ∈ l := by
  have matched := length_eq_longest size (h ▸ valid)
  obtain ⟨m, listed, among⟩ := exists_pattern_of_longest (longest_pos (h ▸ valid))
  rw [← matched, List.take_left] at among
  exact only m (h ▸ listed) ▸ among

end Piece

end CombinatorGrammar.Lkt
