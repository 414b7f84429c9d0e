import CombinatorGrammar.Text.Quoted

/-!
# Quoted texts are on one line and can be read back

A character is shown as itself, as a backslash and a letter, or as a code point in braces. The first
characters tell which, so no quoted character begins another, and texts that are quoted alike are
the same.
-/

namespace CombinatorGrammar.Text

/-- What stands in front of the first mark is the same where the wholes are the same. -/
theorem append_cons_inj_of_not_mem {α : Type} {mark : α} {as bs xs ys : List α} (first : mark ∉ as)
    (second : mark ∉ bs) (h : as ++ mark :: xs = bs ++ mark :: ys) : as = bs ∧ xs = ys := by
  induction as generalizing bs with
  | nil =>
    cases bs with
    | nil => exact ⟨rfl, (List.cons.inj h).2⟩
    | cons b bs => exact absurd ((List.cons.inj h).1 ▸ List.mem_cons_self) second
  | cons a as ih =>
    cases bs with
    | nil => exact absurd ((List.cons.inj h).1 ▸ List.mem_cons_self) first
    | cons b bs =>
      obtain ⟨rfl, rest⟩ := List.cons.inj h
      obtain ⟨rfl, same⟩ := ih (fun among => first (List.mem_cons_of_mem _ among))
        (fun among => second (List.mem_cons_of_mem _ among)) rest
      exact ⟨rfl, same⟩

section Digits

/-- Hexadecimal digits differ in their characters. -/
theorem digitChar_inj {n m : Nat} (small : n < 16) (small' : m < 16)
    (h : n.digitChar = m.digitChar) : n = m := by
  have all : ∀ i j : Fin 16, i.val.digitChar = j.val.digitChar → i = j := by decide
  exact congrArg Fin.val (all ⟨n, small⟩ ⟨m, small'⟩ h)

/-- Hexadecimal digits tell the number. -/
theorem toDigits_injective : Function.Injective (Nat.toDigits 16) := by
  intro n
  induction n using Nat.strongRecOn with
  | ind n ih =>
    intro m h
    have nonempty (k : Nat) : Nat.toDigits 16 k ≠ [] := Nat.toDigits_ne_nil
    rw [Nat.toDigits_eq_if (by decide), Nat.toDigits_eq_if (n := m) (by decide)] at h
    by_cases small : n < 16 <;> by_cases small' : m < 16
    · rw [if_pos small, if_pos small'] at h
      exact digitChar_inj small small' (List.singleton_inj.mp h)
    · rw [if_pos small, if_neg small', ← List.nil_append [n.digitChar]] at h
      exact absurd (List.append_inj' h rfl).1.symm (nonempty _)
    · rw [if_neg small, if_pos small', ← List.nil_append [m.digitChar]] at h
      exact absurd (List.append_inj' h rfl).1 (nonempty _)
    · rw [if_neg small, if_neg small'] at h
      obtain ⟨front, last⟩ := List.append_inj' h rfl
      have quotients := ih (n / 16) (by omega) front
      have remainders := digitChar_inj (Nat.mod_lt n (by decide)) (Nat.mod_lt m (by decide))
        (List.singleton_inj.mp last)
      omega

/-- Whatever stands in a hexadecimal number is a digit. -/
theorem exists_digitChar_of_mem {n : Nat} {c : Char} (h : c ∈ Nat.toDigits 16 n) :
    ∃ k, c = Nat.digitChar k := by
  induction n using Nat.strongRecOn with
  | ind n ih =>
    rw [Nat.toDigits_eq_if (by decide)] at h
    split at h
    · exact ⟨n, List.mem_singleton.mp h⟩
    · rcases List.mem_append.mp h with front | last
      · exact ih (n / 16) (by omega) front
      · exact ⟨n % 16, List.mem_singleton.mp last⟩

end Digits

/-- The characters with a letter of their own behind a backslash. -/
def letters : List (Char × Char) :=
  [('\x00', '0'), ('\t', 't'), ('\r', 'r'), ('\n', 'n'), ('"', '"'), ('\\', '\\')]

/-- The forms that a quoted character has. -/
inductive QuotedAs : Char → List Char → Prop
  | itself {c : Char} : c ≠ '\\' → c ≠ '\n' → QuotedAs c [c]
  | letter {c l : Char} : (c, l) ∈ letters → QuotedAs c ['\\', l]
  | codePoint (c : Char) :
      QuotedAs c ('\\' :: 'u' :: '\x7b' :: (Nat.toDigits 16 c.toNat ++ ['\x7d']))

/-- A character is quoted in one of the ways characters are. -/
theorem quotedAs_quotedChar (c : Char) : QuotedAs c (quotedChar c).toList := by
  unfold quotedChar
  by_cases zero : c = '\x00'
  · rw [if_pos zero]
    exact .letter (zero ▸ by decide)
  by_cases tab : c = '\t'
  · rw [if_neg zero, if_pos tab]
    exact .letter (tab ▸ by decide)
  by_cases carriage : c = '\r'
  · rw [if_neg zero, if_neg tab, if_pos carriage]
    exact .letter (carriage ▸ by decide)
  by_cases newline : c = '\n'
  · rw [if_neg zero, if_neg tab, if_neg carriage, if_pos newline]
    exact .letter (newline ▸ by decide)
  by_cases quote : c = '"'
  · rw [if_neg zero, if_neg tab, if_neg carriage, if_neg newline, if_pos quote]
    exact .letter (quote ▸ by decide)
  by_cases backslash : c = '\\'
  · rw [if_neg zero, if_neg tab, if_neg carriage, if_neg newline, if_neg quote, if_pos backslash]
    exact .letter (backslash ▸ by decide)
  rw [if_neg zero, if_neg tab, if_neg carriage, if_neg newline, if_neg quote, if_neg backslash]
  split
  · have code := QuotedAs.codePoint c
    simpa [escapedCodePoint, hexadecimal] using code
  · have shown := QuotedAs.itself backslash newline
    simpa [Char.toString] using shown

section Forms

variable {c c' : Char} {cs cs' r r' : List Char}

/-- What is no digit does not stand in a number. -/
theorem not_mem_toDigits {n : Nat} {c : Char} (h : ∀ k, Nat.digitChar k ≠ c) :
    c ∉ Nat.toDigits 16 n := by
  intro among
  obtain ⟨k, same⟩ := exists_digitChar_of_mem among
  exact h k same.symm

/-- No quoted character begins another. -/
theorem QuotedAs.unique (h : QuotedAs c cs) (h' : QuotedAs c' cs') (same : cs ++ r = cs' ++ r') :
    c = c' ∧ r = r' := by
  have letter_inj : ∀ p ∈ letters, ∀ q ∈ letters, p.2 = q.2 → p.1 = q.1 := by decide
  have letter_ne : ∀ p ∈ letters, p.2 ≠ 'u' := by decide
  cases h with
  | itself plain _ =>
    cases h' with
    | itself _ _ => exact List.cons.inj same
    | letter _ => exact absurd (List.cons.inj same).1 plain
    | codePoint => exact absurd (List.cons.inj same).1 plain
  | letter listed =>
    cases h' with
    | itself plain _ => exact absurd (List.cons.inj same).1.symm plain
    | letter listed' =>
      obtain ⟨letters, rest⟩ := List.cons.inj (List.cons.inj same).2
      exact ⟨letter_inj _ listed _ listed' letters, rest⟩
    | codePoint => exact absurd (List.cons.inj (List.cons.inj same).2).1 (letter_ne _ listed)
  | codePoint =>
    cases h' with
    | itself plain _ => exact absurd (List.cons.inj same).1.symm plain
    | letter listed' =>
      exact absurd (List.cons.inj (List.cons.inj same).2).1.symm (letter_ne _ listed')
    | codePoint =>
      have digits : Nat.toDigits 16 c.toNat ++ ['\x7d'] ++ r =
          Nat.toDigits 16 c'.toNat ++ ['\x7d'] ++ r' :=
        (List.cons.inj (List.cons.inj (List.cons.inj same).2).2).2
      rw [List.append_assoc, List.append_assoc, List.singleton_append, List.singleton_append]
        at digits
      have brace (n : Nat) : '\x7d' ∉ Nat.toDigits 16 n :=
        not_mem_toDigits fun k => Nat.digitChar_ne _ (by decide)
      obtain ⟨numbers, rest⟩ := append_cons_inj_of_not_mem (brace _) (brace _) digits
      exact ⟨Char.toNat_inj.mp (toDigits_injective numbers), rest⟩

/-- A quoted character has no line break. -/
theorem QuotedAs.newline_not_mem (h : QuotedAs c cs) : '\n' ∉ cs := by
  cases h with
  | itself _ other => simpa using Ne.symm other
  | letter listed =>
    have plain : ∀ p ∈ letters, p.2 ≠ '\n' := by decide
    simpa using Ne.symm (plain _ listed)
  | codePoint =>
    have digits : '\n' ∉ Nat.toDigits 16 c.toNat :=
      not_mem_toDigits fun k => Nat.digitChar_ne _ (by decide)
    simpa using digits

theorem QuotedAs.ne_nil (h : QuotedAs c cs) : cs ≠ [] := by
  cases h <;> exact List.cons_ne_nil _ _

end Forms

/-- A quoted text is its quoted characters between quotation marks. -/
theorem toList_quoted (text : String) :
    (quoted text).toList =
      '"' :: (text.toList.flatMap fun c => (quotedChar c).toList) ++ ['"'] := by
  rw [quoted, String.toList_append, String.toList_append, String.toList_join, List.flatMap_map]
  rfl

/-- A quoted text is on one line. -/
theorem newline_not_mem_quoted (text : String) : '\n' ∉ (quoted text).toList := by
  have none : '\n' ∉ text.toList.flatMap fun c => (quotedChar c).toList := by
    intro among
    obtain ⟨c, _, among⟩ := List.mem_flatMap.mp among
    exact (quotedAs_quotedChar c).newline_not_mem among
  rw [toList_quoted]
  simpa using none

/-- Texts that are quoted alike are the same. -/
theorem quoted_injective : Function.Injective quoted := by
  have contents : ∀ cs cs' : List Char,
      (cs.flatMap fun c => (quotedChar c).toList) = (cs'.flatMap fun c => (quotedChar c).toList) →
        cs = cs' := by
    intro cs
    induction cs with
    | nil =>
      rintro (_ | ⟨c, cs⟩) same
      · rfl
      · exact absurd (List.append_eq_nil_iff.mp same.symm).1 (quotedAs_quotedChar c).ne_nil
    | cons c cs ih =>
      rintro (_ | ⟨c', cs'⟩) same
      · exact absurd (List.append_eq_nil_iff.mp same).1 (quotedAs_quotedChar c).ne_nil
      · obtain ⟨rfl, rest⟩ := (quotedAs_quotedChar c).unique (quotedAs_quotedChar c') same
        exact congrArg (c :: ·) (ih cs' rest)
  intro text text' same
  have lists := congrArg String.toList same
  rw [toList_quoted, toList_quoted] at lists
  exact String.toList_inj.mp (contents _ _ (List.append_cancel_right (List.cons.inj lists).2))

end CombinatorGrammar.Text
