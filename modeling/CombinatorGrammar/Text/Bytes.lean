/-!
# Characters and bytes

Offsets into a source count the bytes of its UTF-8 form, while a text is a list of characters.
Splitting after a number of bytes has an answer exactly when that many bytes make up whole
characters.
-/

namespace CombinatorGrammar.Text

/-- The number of bytes of some characters. -/
def byteLength (cs : List Char) : Nat := cs.foldr (fun c n => c.utf8Size + n) 0

/-- The characters that make up the first `n` bytes, and the rest. -/
def splitBytes? : Nat → List Char → Option (List Char × List Char)
  | 0, cs => some ([], cs)
  | _ + 1, [] => none
  | n + 1, c :: cs =>
    if c.utf8Size ≤ n + 1 then
      (splitBytes? (n + 1 - c.utf8Size) cs).map fun parts => (c :: parts.1, parts.2)
    else none

/-- The characters from one byte offset up to another. -/
def slice? (cs : List Char) (start stop : Nat) : Option (List Char) := do
  let (_, rest) ← splitBytes? start cs
  let (part, _) ← splitBytes? (stop - start) rest
  return part

/-- The parts that `splitBytes?` answers make up the whole, and the first has `n` bytes. -/
theorem splitBytes?_eq_some_iff {n : Nat} {cs before after : List Char} :
    splitBytes? n cs = some (before, after) ↔ cs = before ++ after ∧ byteLength before = n := by
  induction cs generalizing n before with
  | nil =>
    cases n with
    | zero =>
      simp only [splitBytes?, Option.some.injEq, Prod.mk.injEq, List.nil_eq, List.append_eq_nil_iff]
      constructor
      · rintro ⟨rfl, rfl⟩
        exact ⟨⟨rfl, rfl⟩, rfl⟩
      · rintro ⟨⟨rfl, rfl⟩, -⟩
        exact ⟨rfl, rfl⟩
    | succ n =>
      simp only [splitBytes?, List.nil_eq, List.append_eq_nil_iff, false_iff, not_and,
        reduceCtorEq]
      rintro ⟨rfl, rfl⟩
      simp [byteLength]
  | cons c cs ih =>
    have positive := c.utf8Size_pos
    cases n with
    | zero =>
      simp only [splitBytes?, Option.some.injEq, Prod.mk.injEq]
      constructor
      · rintro ⟨rfl, rfl⟩
        exact ⟨rfl, rfl⟩
      · rintro ⟨whole, size⟩
        cases before with
        | nil => exact ⟨rfl, whole⟩
        | cons b bs =>
          have := b.utf8Size_pos
          simp only [byteLength, List.foldr_cons] at size
          omega
    | succ n =>
      rw [splitBytes?]
      split
      · next fits =>
        simp only [Option.map_eq_some_iff, Prod.mk.injEq, Prod.exists]
        constructor
        · rintro ⟨b, a, split, rfl, rfl⟩
          obtain ⟨rfl, size⟩ := ih.mp split
          refine ⟨rfl, ?_⟩
          simp only [byteLength, List.foldr_cons] at size ⊢
          omega
        · rintro ⟨whole, size⟩
          cases before with
          | nil => simp [byteLength] at size
          | cons b bs =>
            obtain ⟨rfl, rest⟩ := List.cons.inj whole
            simp only [byteLength, List.foldr_cons] at size
            refine ⟨bs, after, ih.mpr ⟨rest, ?_⟩, rfl, rfl⟩
            unfold byteLength
            omega
      · next beyond =>
        simp only [false_iff, not_and, reduceCtorEq]
        intro whole size
        cases before with
        | nil => simp [byteLength] at size
        | cons b bs =>
          obtain ⟨rfl, -⟩ := List.cons.inj whole
          simp only [byteLength, List.foldr_cons] at size
          omega

end CombinatorGrammar.Text
