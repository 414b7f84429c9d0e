import CombinatorGrammar.Text.Bytes

/-!
# Byte lengths and slices

The parts that make up a text are its slices, and only they are: an offset at which a slice begins
or ends has whole characters before it.
-/

namespace CombinatorGrammar.Text

/-- The bytes of a whole are those of its parts. -/
theorem byteLength_append (cs cs' : List Char) :
    byteLength (cs ++ cs') = byteLength cs + byteLength cs' := by
  induction cs with
  | nil => exact (Nat.zero_add _).symm
  | cons c cs ih =>
    change c.utf8Size + byteLength (cs ++ cs') = c.utf8Size + byteLength cs + byteLength cs'
    rw [ih, Nat.add_assoc]

/-- Every character has bytes. -/
theorem byteLength_pos {cs : List Char} (h : cs ≠ []) : 0 < byteLength cs := by
  cases cs with
  | nil => exact absurd rfl h
  | cons c cs => exact Nat.add_pos_left c.utf8Size_pos _

/-- There are at least as many bytes as characters. -/
theorem length_le_byteLength (cs : List Char) : cs.length ≤ byteLength cs := by
  induction cs with
  | nil => exact Nat.le_refl 0
  | cons c cs ih =>
    have positive := c.utf8Size_pos
    have size : byteLength (c :: cs) = c.utf8Size + byteLength cs := rfl
    rw [List.length_cons, size]
    omega

/-- There are as many bytes as characters only if each character is one byte. -/
theorem byteLength_eq_length_iff {cs : List Char} :
    byteLength cs = cs.length ↔ ∀ c ∈ cs, c.utf8Size = 1 := by
  induction cs with
  | nil => simp [byteLength]
  | cons c cs ih =>
    have positive := c.utf8Size_pos
    have atLeast := length_le_byteLength cs
    have size : byteLength (c :: cs) = c.utf8Size + byteLength cs := rfl
    rw [List.forall_mem_cons, ← ih, size, List.length_cons]
    omega

/-- Copies of a character have as many bytes each. -/
theorem byteLength_replicate (n : Nat) (c : Char) :
    byteLength (List.replicate n c) = n * c.utf8Size := by
  induction n with
  | zero => exact (Nat.zero_mul _).symm
  | succ n ih =>
    have size : byteLength (c :: List.replicate n c) =
      c.utf8Size + byteLength (List.replicate n c) := rfl
    rw [List.replicate_succ, size, ih, Nat.succ_mul, Nat.add_comm]

/-- Copies of a character of one byte have as many bytes as there are copies. -/
theorem byteLength_replicate_narrow {c : Char} (narrow : c.utf8Size = 1) (n : Nat) :
    byteLength (List.replicate n c) = n := by
  rw [byteLength_replicate, narrow, Nat.mul_one]

/-- Leaving out characters leaves out bytes. -/
theorem byteLength_le_of_sublist {cs cs' : List Char} (h : cs.Sublist cs') :
    byteLength cs ≤ byteLength cs' := by
  induction h with
  | slnil => exact Nat.le_refl _
  | cons c _ ih => exact Nat.le_trans ih (Nat.le_add_left _ _)
  | cons_cons c _ ih => exact Nat.add_le_add_left ih _

/-- The size of a string counts the bytes of the characters that it is made of. -/
theorem utf8ByteSize_ofList (cs : List Char) : (String.ofList cs).utf8ByteSize = byteLength cs := by
  induction cs with
  | nil => rfl
  | cons c cs ih =>
    rw [String.utf8ByteSize, String.toByteArray_ofList] at ih ⊢
    rw [List.utf8Encode_cons, ByteArray.size_append, ih, List.utf8Encode_singleton,
      List.size_toByteArray, String.length_utf8EncodeChar]
    rfl

/-- The size of a source counts the bytes of its characters. -/
theorem utf8ByteSize_eq (source : String) : source.utf8ByteSize = byteLength source.toList := by
  rw [← utf8ByteSize_ofList, String.ofList_toList]

/-- Pushing a character again and again appends so many of it. -/
theorem toList_pushn (s : String) (c : Char) (n : Nat) :
    (s.pushn c n).toList = s.toList ++ List.replicate n c := by
  rw [String.pushn_eq_repeat_push]
  induction n with
  | zero => exact (List.append_nil _).symm
  | succ n ih => rw [Nat.repeat, String.toList_push, ih, List.append_assoc, List.replicate_succ']

/-- A part of a source is the slice at its place. -/
theorem slice?_append (before part after : List Char) :
    slice? (before ++ (part ++ after)) (byteLength before) (byteLength before + byteLength part) =
      some part := by
  rw [slice?, splitBytes?_eq_some_iff.mpr ⟨rfl, rfl⟩, Nat.add_sub_cancel_left]
  exact congrArg (fun parts => parts >>= fun parts => pure parts.1)
    (splitBytes?_eq_some_iff.mpr ⟨rfl, rfl⟩)

/-- A slice is over before the end. -/
theorem stop_le_of_slice? {cs part : List Char} {start stop : Nat} (ordered : start ≤ stop)
    (h : slice? cs start stop = some part) : stop ≤ byteLength cs := by
  obtain ⟨⟨before, rest⟩, first, h⟩ := Option.bind_eq_some_iff.mp h
  obtain ⟨⟨part, after⟩, second, _⟩ := Option.bind_eq_some_iff.mp h
  obtain ⟨rfl, front⟩ := splitBytes?_eq_some_iff.mp first
  obtain ⟨rfl, size⟩ := splitBytes?_eq_some_iff.mp second
  rw [byteLength_append, byteLength_append, front, size]
  omega

end CombinatorGrammar.Text
