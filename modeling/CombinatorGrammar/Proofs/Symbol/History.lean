import CombinatorGrammar.Proofs.Listing.Sameness
import CombinatorGrammar.Proofs.Renaming.Resolution
import CombinatorGrammar.Proofs.Symbol.Embedding
import Mathlib.Data.List.Dedup

/-!
# Histories of interners

All that an interner ever answers is settled by the texts that it was asked for, in turn: it gives
a name to each of them and to the empty text, and to no other text. What is interned later does not
change any of these names, so a grammar that is resolved over the same interner again becomes the
same program.
-/

namespace CombinatorGrammar

namespace Interner

/-- The names that are answered when texts are interned in turn. -/
def answers (names : Interner) : List String → List Name
  | [] => []
  | text :: texts => (names.intern text).1 :: (names.intern text).2.answers texts

variable {names later : Interner} {calls : List String} {given : List Name} {n : Name}
  {text : String}

/-- A text is found exactly with the name that gives it. -/
theorem find?_eq_some_iff_gives : names.find? text = some n ↔ names.Gives n text := by
  rw [Gives, ← SymbolTable.find?_eq_some_iff, find?, Option.map_eq_some_iff]
  constructor
  · rintro ⟨_, found, rfl⟩
    exact found
  · intro found
    exact ⟨n.index, found, rfl⟩

/-- Interning a text gives no name to another one. -/
theorem gives_or_eq_of_gives_intern {asked : String} (h : (names.intern asked).2.Gives n text) :
    names.Gives n text ∨ text = asked := by
  cases found : names.table.find? asked with
  | some i =>
    simp only [Gives, intern, SymbolTable.insert_of_find? found] at h
    exact .inl h
  | none =>
    obtain ⟨-, entries⟩ := SymbolTable.entries_insert_of_find? found
    simp only [Gives, intern, SymbolTable.get?, entries, Array.getElem?_push] at h
    split at h
    · exact .inr (Option.some.inj h).symm
    · exact .inl h

/-- The names given out are those below the size. -/
theorem index_lt_size_iff : n.index < names.size ↔ ∃ text, names.Gives n text := by
  constructor
  · intro inside
    exact ⟨_, Array.getElem?_eq_getElem inside⟩
  · rintro ⟨text, given⟩
    exact (Array.getElem?_eq_some_iff.mp given).1

/-- The texts of an interner are those its names give. -/
theorem mem_texts : text ∈ names.texts ↔ ∃ n, names.Gives n text := by
  rw [texts, List.mem_iff_getElem?]
  constructor
  · rintro ⟨i, at_i⟩
    exact ⟨⟨i⟩, Array.getElem?_toList.symm.trans at_i⟩
  · rintro ⟨n, given⟩
    exact ⟨n.index, Array.getElem?_toList.trans given⟩

/-- No text is listed twice, as a text has one name. -/
theorem nodup_texts (names : Interner) : names.texts.Nodup := by
  rw [List.nodup_iff_getElem?_ne_getElem?]
  intro i j before inside same
  obtain ⟨text, given⟩ : ∃ text, names.Gives ⟨i⟩ text :=
    index_lt_size_iff.mp (before.trans inside)
  rw [texts, Array.getElem?_toList, Array.getElem?_toList] at same
  have one : Name.mk j = Name.mk i := given.name_eq (same.symm.trans given)
  injection one with one
  omega

/-- The interner was asked for these texts in turn, starting new, and answered these names. -/
structure Answered (names : Interner) (calls : List String) (given : List Name) : Prop where
  /-- Each text has the name that was answered for it. -/
  gives : List.Forall₂ (fun text n => names.Gives n text) calls given
  /-- Only the empty text has a name without having been asked for. -/
  asked : ∀ ⦃n : Name⦄ ⦃text : String⦄, names.Gives n text → text ∈ "" :: calls

theorem answered_initial : initial.Answered [] [] where
  gives := .nil
  asked := by
    intro n text given
    have inside : n.index < initial.size := index_lt_size_iff.mpr ⟨text, given⟩
    obtain rfl : n = .empty := congrArg Name.mk (Nat.lt_one_iff.mp inside)
    exact List.mem_singleton.mpr (initial.gives_empty.text_eq given)

namespace Answered

variable (h : names.Answered calls given)
include h

/-- One more call has its answer, and leaves the earlier ones. -/
theorem intern (text : String) :
    (names.intern text).2.Answered (calls ++ [text]) (given ++ [(names.intern text).1]) where
  gives := List.rel_append (h.gives.imp fun _ _ known => Grows.intern names text known)
    (.cons (names.gives_intern text) .nil)
  asked := by
    intro n text' known
    rw [← List.cons_append]
    rcases gives_or_eq_of_gives_intern known with before | rfl
    · exact List.mem_append_left _ (h.asked before)
    · exact List.mem_append_right _ (List.mem_singleton_self _)

/-- So have any number of calls. -/
theorem internAll (more : List String) :
    (names.internAll more).Answered (calls ++ more) (given ++ names.answers more) := by
  induction more generalizing names calls given with
  | nil =>
    rw [answers, List.append_nil, List.append_nil]
    exact h
  | cons text more ih =>
    rw [answers, List.append_cons calls, List.append_cons given]
    exact ih (h.intern text)

/-- The names given read back as the texts asked for. -/
theorem map_text (grows : names.Grows later) : given.map later.text = calls := by
  have gives := h.gives
  clear h
  induction gives with
  | nil => rfl
  | cons known _ ih => rw [List.map_cons, text_of_gives (grows known), ih]

/-- Every text asked for is found with the name given for it. -/
theorem map_find? : calls.map names.find? = given.map some := by
  have gives := h.gives
  clear h
  induction gives with
  | nil => rfl
  | cons known _ ih => rw [List.map_cons, find?_eq_some_iff_gives.mpr known, ih, List.map_cons]

/-- Two calls have the same answer just if they ask for the same text. -/
theorem getElem?_eq_iff (i j : Nat) : given[i]? = given[j]? ↔ calls[i]? = calls[j]? := by
  constructor
  · intro same
    rw [← h.map_text (.refl names), List.getElem?_map, List.getElem?_map, same]
  · intro same
    have found : (given.map some)[i]? = (given.map some)[j]? := by
      rw [← h.map_find?, List.getElem?_map, List.getElem?_map, same]
    rw [List.getElem?_map, List.getElem?_map] at found
    exact Option.map_injective (Option.some_injective Name) found

/-- The names of the interner are those that were answered, for the texts that were asked for. -/
theorem gives_iff : names.Gives n text ↔ (text, n) ∈ ("", .empty) :: calls.zip given := by
  have all : List.Forall₂ (fun text n => names.Gives n text) ("" :: calls) (.empty :: given) :=
    .cons names.gives_empty h.gives
  have sound {text : String} {n : Name} (listed : (text, n) ∈ ("" :: calls).zip (.empty :: given)) :
      names.Gives n text :=
    List.forall₂_zip all listed
  constructor
  · intro known
    have paired : (("" :: calls).zip (Name.empty :: given)).map Prod.fst = "" :: calls :=
      List.map_fst_zip all.length_eq.le
    have among := h.asked known
    rw [← paired] at among
    obtain ⟨⟨_, m⟩, listed, rfl⟩ := List.mem_map.mp among
    rwa [known.name_eq (sound listed)] at listed
  · exact sound

/-- Exactly the texts asked for are found, and the empty one. -/
theorem isSome_find?_iff : (names.find? text).isSome ↔ text ∈ "" :: calls := by
  rw [Option.isSome_iff_exists]
  constructor
  · rintro ⟨n, found⟩
    exact h.asked (find?_eq_some_iff_gives.mp found)
  · intro among
    rcases List.mem_cons.mp among with rfl | called
    · exact ⟨.empty, find?_eq_some_iff_gives.mpr names.gives_empty⟩
    · have listed : names.find? text ∈ given.map some := h.map_find? ▸ List.mem_map_of_mem called
      obtain ⟨n, -, found⟩ := List.mem_map.mp listed
      exact ⟨n, found.symm⟩

/-- The interner has as many texts as different ones were asked for, with the empty text. -/
theorem size_eq : names.size = ("" :: calls).dedup.length := by
  have listed (text : String) : text ∈ names.texts ↔ text ∈ ("" :: calls).dedup := by
    rw [mem_texts, List.mem_dedup, ← h.isSome_find?_iff, Option.isSome_iff_exists]
    exact exists_congr fun n => find?_eq_some_iff_gives.symm
  exact ((List.perm_ext_iff_of_nodup names.nodup_texts (List.nodup_dedup _)).mpr listed).length_eq

/-- The numbers below the size are those of the names that were answered, and that of the empty
text. -/
theorem index_lt_size_iff_mem : n.index < names.size ↔ n ∈ .empty :: given := by
  rw [index_lt_size_iff]
  constructor
  · rintro ⟨text, known⟩
    rcases List.mem_cons.mp (h.gives_iff.mp known) with first | listed
    · exact List.mem_cons.mpr (.inl (Prod.ext_iff.mp first).2)
    · exact List.mem_cons_of_mem _ (List.of_mem_zip listed).2
  · intro among
    rcases List.mem_cons.mp among with rfl | answered
    · exact ⟨"", names.gives_empty⟩
    · have listed : some n ∈ calls.map names.find? := h.map_find? ▸ List.mem_map_of_mem answered
      obtain ⟨text, -, found⟩ := List.mem_map.mp listed
      exact ⟨text, find?_eq_some_iff_gives.mp found⟩

end Answered

/-- What a new interner answers when it is asked for texts in turn. -/
theorem answered (calls : List String) :
    (initial.internAll calls).Answered calls (initial.answers calls) :=
  answered_initial.internAll calls

end Interner

/-- A program is the same as itself. -/
theorem Program.same_self (p : Program) : p.same p = true := by
  simp only [Program.same, Schema.same, beq_self_eq_true, Bool.and_self]

/-- A grammar that is resolved again, over the interner of its program in which other texts may have
been interned since, becomes the same program, and no text gets a name that had none. -/
theorem Grammar.resolve_again {g : Grammar} {names known : Interner} {p : Program}
    (resolved : g.resolve names = .ok (p, known)) (others : List String) :
    g.resolve (known.internAll others) = .ok (p, known.internAll others) := by
  obtain ⟨rfl, -⟩ := resolve_eq_ok resolved
  have given {text : String} (among : text ∈ g.texts) :
      ∃ n, (names.internAll g.texts).Gives n text ∧
        ((names.internAll g.texts).internAll others).Gives n text := by
    obtain ⟨n, known⟩ := names.gives_internAll among
    exact ⟨n, known, Interner.Grows.internAll _ others known⟩
  have kept : ((names.internAll g.texts).internAll others).internAll g.texts =
      (names.internAll g.texts).internAll others :=
    Interner.internAll_eq_self fun _ among => (given among).imp fun _ known => known.2
  have same : ∀ text ∈ g.texts,
      ((((names.internAll g.texts).internAll others).internAll g.texts).intern text).1 =
        id ((names.internAll g.texts).intern text).1 := by
    intro text among
    obtain ⟨n, first, second⟩ := given among
    rw [kept, first.intern_fst, second.intern_fst, id]
  rw [resolve_rename same, resolved, kept, Except.map, Program.rename_id]

/-- An interner that was asked for texts in turn has answered names that are faithful and stable. -/
structure Interner.Faithful (now : Interner) (calls : List String) (given : List Name) : Prop where
  /-- Two calls have the same answer just if they ask for the same text. -/
  same_iff : ∀ i j : Nat, given[i]? = given[j]? ↔ calls[i]? = calls[j]?
  /-- The answers are names of the texts, whatever is interned later. -/
  text_eq : ∀ later : List String, given.map (now.internAll later).text = calls
  /-- A text is found just if it was asked for, or is empty. -/
  found_iff : ∀ text, (now.find? text).isSome ↔ text ∈ "" :: calls
  /-- What is found for a text is the name that was answered for it. -/
  found_eq_iff : ∀ text n, now.find? text = some n ↔ (text, n) ∈ ("", .empty) :: calls.zip given
  /-- The empty text always has the first name. -/
  empty : now.find? "" = some ⟨0⟩ ∧ (now.intern "").1 = ⟨0⟩ ∧ now.text ⟨0⟩ = ""
  /-- There are as many names as different texts, and the numbers below that are all in use. -/
  dense : now.size = ("" :: calls).dedup.length ∧
    ∀ n : Name, n.index < now.size ↔ n ∈ .empty :: given
  /-- A grammar that is resolved again becomes the same program, whatever was interned since. -/
  resolved_again : ∀ (g : Grammar) (p : Program) (known : Interner),
    g.resolve now = .ok (p, known) → ∀ others : List String, ∃ q latest,
      g.resolve (known.internAll others) = .ok (q, latest) ∧ p.same q = true ∧ q = p

/-- Whatever texts a new interner is asked for in turn, its answers are faithful and stable. -/
theorem Interner.names_faithful (calls : List String) :
    (initial.internAll calls).Faithful calls (initial.answers calls) where
  same_iff := (answered calls).getElem?_eq_iff
  text_eq later := (answered calls).map_text (.internAll _ later)
  found_iff _ := (answered calls).isSome_find?_iff
  found_eq_iff _ _ := find?_eq_some_iff_gives.trans (answered calls).gives_iff
  empty :=
    have empty := (initial.internAll calls).gives_empty
    ⟨find?_eq_some_iff_gives.mpr empty, empty.intern_fst, text_of_gives empty⟩
  dense := ⟨(answered calls).size_eq, fun _ => (answered calls).index_lt_size_iff_mem⟩
  resolved_again _ p _ resolved others :=
    ⟨p, _, Grammar.resolve_again resolved others, p.same_self, rfl⟩

/-- A grammar that asks for a text which has a name already, resolved once more after another text
has got one. -/
theorem Interner.names_faithful_asking_for_x :
    let now := initial.internAll ["x", "y", "x"]
    initial.answers ["x", "y", "x"] = [⟨1⟩, ⟨2⟩, ⟨1⟩] ∧
    ∃ p known, (askingFor "x").resolve now = .ok (p, known) ∧ ∃ q latest,
      (askingFor "x").resolve (known.internAll ["z"]) = .ok (q, latest) ∧
        p.same q = true ∧ q = p := by
  intro now
  have passes : Grammar.passBoth (askingFor "x") (askingFor "x") now now
      (fun _ _ _ _ => true) = true := by
    decide +kernel
  obtain ⟨p, known, _, _, resolved, -, -⟩ := Grammar.exists_of_passBoth passes
  have faithful := names_faithful ["x", "y", "x"]
  exact ⟨by decide +kernel, p, known, resolved,
    faithful.resolved_again _ p known resolved ["z"]⟩

end CombinatorGrammar
