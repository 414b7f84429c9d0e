import CombinatorGrammar.Proofs.Derivation.Basic
import Mathlib.Data.List.Flatten

/-!
# Leaves stand in the order of the tokens

Read from left to right, the tokens that were kept and the error nodes that stand for skipped tokens
come from positions one behind the other. So no token is duplicated, moved or made up, however often
the run went back and whatever was dropped or regrouped above it. A matched termination token is not
passed, and may be matched again; it is left out of account.
-/

namespace CombinatorGrammar

/-- A token that was kept or the error node in the place of a skipped one, with its position. -/
structure Leaf where
  position : Nat
  value : Value

/-- The leaf is the token at its position or an error node in its place. -/
def Leaf.Stands (tokens : TokenStream) (leaf : Leaf) : Prop :=
  leaf.value = .token (tokens.token leaf.position) ∨
    ∃ errorType, leaf.value = .node errorType (tokens.token leaf.position).span []

namespace Sourced

mutual

/-- The leaves of a value from left to right, termination tokens apart. -/
def leaves : Sourced → List Leaf
  | token position t => if t.kind.isTermination then [] else [⟨position, .token t⟩]
  | skipped position type span => [⟨position, .node type span []⟩]
  | node _ _ _ _ fields => leavesOf fields
  | list items => leavesOf items
  | _ => []

/-- The leaves of several values from left to right. -/
def leavesOf : List Sourced → List Leaf
  | [] => []
  | v :: vs => v.leaves ++ leavesOf vs

end

/-- The leaves of several values are those of each, one after the other. -/
theorem leavesOf_eq_flatten (vs : List Sourced) : leavesOf vs = (vs.map leaves).flatten := by
  induction vs with
  | nil => rfl
  | cons v vs ih => rw [leavesOf, ih, List.map_cons, List.flatten_cons]

/-- The leaves of one list of values come before those of the next. -/
theorem leavesOf_append (vs ws : List Sourced) :
    leavesOf (vs ++ ws) = leavesOf vs ++ leavesOf ws := by
  simp only [leavesOf_eq_flatten, List.map_append, List.flatten_append]

theorem leavesOf_singleton (v : Sourced) : leavesOf [v] = v.leaves := by
  rw [leavesOf, leavesOf, List.append_nil]

/-- Filling a field adds and loses no leaves. -/
theorem leaves_fitNull (kind : FieldKind) (v : Sourced) : (fitNull kind v).leaves = v.leaves := by
  cases kind <;> cases v <;> rfl

/-- The fields of a node have no leaves but those of the values that it is built from. -/
theorem leavesOf_zipWith_fitNull (layout : List FieldKind) (vs : List Sourced) :
    (leavesOf (List.zipWith fitNull layout vs)).Sublist (leavesOf vs) := by
  rw [leavesOf_eq_flatten, leavesOf_eq_flatten]
  exact (map_zipWith_sublist leaves_fitNull layout vs).flatten

end Sourced

open Sourced (leavesOf)

/-- The leaves of the values come from positions between the given ones, each behind the one before,
and are what stands there. -/
structure LeavesInOrder (tokens : TokenStream) (i j : Nat) (vs : List Sourced) : Prop where
  le : i ≤ j
  increasing : (leavesOf vs).Pairwise fun a b => a.position < b.position
  between : ∀ leaf ∈ leavesOf vs, i ≤ leaf.position ∧ leaf.position < j
  stand : ∀ leaf ∈ leavesOf vs, leaf.Stands tokens

namespace LeavesInOrder

variable {tokens : TokenStream} {i j k : Nat} {vs ws : List Sourced}

/-- Some of the leaves are in order as all of them are. -/
theorem sublist (h : LeavesInOrder tokens i j vs)
    (fewer : (leavesOf ws).Sublist (leavesOf vs)) : LeavesInOrder tokens i j ws where
  le := h.le
  increasing := h.increasing.sublist fewer
  between leaf among := h.between leaf (fewer.subset among)
  stand leaf among := h.stand leaf (fewer.subset among)

/-- No leaves are in order wherever they are looked for. -/
theorem of_none (le : i ≤ j) (none : leavesOf vs = []) : LeavesInOrder tokens i j vs where
  le := le
  increasing := none ▸ .nil
  between leaf among := by
    rw [none] at among
    cases among
  stand leaf among := by
    rw [none] at among
    cases among

/-- A leaf that stands at its position is in order there by itself. -/
theorem of_leaf (leaf : Leaf) (position : leaf.position = i) (stands : leaf.Stands tokens)
    (only : leavesOf vs = [leaf]) : LeavesInOrder tokens i (i + 1) vs where
  le := Nat.le_succ i
  increasing := only ▸ List.pairwise_singleton ..
  between other among := by
    rw [only, List.mem_singleton] at among
    subst among
    omega
  stand other among := by
    rw [only, List.mem_singleton] at among
    exact among ▸ stands

/-- What was taken first comes from earlier positions. -/
theorem append (h : LeavesInOrder tokens i j vs) (h' : LeavesInOrder tokens j k ws) :
    LeavesInOrder tokens i k (vs ++ ws) := by
  refine ⟨Nat.le_trans h.le h'.le, ?_, ?_, ?_⟩ <;> rw [Sourced.leavesOf_append]
  · refine List.pairwise_append.mpr ⟨h.increasing, h'.increasing, fun a first b second => ?_⟩
    exact Nat.lt_of_lt_of_le (h.between a first).2 (h'.between b second).1
  · intro leaf among
    rcases List.mem_append.mp among with first | second
    · exact ⟨(h.between leaf first).1, Nat.lt_of_lt_of_le (h.between leaf first).2 h'.le⟩
    · exact ⟨Nat.le_trans h.le (h'.between leaf second).1, (h'.between leaf second).2⟩
  · exact List.forall_mem_append.mpr ⟨h.stand, h'.stand⟩

end LeavesInOrder

/-- However values are put together, their leaves are in order. -/
theorem Session.composes_leavesInOrder (x : Session) : x.Composes (LeavesInOrder x.tokens) where
  nil i := .of_none (Nat.le_refl i) rfl
  append first rest := first.append rest
  drop h := .of_none h.le rfl
  token i := by
    rw [TokenStream.after]
    split
    · next ends => exact .of_none (Nat.le_refl i) (by simp [leavesOf, Sourced.leaves, ends])
    · next inside =>
      exact .of_leaf ⟨i, .token (x.tokens.token i)⟩ rfl (Or.inl rfl)
        (by simp [leavesOf, Sourced.leaves, inside])
  skip i errorType _ :=
    .of_leaf ⟨i, .node errorType (x.tokens.token i).span []⟩ rfl
      (Or.inr ⟨errorType, rfl⟩) rfl
  null i := .of_none (Nat.le_refl i) rfl
  absent i type := .of_none (Nat.le_refl i) rfl
  list h := h.sublist <| by
    simp only [Sourced.leavesOf_singleton, Sourced.leaves, List.Sublist.refl]
  node type layout h := h.sublist <| by
    rw [Sourced.leavesOf_singleton, Sourced.leaves]
    exact Sourced.leavesOf_zipWith_fitNull layout _
  enum type alternative h := .of_none h.le rfl

/-- No token is duplicated, moved or made up. The values of an attempt that succeeds have a
derivation between the positions where it begins and ends; and in every derivation of them, the
tokens that were kept, termination tokens apart, and the error nodes made by skips come, from left
to right, from strictly increasing positions between the two, where each is the token of its
position or has the span of that token. -/
theorem Program.leaves_in_order {p : Program} {names : Interner} {tokens : TokenStream}
    {config : ParseConfig} {ref : RuleRef} {start : Nat} {attempt : RuleAttempt}
    {values : List Value} (ran : p.attempt names tokens config ref start = .ok attempt)
    (succeeds : attempt.result = .ok values) :
    let first := min start tokens.lastPosition
    let derives := (p.session names tokens config).Derives (.matcher (.rule ref)) first
      attempt.position
    (∃ vs, derives vs ∧ Sourced.valuesOf vs = values) ∧
    ∀ vs, derives vs → Sourced.valuesOf vs = values →
      ((leavesOf vs).Pairwise fun a b => a.position < b.position) ∧
      ∀ leaf ∈ leavesOf vs,
        first ≤ leaf.position ∧ leaf.position < attempt.position ∧ leaf.Stands tokens := by
  intro first derives
  refine ⟨attempt_derives ran succeeds, fun vs derived _ => ?_⟩
  have ordered : LeavesInOrder tokens first attempt.position vs :=
    derived.composes (p.session names tokens config).composes_leavesInOrder
  refine ⟨ordered.increasing, fun leaf among => ?_⟩
  obtain ⟨behind, before⟩ := ordered.between leaf among
  exact ⟨behind, before, ordered.stand leaf among⟩

/-- The program of a token, another one or else any token skipped, and the same again. -/
def tokenThenSkip : Program where
  vocabulary := .initial
  schema := .empty
  rules := #[⟨"main", .seq [.token ⟨1⟩ none true,
    .choice [.seq [.token ⟨2⟩ none true, .token ⟨2⟩ none true], .skip ⟨0⟩], .opt (.rule ⟨0⟩)]⟩]
  signatures := #[]
  predicates := #[]
  entry := ⟨0⟩

/-- Three tokens, with blanks between them. -/
def spacedTokens : TokenStream :=
  .ofList [⟨⟨1⟩, .empty, ⟨0, 1⟩⟩, ⟨⟨2⟩, .empty, ⟨2, 3⟩⟩, ⟨⟨1⟩, .empty, ⟨4, 5⟩⟩] 6

/-- The second token is taken, given back and skipped; its error node comes from position 1. -/
theorem leaves_in_order_tokenThenSkip :
    ∃ attempt, tokenThenSkip.attempt .initial spacedTokens ⟨4, true⟩ ⟨0⟩ 0 = .ok attempt ∧
      attempt.position = 2 ∧
      attempt.result = .ok [.token ⟨⟨1⟩, .empty, ⟨0, 1⟩⟩, .node ⟨0⟩ ⟨2, 3⟩ []] ∧
      ∃ vs, (tokenThenSkip.session .initial spacedTokens ⟨4, true⟩).Derives
          (.matcher (.rule ⟨0⟩)) 0 2 vs ∧
        Sourced.valuesOf vs = [.token ⟨⟨1⟩, .empty, ⟨0, 1⟩⟩, .node ⟨0⟩ ⟨2, 3⟩ []] ∧
        ((leavesOf vs).Pairwise fun a b => a.position < b.position) ∧
        ∀ leaf ∈ leavesOf vs,
          0 ≤ leaf.position ∧ leaf.position < 2 ∧ leaf.Stands spacedTokens := by
  have ran : ∃ attempt, tokenThenSkip.attempt .initial spacedTokens ⟨4, true⟩ ⟨0⟩ 0 = .ok attempt ∧
      attempt.position = 2 ∧
      attempt.result = .ok [.token ⟨⟨1⟩, .empty, ⟨0, 1⟩⟩, .node ⟨0⟩ ⟨2, 3⟩ []] :=
    ⟨_, rfl, rfl, rfl⟩
  obtain ⟨attempt, ran, stop, succeeds⟩ := ran
  obtain ⟨⟨vs, derived, same⟩, ordered⟩ := Program.leaves_in_order ran succeeds
  have leaves := ordered vs derived same
  rw [stop] at derived leaves
  exact ⟨attempt, ran, stop, succeeds, vs, derived, same, leaves⟩

end CombinatorGrammar
