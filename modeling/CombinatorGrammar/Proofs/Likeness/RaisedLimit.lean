import CombinatorGrammar.Proofs.Likeness.Output
import CombinatorGrammar.Proofs.Run.Independence

/-!
# Raising the limit of nesting

A session is like itself, and then likeness is equality. So a run that the limit of nesting does not
stop is the same, to the last diagnostic and to its fault, when more levels may be entered. A limit
that is reached anywhere, also in the attempt of a guard, stops the run as a whole: there is no way
on from it that could become another answer.
-/

namespace CombinatorGrammar

/-- Names and spans correspond to themselves alone. -/
def Likeness.identity : Likeness := ⟨Eq, Eq⟩

/-- Tokens that are alike, names and spans being the same, are the same. -/
theorem Token.eq_of_like {t u : Token} (h : t.Like .identity u) : u = t := by
  have kinds := h.kind_eq
  have texts : t.text = u.text := h.text
  have spans : t.span = u.span := h.span
  cases t
  cases u
  simp_all

mutual

/-- Values that are alike, names and spans being the same, are the same. -/
theorem Value.eq_of_like : ∀ (v : Value) {w : Value}, v.Like .identity w → w = v
  | .token t, _, .token same => congrArg Value.token (Token.eq_of_like same)
  | .node type span fields, _, .node same parts => by
    obtain rfl : _ = _ := same
    rw [Value.eq_of_forall₂_like fields parts]
  | .list items, _, .list parts => by rw [Value.eq_of_forall₂_like items parts]
  | .enum type alternative span, _, .enum same => by
    obtain rfl : _ = _ := same
    rfl
  | .null, _, .null => rfl
  | .absent type, _, .absent => rfl

theorem Value.eq_of_forall₂_like :
    ∀ (vs : List Value) {ws : List Value}, List.Forall₂ (Value.Like .identity) vs ws → ws = vs
  | [], _, .nil => rfl
  | v :: vs, _, .cons first rest => by
    rw [Value.eq_of_like v first, Value.eq_of_forall₂_like vs rest]

end

theorem Label.eq_of_like {a b : Label} (h : a.Like .identity b) : a = b := by
  have spans : a.span = b.span := h.span
  have remarks := h.message_eq
  have primaries := h.isPrimary_eq
  cases a
  cases b
  simp_all

/-- Diagnostics that are alike, spans being the same, are the same. -/
theorem Diagnostic.eq_of_like {d e : Diagnostic} (h : d.Like .identity e) : e = d := by
  have labels : d.labels = e.labels :=
    List.forall₂_eq_eq_eq ▸ h.labels.imp fun _ _ => Label.eq_of_like
  have codes := h.code_eq
  have severities := h.severity_eq
  have messages := h.message_eq
  have notes := h.notes_eq
  cases d
  cases e
  simp_all

/-- States that are alike, names and spans being the same, are the same. -/
theorem State.eq_of_like {p : Program} {s t : State} (h : s.Like .identity p t) : t = s := by
  obtain ⟨position, pending, furthest⟩ := s
  obtain ⟨position', pending', furthest'⟩ := t
  obtain ⟨rfl, reported, rfl, _⟩ := h
  have same : pending = pending' :=
    List.forall₂_eq_eq_eq ▸ reported.imp fun _ _ alike => (Diagnostic.eq_of_like alike).symm
  rw [same]

namespace Session

/-- A session is like itself. -/
theorem like_identity (x : Session) : x.Like .identity x where
  program_eq := rfl
  recovery_eq := rfl
  lastPosition_eq := rfl
  token _ := ⟨rfl, rfl, rfl⟩
  text_eq same := congrArg x.names.text same.symm
  asked_text _ := rfl
  asked_iff _ same := same ▸ Iff.rfl
  merge first second := congrArg₂ Span.merge first second
  point same := congrArg (Span.point ∘ Span.start) same
  check_eq q _ v w same := by rw [Value.eq_of_like v same]

/-- Steps that are alike in one session are the same, unless the first one is stopped by the limit
of nesting. -/
theorem eq_of_stepsLike {p : Program} {slack : Nat} {a b : Step}
    (h : StepsLike .identity p slack a b)
    (unlimited : ∀ limit position, a ≠ .error (.nestingLimit limit position)) : b = a := by
  cases h with
  | success values states => rw [Value.eq_of_forall₂_like _ values, State.eq_of_like states]
  | soft _ states | hard _ states => rw [State.eq_of_like states]
  | stopped => rfl
  | limited => exact absurd rfl (unlimited _ _)

/-- A run that is not stopped by the limit of nesting is the same with a higher limit. -/
theorem run_eq_of_le (x : Session) {maxDepth higher : Nat} (le : maxDepth ≤ higher)
    (ref : RuleRef) (position : Nat)
    (unlimited : ∀ limit stop,
      x.run maxDepth ref (.initial position) ≠ .error (.nestingLimit limit stop)) :
    x.run higher ref (.initial position) = x.run maxDepth ref (.initial position) := by
  have alike := x.like_identity.run (higher - maxDepth) maxDepth ref (.initial position)
  rw [Nat.add_sub_cancel' le] at alike
  exact eq_of_stepsLike alike unlimited

end Session

namespace Program

/-- Raising the limit of nesting never changes an answer: an attempt that the limit does not stop
answers just the same with a higher limit, and so does a parse. -/
theorem raised_limit_agrees (p : Program) (names : Interner) (tokens : TokenStream)
    (recovery : Bool) {maxDepth higher : Nat} (le : maxDepth ≤ higher) :
    (∀ ref start,
      (∀ limit position, p.attempt names tokens ⟨maxDepth, recovery⟩ ref start ≠
        .error (.nestingLimit limit position)) →
      p.attempt names tokens ⟨higher, recovery⟩ ref start =
        p.attempt names tokens ⟨maxDepth, recovery⟩ ref start) ∧
    ((∀ limit position, p.parse names tokens ⟨maxDepth, recovery⟩ ≠
        .error (.nestingLimit limit position)) →
      p.parse names tokens ⟨higher, recovery⟩ = p.parse names tokens ⟨maxDepth, recovery⟩) := by
  let x := p.session names tokens ⟨maxDepth, recovery⟩
  refine ⟨fun ref start unlimited => ?_, fun unlimited => ?_⟩
  · have ran := x.run_eq_of_le le ref (min start tokens.lastPosition) fun limit stop stopped => by
      refine unlimited limit stop ?_
      rw [attempt_eq_map]
      exact congrArg (Except.map _) stopped
    rw [attempt_eq_map, attempt_eq_map]
    exact congrArg (Except.map _) ran
  · have ran := x.run_eq_of_le le p.entry 0 fun limit stop stopped => by
      refine unlimited limit stop ?_
      rw [parse_eq_map]
      exact congrArg (Except.map _) stopped
    rw [parse_eq_map, parse_eq_map]
    exact congrArg (Except.map _) ran

end Program

/-- The program of a token behind which the rule may match again. -/
def tokenAndMore : Program where
  vocabulary := .initial
  schema := .empty
  rules := #[⟨"main", .seq [.token ⟨1⟩ none true, .opt (.rule ⟨0⟩)]⟩]
  signatures := #[]
  predicates := #[]
  entry := ⟨0⟩

/-- Two tokens need three levels; more levels make no difference, and fewer stop the parse. -/
theorem raised_limit_agrees_tokenAndMore :
    tokenAndMore.parse .initial (tokensOf [1, 1]) ⟨2, true⟩ = .error (.nestingLimit 2 2) ∧
    tokenAndMore.attempt .initial (tokensOf [1, 1]) ⟨16, true⟩ ⟨0⟩ 0 =
      tokenAndMore.attempt .initial (tokensOf [1, 1]) ⟨3, true⟩ ⟨0⟩ 0 ∧
    tokenAndMore.parse .initial (tokensOf [1, 1]) ⟨16, true⟩ =
      tokenAndMore.parse .initial (tokensOf [1, 1]) ⟨3, true⟩ := by
  have attempted : ∃ a, tokenAndMore.attempt .initial (tokensOf [1, 1]) ⟨3, true⟩ ⟨0⟩ 0 = .ok a :=
    ⟨_, rfl⟩
  have parsed : ∃ output, tokenAndMore.parse .initial (tokensOf [1, 1]) ⟨3, true⟩ = .ok output :=
    ⟨_, rfl⟩
  obtain ⟨a, attempted⟩ := attempted
  obtain ⟨output, parsed⟩ := parsed
  have agrees := Program.raised_limit_agrees tokenAndMore .initial (tokensOf [1, 1]) true
    (show 3 ≤ 16 by decide)
  refine ⟨rfl, agrees.1 ⟨0⟩ 0 fun limit position => ?_, agrees.2 fun limit position => ?_⟩
  · rw [attempted]
    nofun
  · rw [parsed]
    nofun

end CombinatorGrammar
