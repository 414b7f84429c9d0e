import CombinatorGrammar.Parse.Basic
import CombinatorGrammar.Proofs.Likeness.Parsers

/-!
# Parses of sessions that are alike

What a parse makes of the end of its entry rule is alike in sessions that are alike: they both have
a tree or neither has one, and they report the same.
-/

namespace CombinatorGrammar

/-- There are trees that are alike or there is none, and the diagnostics are alike. -/
structure ParseOutput.Like (l : Likeness) (o o' : ParseOutput) : Prop where
  root : Option.Rel (Value.Like l) o.root o'.root
  diagnostics : List.Forall₂ (Diagnostic.Like l) o.diagnostics o'.diagnostics

variable {l : Likeness}

/-- Where the second has no levels more, neither is stopped by the limit alone. -/
theorem EndsLike.cases_of_zero {α β : Type} {R : α → β → Prop} {a : Except Fault α}
    {b : Except Fault β} (h : EndsLike 0 R a b) :
    (∃ fault, a = .error fault ∧ b = .error fault) ∨ ∃ u v, a = .ok u ∧ b = .ok v ∧ R u v := by
  cases h with
  | ended same => exact Or.inr ⟨_, _, rfl, rfl, same⟩
  | stopped => exact Or.inl ⟨_, rfl, rfl⟩
  | limited more => exact absurd more (Nat.lt_irrefl 0)

/-- States that are alike have reported alike. -/
theorem State.Like.diagnostics {p : Program} {s t : State} (h : s.Like l p t) :
    List.Forall₂ (Diagnostic.Like l) s.diagnostics t.diagnostics :=
  List.rel_reverse h.pending

namespace Session

/-- Values that are alike make roots that are alike. -/
theorem rootOf_like {values values' : List Value}
    (h : List.Forall₂ (Value.Like l) values values') :
    (rootOf values).Like l (rootOf values') := by
  cases h with
  | nil => exact .list .nil
  | cons first rest =>
    cases rest with
    | nil => exact first
    | cons second rest => exact .list (.cons first (.cons second rest))

namespace Like

variable {x y : Session} {s t : State}

/-- Sessions that are alike report a failure alike, at the furthest failure that they have in
common. -/
theorem syntaxError (sessions : x.Like l y) {furthest : Option Failure} {f : Failure}
    (known : ∀ g ∈ furthest, g.Of x.program) (of : f.Of x.program) :
    (x.syntaxError furthest f).Like l (y.syntaxError furthest f) := by
  have merged : ((furthest.getD (.plain f.position)).merge f).Of x.program := by
    refine Failure.Of.merge ?_ of
    cases furthest with
    | none => exact Failure.of_plain _
    | some g => exact known g rfl
  have tokens := sessions.token ((furthest.getD (.plain f.position)).merge f).position
  simp only [Session.syntaxError, sessions.describeExpected_eq merged,
    sessions.describeFound_eq tokens]
  exact Diagnostic.like_atSpan tokens.span ..

/-- What is left over behind a match is reported alike. -/
theorem leftover (sessions : x.Like l y) (states : s.Like l x.program t) :
    (x.leftover s).Like l (y.leftover t) := by
  have tokens := sessions.current states
  simp only [Session.leftover, sessions.describeFound_eq tokens, states.furthest_eq,
    states.position_eq]
  cases found : s.furthest with
  | none => exact Diagnostic.like_atSpan tokens.span ..
  | some f =>
    have of := states.furthest_of f found
    simp only [sessions.describeExpected_eq of]
    split
    · exact Diagnostic.like_atSpan tokens.span ..
    · split
      · exact sessions.syntaxError (fun _ none => nomatch none) of
      · split
        · exact Diagnostic.like_atSpan tokens.span ..
        · exact Diagnostic.like_atSpan tokens.span ..

/-- Parses that have failed report errors that are alike. -/
theorem failed (sessions : x.Like l y) {f : Failure} (of : f.Of x.program)
    (states : s.Like l x.program t) :
    ParseOutput.Like l ⟨none, (s.report (x.syntaxError s.furthest f)).diagnostics⟩
      ⟨none, (t.report (y.syntaxError t.furthest f)).diagnostics⟩ := by
  rw [states.furthest_eq]
  exact ⟨.none, (states.report (sessions.syntaxError states.furthest_of of)).diagnostics⟩

/-- Runs of the entry rule that end alike make outputs that are alike. -/
theorem finish (sessions : x.Like l y) {slack : Nat} {a b : Step}
    (h : StepsLike l x.program slack a b) :
    EndsLike slack (ParseOutput.Like l) (a.map fun r => x.finish r.1 r.2)
      (b.map fun r => y.finish r.1 r.2) := by
  cases h with
  | @success values values' s t same states =>
    refine .ended ?_
    simp only [Session.finish, sessions.atEnd_eq states]
    split
    · exact ⟨.some (rootOf_like same), states.diagnostics⟩
    · exact ⟨.none, (states.report (sessions.leftover states)).diagnostics⟩
  | soft of states | hard of states => exact .ended (sessions.failed of states)
  | stopped => exact .stopped
  | limited more => exact .limited more

end Like

end Session

namespace Program

/-- A parse makes its output of what the run of the entry rule ends with, and is stopped as the run
is. -/
theorem parse_eq_map (p : Program) (names : Interner) (tokens : TokenStream)
    (config : ParseConfig) :
    p.parse names tokens config =
      ((p.session names tokens config).run config.maxDepth p.entry (.initial 0)).map fun r =>
        (p.session names tokens config).finish r.1 r.2 := by
  rw [parse]
  rcases (p.session names tokens config).run config.maxDepth p.entry (.initial 0)
    with fault | ⟨o, s⟩ <;> rfl

/-- Parses with one program, of tokens that are alike and with one configuration, end by one fault
or with outputs that are alike. -/
theorem parse_like {p : Program} {names names' : Interner} {tokens tokens' : TokenStream}
    {config : ParseConfig}
    (sessions : (p.session names tokens config).Like l (p.session names' tokens' config)) :
    (∃ fault, p.parse names tokens config = .error fault ∧
      p.parse names' tokens' config = .error fault) ∨
    ∃ output output', p.parse names tokens config = .ok output ∧
      p.parse names' tokens' config = .ok output' ∧ output.Like l output' := by
  have ends := sessions.finish (sessions.run 0 config.maxDepth p.entry (.initial 0))
  rw [parse_eq_map, parse_eq_map]
  exact ends.cases_of_zero

end Program

end CombinatorGrammar
