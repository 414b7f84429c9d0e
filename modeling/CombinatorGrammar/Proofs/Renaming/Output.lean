import CombinatorGrammar.Proofs.Likeness.Texts
import CombinatorGrammar.Proofs.Renaming.Runs

/-!
# Parses of renamed sessions

A parse of renamed tokens with the renamed program has the tree of the parse with new names, if that
has one, and the same diagnostics. Trees are shown alike under both names.
-/

namespace CombinatorGrammar

variable {ρ : Name → Name}

section Rename

variable (ρ)

/-- The output with new names in the tree. Diagnostics have no names. -/
def ParseOutput.rename (o : ParseOutput) : ParseOutput :=
  { o with root := o.root.map (Value.rename ρ) }

/-- Names correspond to the new ones, and all stands at the same place. -/
def Likeness.renaming : Likeness := ⟨fun n n' => n' = ρ n, Eq⟩

end Rename

/-- A renaming that keeps texts makes names correspond that have one text. -/
theorem Likeness.keepsTexts_renaming {names into : Interner}
    (texts : ∀ n, into.text (ρ n) = names.text n) :
    (Likeness.renaming ρ).KeepsTexts names into := by
  rintro n _ rfl
  exact texts n

/-- A token is like the renamed one. -/
theorem Token.like_rename (t : Token) : t.Like (.renaming ρ) (t.rename ρ) := ⟨rfl, rfl, rfl⟩

mutual

/-- A value is like the renamed one. -/
theorem Value.like_rename : ∀ v : Value, v.Like (.renaming ρ) (v.rename ρ)
  | .token t => .token t.like_rename
  | .node _ _ fields => .node rfl (Value.like_renameAll fields)
  | .list items => .list (Value.like_renameAll items)
  | .enum _ _ _ => .enum rfl
  | .null => .null
  | .absent _ => .absent

/-- Values are like the renamed ones. -/
theorem Value.like_renameAll :
    ∀ vs : List Value, List.Forall₂ (Value.Like (.renaming ρ)) vs (Value.renameAll ρ vs)
  | [] => .nil
  | v :: vs => .cons v.like_rename (Value.like_renameAll vs)

end

namespace Session

/-- The root of renamed values is the renamed root. -/
theorem rootOf_rename (values : List Value) :
    rootOf (values.map (Value.rename ρ)) = (rootOf values).rename ρ := by
  cases values with
  | nil => rfl
  | cons v values =>
    cases values with
    | nil => rfl
    | cons w values => exact congrArg Value.list (Value.renameAll_eq_map (v :: w :: values)).symm

namespace Renamed

variable {x y : Session} (h : x.Renamed ρ y)
include h

/-- A syntax error reads as under other names. -/
theorem syntaxError_eq (furthest : Option Failure) (f : Failure) :
    y.syntaxError (furthest.map (Failure.rename ρ)) (f.rename ρ) = x.syntaxError furthest f := by
  have merged : ((furthest.map (Failure.rename ρ)).getD (.plain (f.rename ρ).position)).merge
      (f.rename ρ) = ((furthest.getD (.plain f.position)).merge f).rename ρ := by
    rw [Failure.rename_merge h.injective]
    cases furthest <;> rfl
  rw [syntaxError, syntaxError, merged]
  simp only [Failure.position_rename, h.describeExpected_eq, h.token_eq, h.describeFound_eq]
  rfl

/-- What is left over is reported as under other names. -/
theorem leftover_eq (s : State) : y.leftover (s.rename ρ) = x.leftover s := by
  rw [leftover, leftover, h.current_eq, h.describeFound_eq, State.rename]
  cases s.furthest with
  | none => rfl
  | some f =>
    have error : y.syntaxError none (f.rename ρ) = x.syntaxError none f := h.syntaxError_eq none f
    simp only [Option.map_some, error, h.describeExpected_eq]
    rw [show (f.rename ρ).expected.isEmpty = f.expected.isEmpty from List.isEmpty_map ..]
    rfl

/-- A parse ends as under other names. -/
theorem finish_eq (o : Outcome) (s : State) :
    y.finish (o.rename ρ) (s.rename ρ) = (x.finish o s).rename ρ := by
  cases o with
  | success values =>
    rw [Outcome.rename, finish, finish, h.atEnd_eq, h.leftover_eq, rootOf_rename]
    split <;> rfl
  | soft f | hard f =>
    have error : y.syntaxError (s.rename ρ).furthest (f.rename ρ) = x.syntaxError s.furthest f :=
      h.syntaxError_eq s.furthest f
    rw [Outcome.rename, finish, finish, error]
    rfl

end Renamed

end Session

namespace Program

/-- A parse with the renamed program has the output of the parse with the program, renamed. -/
theorem parse_rename {p : Program} {names names' : Interner} {tokens tokens' : TokenStream}
    {config : ParseConfig}
    (h : (p.session names tokens config).Renamed ρ
      ((p.rename ρ).session names' tokens' config)) :
    (p.rename ρ).parse names' tokens' config =
      (p.parse names tokens config).map (ParseOutput.rename ρ) := by
  have run : ((p.rename ρ).session names' tokens' config).run config.maxDepth (p.rename ρ).entry
      (.initial 0) =
      Step.rename ρ ((p.session names tokens config).run config.maxDepth p.entry (.initial 0)) :=
    h.run_eq config.maxDepth p.entry (.initial 0)
  rw [parse_eq_map, parse_eq_map, run]
  rcases (p.session names tokens config).run config.maxDepth p.entry (.initial 0)
    with fault | ⟨o, s⟩
  · rfl
  · exact congrArg Except.ok (h.finish_eq o s)

end Program

end CombinatorGrammar
