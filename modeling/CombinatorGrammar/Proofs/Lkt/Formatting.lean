import CombinatorGrammar.Proofs.Lkt.Texts

/-!
# Formatting

What stands between the tokens of an LKT source, and so where they stand, makes no difference to the
parse. Two readings of sources whose tokens have the same kinds and texts are stopped by one fault,
or they end with trees and diagnostics that differ in spans only. The interner may have come to know
any texts before either reading; then the same texts may have other names in it.
-/

namespace CombinatorGrammar.Lkt

/-- The front end when more texts have been interned beside it. -/
def FrontEnd.knowing (f : FrontEnd) (texts : List String) : FrontEnd :=
  ⟨f.program, f.names.internAll texts⟩

/-- Reformatting a source does not change its parse. Readings of sources whose tokens have the same
kinds and texts are stopped by one fault, or they both have trees that are alike, and then have one
outline, or no trees, and they report the same but for the spans of labels. With the same texts
known before, or where the second interner knows what the first one has come to know, tokens that
are alike have the same name, so that trees are the same but for spans. -/
theorem reformatting_keeps_parse {known : Interner} {f : FrontEnd}
    (made : FrontEnd.over known = .ok f) (before before' : List String) {source source' : String}
    (same : ((f.knowing before).lex source).wording = ((f.knowing before').lex source').wording)
    (config : ParseConfig) :
    let lexed := (f.knowing before).lex source
    let lexed' := (f.knowing before').lex source'
    let alike := Likeness.texts lexed.names lexed'.names fun _ _ => True
    (∃ fault, (f.knowing before).parse source config = .error fault ∧
      (f.knowing before').parse source' config = .error fault) ∨
    ∃ root root' reported reported',
      (f.knowing before).parse source config =
        .ok (⟨root, lexed.lexed.diagnostics ++ reported⟩, lexed) ∧
      (f.knowing before').parse source' config =
        .ok (⟨root', lexed'.lexed.diagnostics ++ reported'⟩, lexed') ∧
      Option.Rel (Value.Like alike) root root' ∧
      (before' = before ∨ lexed.names.Grows lexed'.names →
        Option.Rel (Value.Like .unplaced) root root') ∧
      root'.map (f.program.outlineContext lexed'.names).outline =
        root.map (f.program.outlineContext lexed.names).outline ∧
      List.Forall₂ (Diagnostic.Like alike) reported reported' := by
  intro lexed lexed' alike
  have grows (before : List String) (source : String) :
      f.names.Grows ((f.knowing before).lex source).names :=
    (Interner.Grows.internAll f.names before).trans (grows_lex (f.knowing before) source)
  have tokens := TokenStream.like_of_wording (named_lex (f.knowing before) source)
    (named_lex (f.knowing before') source') same
  have sessions := session_like made (grows before source) (grows before' source') tokens
    (fun _ _ => trivial) (fun _ => trivial) config
  have read (before : List String) (source : String) {result : Except Fault ParseOutput}
      (h : f.program.parse ((f.knowing before).lex source).names
        ((f.knowing before).lex source).lexed.tokens config = result) :
      (f.knowing before).parse source config = result.map fun output =>
        (⟨output.root, ((f.knowing before).lex source).lexed.diagnostics ++ output.diagnostics⟩,
          (f.knowing before).lex source) :=
    h ▸ rfl
  rcases Program.parse_like sessions with ⟨fault, stopped, stopped'⟩ | ⟨o, o', ran, ran', outputs⟩
  · exact Or.inl ⟨fault, read before source stopped, read before' source' stopped'⟩
  · obtain ⟨root, reported⟩ := o
    obtain ⟨root', reported'⟩ := o'
    obtain ⟨roots, diagnostics⟩ := outputs
    refine Or.inr ⟨root, root', reported, reported', read before source ran,
      read before' source' ran', roots, ?_, ?_, diagnostics⟩
    · intro known
      have later : lexed.names.Grows lexed'.names := by
        rcases known with rfl | later
        · rw [show lexed'.names = lexed.names from names_lex_eq (f.knowing before') same]
          exact .refl _
        · exact later
      cases roots with
      | none => exact .none
      | some trees => exact .some (Value.Like.imp (fun names => (name_eq_of_like later names).symm)
          (fun _ => trivial) _ trees)
    · cases roots with
      | none => rw [Option.map_none, Option.map_none]
      | some trees => exact congrArg some (outline_eq_of_like trees)

/-- A grammar on one line, and on several with a comment: the readings have one outline, although
the second interner numbers the names in another order. -/
theorem reformatting_keeps_parse_grammar :
    ∃ f, frontEnd = .ok f ∧
      ((f.knowing []).parse "grammar g \x7b m <- \"a\" \x7d" ⟨16, true⟩).map
          (fun read => read.1.root.map (f.program.outlineContext read.2.names).outline) =
        ((f.knowing ["m", "g"]).parse "grammar g \x7b\n\n  # all\n  m <- \"a\"\n\x7d\n"
            ⟨16, true⟩).map
          (fun read => read.1.root.map (f.program.outlineContext read.2.names).outline) := by
  obtain ⟨f, made, _⟩ := exists_charted
  -- for any two sources, so that these two are not read in order to check the proof
  have outlines_eq {source source' : String}
      (same : ((f.knowing []).lex source).wording = ((f.knowing ["m", "g"]).lex source').wording) :
      ((f.knowing []).parse source ⟨16, true⟩).map
          (fun read => read.1.root.map (f.program.outlineContext read.2.names).outline) =
        ((f.knowing ["m", "g"]).parse source' ⟨16, true⟩).map
          (fun read => read.1.root.map (f.program.outlineContext read.2.names).outline) := by
    rcases reformatting_keeps_parse made [] ["m", "g"] same ⟨16, true⟩ with
      ⟨fault, first, second⟩ | ⟨root, root', _, _, first, second, _, _, outlines, _⟩
    · rw [first, second]
    · rw [first, second]
      exact congrArg Except.ok outlines.symm
  refine ⟨f, made, outlines_eq ?_⟩
  rw [wording_lex, wording_lex]
  decide +kernel

end CombinatorGrammar.Lkt
