import CombinatorGrammar.Proofs.Lkt.Reading
import CombinatorGrammar.Proofs.Renaming.Output
import CombinatorGrammar.Proofs.Renaming.Resolution
import CombinatorGrammar.Proofs.Symbol.Embedding

/-!
# Front ends over different interners

The LKT grammar resolves over every interner, and the programs are the same up to renaming. A
reading of a source becomes a reading in another interner when its tokens are renamed, and what the
program makes of it is renamed with them.
-/

namespace CombinatorGrammar.Lkt

/-- A front end can be built over every interner. Its program is that of any other front end with
new names, whichever names of the same texts these are. -/
theorem exists_over {other : Interner} {f : FrontEnd} (made : FrontEnd.over other = .ok f)
    (known : Interner) :
    ∃ g, FrontEnd.over known = .ok g ∧
      ∀ (ρ : Name → Name) (into : Interner), g.names.Grows into →
        (∀ n text, f.names.Gives n text → into.Gives (ρ n) text) →
          g.program = f.program.rename ρ := by
  obtain ⟨grammar, assembled, resolved⟩ := resolve_of_over made
  obtain ⟨names, -⟩ := Grammar.resolve_eq_ok resolved
  have renamed (ρ : Name → Name) (into : Interner)
      (grows : (known.internAll grammar.texts).Grows into)
      (keeps : ∀ n text, f.names.Gives n text → into.Gives (ρ n) text) :
      grammar.resolve known = .ok (f.program.rename ρ, known.internAll grammar.texts) := by
    have same : ∀ text ∈ grammar.texts, ((known.internAll grammar.texts).intern text).1 =
        ρ ((other.internAll grammar.texts).intern text).1 := by
      intro text among
      obtain ⟨n, given⟩ := other.gives_internAll among
      obtain ⟨m, given'⟩ := known.gives_internAll among
      rw [given.intern_fst, given'.intern_fst]
      exact (keeps n text (names ▸ given)).name_eq (grows given')
    rw [Grammar.resolve_rename same, resolved]
    rfl
  have within := Interner.within_knowing f.names (known.internAll grammar.texts)
  have first := renamed _ _ (Interner.Grows.internAll _ _) fun _ _ => within.gives_embed
  refine ⟨_, over_of_resolve assembled first, fun ρ into grows keeps => ?_⟩
  have again := renamed ρ into grows keeps
  rw [first] at again
  exact congrArg Prod.fst (Except.ok.inj again)

/-- The program of a front end over any interner is that over a new one, with new names. -/
theorem exists_rename_of_over {known : Interner} {f : FrontEnd}
    (made : FrontEnd.over known = .ok f) :
    ∃ fresh ρ, Charted fresh ∧ f.program = fresh.program.rename ρ := by
  obtain ⟨fresh, anew, charted⟩ := exists_charted
  obtain ⟨g, made', renamed⟩ := exists_over anew known
  obtain rfl : g = f := Except.ok.inj (made'.symm.trans made)
  have within := Interner.within_knowing fresh.names g.names
  exact ⟨fresh, _, charted,
    renamed _ _ (Interner.Grows.internAll g.names _) fun _ _ => within.gives_embed⟩

/-- The source with new names for the texts of its tokens, in the interner that gives these. -/
def LexedSource.rename (ρ : Name → Name) (into : Interner) (s : LexedSource) : LexedSource :=
  ⟨⟨s.lexed.tokens.rename ρ, s.lexed.diagnostics⟩, into⟩

variable {ρ : Name → Name} {into : Interner} {s : LexedSource}

/-- A reading remains one under new names of the same texts. -/
theorem LexedSource.Reads.rename {source : String} (reads : s.Reads source)
    (keeps : ∀ n text, s.names.Gives n text → into.Gives (ρ n) text) :
    (s.rename ρ into).Reads source := by
  obtain ⟨⟨tokens, made, same⟩, diagnostics⟩ := reads
  have empty : ρ .empty = .empty :=
    into.gives_empty.name_eq (keeps .empty "" s.names.gives_empty)
  refine ⟨⟨tokens.map (Token.rename ρ), ?_, ?_⟩, diagnostics⟩
  · rw [List.forall₂_map_left_iff]
    exact made.imp fun t word ⟨kind, text, span⟩ => ⟨kind, keeps t.text word.2.1 text, span⟩
  · rw [LexedSource.rename, same]
    exact TokenStream.rename_ofList empty tokens (extent source)

/-- What the program of LKT makes of a reading under new names is renamed with it. -/
theorem parse_rename {known : Interner} {f : FrontEnd} (made : FrontEnd.over known = .ok f)
    (injective : Function.Injective ρ) (texts : ∀ n, into.text (ρ n) = s.names.text n)
    (config : ParseConfig) :
    (f.program.rename ρ).parse into (s.rename ρ into).lexed.tokens config =
      (f.program.parse s.names s.lexed.tokens config).map (ParseOutput.rename ρ) := by
  refine Program.parse_rename (Session.renamed_session injective texts fun q among v => ?_)
  obtain rfl := eq_isTypeName_of_mem made among
  exact isTypeName_eq_of_like (Likeness.keepsTexts_renaming texts) v.like_rename f.program.schema

end CombinatorGrammar.Lkt
