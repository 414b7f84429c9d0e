import CombinatorGrammar.Proofs.Likeness.Words
import CombinatorGrammar.Proofs.Lkt.Texts

/-!
# Readings of a source

A source has its words and its remarks whatever it is cut with. A reading of it may take part in an
interner with others: all that is asked of the tokens is that they have the kinds, the texts and the
places of the words.
-/

namespace CombinatorGrammar

namespace Lkt

/-- Where the tokens of a source end, unless its offsets would be too large. -/
def extent (source : String) : Nat :=
  if maxOffset < source.utf8ByteSize then 0 else source.utf8ByteSize

/-- The reports of what is not valid in a source. -/
def remarks (source : String) : List Diagnostic :=
  if maxOffset < source.utf8ByteSize then [tooLarge source.utf8ByteSize]
  else (place 0 (pieces source.toList)).filterMap diagnostic?

/-- Lexing a source interns its words and reports what there is to remark. -/
theorem lex_eq_internAll (names : Interner) (source : String) :
    Lkt.lex names source =
      (⟨.ofList (Token.internAll names (words source)).1 (extent source), remarks source⟩,
        (Token.internAll names (words source)).2) := by
  rw [Lkt.lex, words, extent, remarks]
  split
  · rfl
  · rfl

/-- The tokens are those of the source, whatever else is in the interner. -/
structure LexedSource.Reads (s : LexedSource) (source : String) : Prop where
  tokens : ∃ tokens, List.Forall₂ (Token.Made s.names) tokens (words source) ∧
    s.lexed.tokens = .ofList tokens (extent source)
  diagnostics : s.lexed.diagnostics = remarks source

/-- Lexing a source reads it. -/
theorem reads_lex (f : FrontEnd) (source : String) : (f.lex source).Reads source := by
  have same : f.lex source = ⟨(Lkt.lex f.names source).1, (Lkt.lex f.names source).2⟩ := rfl
  rw [lex_eq_internAll] at same
  rw [same]
  exact ⟨⟨_, Token.internAll_fst f.names (words source), rfl⟩, rfl⟩

/-- Two readings of a source have tokens that are alike, at the same places. -/
theorem LexedSource.Reads.like {s s' : LexedSource} {source : String} (h : s.Reads source)
    (h' : s'.Reads source) :
    s.lexed.tokens.Like (.texts s.names s'.names Eq) s'.lexed.tokens := by
  obtain ⟨tokens, made, same⟩ := h.tokens
  obtain ⟨tokens', made', same'⟩ := h'.tokens
  rw [same, same']
  exact TokenStream.like_ofList _ (Token.like_of_made made made')
    ⟨rfl, ⟨"", s.names.gives_empty, s'.names.gives_empty⟩, rfl⟩

/-- The front end when sources have been cut with it one after the other. -/
def FrontEnd.after (f : FrontEnd) (history : List String) : FrontEnd :=
  history.foldl (fun f source => ⟨f.program, (f.lex source).names⟩) f

/-- What a front end has come to know besides its grammar makes no program of it but its own. -/
theorem FrontEnd.after_grows (f : FrontEnd) (history : List String) :
    (f.after history).program = f.program ∧ f.names.Grows (f.after history).names := by
  induction history generalizing f with
  | nil => exact ⟨rfl, .refl _⟩
  | cons source history ih =>
    obtain ⟨program, grows⟩ := ih ⟨f.program, (f.lex source).names⟩
    exact ⟨program, (grows_lex f source).trans grows⟩

end Lkt

end CombinatorGrammar
