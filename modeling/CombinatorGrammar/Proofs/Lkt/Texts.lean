import CombinatorGrammar.Proofs.Likeness.Texts
import CombinatorGrammar.Proofs.Lkt.Chart
import CombinatorGrammar.Proofs.Program.Assembly
import CombinatorGrammar.Proofs.Token.Vocabulary

/-!
# Texts of LKT sources

The tokens of a source are told apart by their kinds and texts alone, which are a matter of the
source: the interner that it is cut with only numbers the texts. The program of LKT compares texts
with those of its grammar, and its one predicate reads the text of a token; so readings of sources
with tokens of the same kinds and texts are alike.
-/

namespace CombinatorGrammar

namespace Vocabulary

variable {v : Vocabulary} {kind : TokenKind}

/-- The termination kind has no fixed text. -/
theorem isTermination_of_literalKind? {text : String} (h : v.literalKind? text = some kind) :
    kind.isTermination = false := by
  refine beq_eq_false_iff_ne.mpr fun same => ?_
  have fixed := literal?_of_literalKind? h
  rw [same, literal?_termination] at fixed
  cases fixed

/-- The termination kind has one name. -/
theorem isTermination_of_kind? {name : String} (h : v.kind? name = some kind)
    (other : name ≠ "Termination") : kind.isTermination = false := by
  refine beq_eq_false_iff_ne.mpr fun same => other ?_
  rw [← name_of_kind? h, same, name_of_kind? v.kind?_termination]

end Vocabulary

/-- The stream of some tokens is these tokens and the termination token behind them. -/
theorem TokenStream.toList_ofList {tokens : List Token}
    (others : ∀ t ∈ tokens, t.kind.isTermination = false) (stop : Nat) :
    (TokenStream.ofList tokens stop).toList = tokens ++ [.termination stop] := by
  have kept : tokens.filter (fun t => !t.kind.isTermination) = tokens :=
    List.filter_eq_self.mpr fun t among => by rw [others t among]; rfl
  have none : tokens.getLast?.filter (fun t => t.kind.isTermination) = none := by
    refine Option.filter_eq_none_iff.mpr fun t last => ?_
    rw [others t (List.mem_of_getLast? last)]
    exact Bool.false_ne_true
  rw [toList, ofList]
  simp only [kept, none, Option.getD_none]

namespace Lkt

/-- The kinds, the texts and the places of the tokens of a source. -/
def words (source : String) : List (TokenKind × String × Span) :=
  if maxOffset < source.utf8ByteSize then []
  else (place 0 (pieces source.toList)).filterMap token?

/-- No word is of the termination kind. -/
theorem isTermination_of_mem_words {source : String} {word : TokenKind × String × Span}
    (among : word ∈ words source) : word.1.isTermination = false := by
  rw [words] at among
  split at among
  · cases among
  · obtain ⟨p, _, made⟩ := List.mem_filterMap.mp among
    obtain ⟨kind, found, rfl⟩ := Option.map_eq_some_iff.mp made
    rw [kind?] at found
    split at found
    · exact Vocabulary.isTermination_of_literalKind? found
    · exact Vocabulary.isTermination_of_kind? found (by decide)
    · exact Vocabulary.isTermination_of_kind? found (by decide)
    · exact Vocabulary.isTermination_of_kind? found (by decide)
    · exact Vocabulary.isTermination_of_kind? found (by decide)
    · cases found

/-- Lexing interns the texts of the words and adds a termination token. -/
theorem lex_eq (names : Interner) (source : String) :
    (Lkt.lex names source).2 = (Token.internAll names (words source)).2 ∧
      ∃ stop, (Lkt.lex names source).1.tokens.toList =
        (Token.internAll names (words source)).1 ++ [.termination stop] := by
  have others : ∀ t ∈ (Token.internAll names (words source)).1, t.kind.isTermination = false := by
    intro t among
    obtain ⟨word, among, same, _⟩ := Token.exists_word_of_mem among
    rw [same]
    exact isTermination_of_mem_words among
  rw [words] at others ⊢
  rw [Lkt.lex]
  split
  · exact ⟨rfl, 0, rfl⟩
  · next small =>
    rw [if_neg small] at others
    exact ⟨rfl, _, TokenStream.toList_ofList others _⟩

/-- The kinds and the texts of the tokens of a lexed source. -/
def LexedSource.wording (s : LexedSource) : List (TokenKind × String) :=
  s.lexed.tokens.wording s.names

variable (f : FrontEnd) (source : String)

/-- The interner of a lexed source has come to know the texts of the words. -/
theorem names_lex :
    (f.lex source).names = f.names.internAll ((words source).map fun word => word.2.1) :=
  (lex_eq f.names source).1.trans (Token.internAll_snd f.names (words source))

/-- Lexing a source only adds to the interner. -/
theorem grows_lex : f.names.Grows (f.lex source).names := by
  rw [names_lex]
  exact .internAll _ _

/-- All tokens of a lexed source have texts in its interner. -/
theorem named_lex : (f.lex source).lexed.tokens.Named (f.lex source).names := by
  change (Lkt.lex f.names source).1.tokens.Named (Lkt.lex f.names source).2
  obtain ⟨same, stop, tokens⟩ := lex_eq f.names source
  rw [same, TokenStream.Named, tokens]
  refine List.forall_mem_append.mpr ⟨fun t among => ?_, List.forall_mem_singleton.mpr ?_⟩
  · obtain ⟨word, _, _, given⟩ := Token.exists_word_of_mem among
    exact ⟨_, given⟩
  · exact ⟨"", Interner.gives_empty _⟩

/-- The wording of a lexed source is a matter of the source alone. -/
theorem wording_lex :
    (f.lex source).wording =
      (words source).map (fun word => (word.1, word.2.1)) ++ [(.termination, "")] := by
  change (Lkt.lex f.names source).1.tokens.wording (Lkt.lex f.names source).2 = _
  obtain ⟨same, stop, tokens⟩ := lex_eq f.names source
  have made : (Token.internAll f.names (words source)).1.map (fun t =>
      (t.kind, (Token.internAll f.names (words source)).2.text t.text)) =
        (words source).map fun word => (word.1, word.2.1) := by
    rw [← List.forall₂_eq_eq_eq, List.forall₂_map_left_iff, List.forall₂_map_right_iff]
    refine (Token.internAll_fst f.names (words source)).imp fun t word parts => ?_
    rw [parts.1, Interner.text_of_gives parts.2.1]
  rw [same, TokenStream.wording, tokens, List.map_append, made]
  exact congrArg (fun text => _ ++ [(TokenKind.termination, text)])
    (Interner.text_of_gives (Interner.gives_empty _))

/-- Sources with one wording come to the same interner. -/
theorem names_lex_eq {source source' : String}
    (same : (f.lex source).wording = (f.lex source').wording) :
    (f.lex source').names = (f.lex source).names := by
  rw [wording_lex, wording_lex] at same
  have words := congrArg (List.map Prod.snd) (List.append_cancel_right same)
  rw [List.map_map, List.map_map] at words
  rw [names_lex, names_lex]
  exact congrArg f.names.internAll words.symm

/-- Whether a value names a type is a matter of its texts. -/
theorem isTypeName_eq_of_like {names names' : Interner} {l : Likeness}
    (texts : l.KeepsTexts names names') {v w : Value} (h : v.Like l w) (schema : Schema) :
    isTypeName schema names' w = isTypeName schema names v := by
  cases h with
  | node _ fields =>
    cases fields with
    | nil => rfl
    | cons first _ =>
      cases first with
      | token same => simp only [isTypeName, texts same.text]
      | _ => rfl
  | _ => rfl

/-- The program of LKT has one predicate. -/
theorem eq_isTypeName_of_mem {known : Interner} {f : FrontEnd}
    (made : FrontEnd.over known = .ok f) {q : Predicate} (among : q ∈ f.program.predicates) :
    q = ⟨"is_type_name", isTypeName⟩ := by
  obtain ⟨g, assembled, resolved⟩ := resolve_of_over made
  obtain ⟨_, entry, rules, _, _, parts⟩ := Grammar.resolve_eq_ok resolved
  have listed : q ∈ g.predicates := by
    rw [parts] at among
    exact List.mem_toArray.mp among
  delta Lkt.grammar at assembled
  exact List.mem_singleton.mp (Grammar.mem_predicates_of_assemble assembled listed)

/-- Sessions of the program of LKT on tokens that are alike by their texts are alike. -/
theorem session_like {known names names' : Interner} {f : FrontEnd}
    (made : FrontEnd.over known = .ok f) (grows : f.names.Grows names)
    (grows' : f.names.Grows names') {span : Span → Span → Prop} {tokens tokens' : TokenStream}
    (alike : tokens.Like (.texts names names' span) tokens')
    (merge : ∀ {s s' t t' : Span}, span s s' → span t t' → span (s.merge t) (s'.merge t'))
    (point : ∀ {s s' : Span}, span s s' → span (.point s.start) (.point s'.start))
    (config : ParseConfig) :
    (f.program.session names tokens config).Like (.texts names names' span)
      (f.program.session names' tokens' config) := by
  obtain ⟨g, assembled, resolved⟩ := resolve_of_over made
  refine Program.session_like config ?_ alike merge point ?_
  · rintro n ⟨kind, keep, part⟩
    obtain ⟨text, given⟩ := Grammar.gives_of_resolve resolved part
    exact ⟨text, grows given, grows' given⟩
  · intro q among v w same
    obtain rfl := eq_isTypeName_of_mem made among
    exact isTypeName_eq_of_like (fun _ _ => text_eq_of_like) same f.program.schema

end Lkt

end CombinatorGrammar
