import CombinatorGrammar.Proofs.Likeness.RaisedLimit
import CombinatorGrammar.Proofs.Likeness.Texts

/-!
# Parses of the same words

A word is a kind, a text and a place. The tokens that are made of one list of words in different
interners are alike, at the same places, and so are the streams of them. What a program makes of
the words is shown alike, if the names that its token matches ask for are names of the same texts
in both interners.
-/

namespace CombinatorGrammar

/-- The token has the kind, the text and the place of the word. -/
def Token.Made (names : Interner) (t : Token) (word : TokenKind × String × Span) : Prop :=
  t.kind = word.1 ∧ names.Gives t.text word.2.1 ∧ t.span = word.2.2

/-- A token that was made of a word still is one of it when more texts are interned. -/
theorem Token.Made.grows {names later : Interner} {t : Token} {word : TokenKind × String × Span}
    (h : t.Made names word) (grows : names.Grows later) : t.Made later word :=
  ⟨h.1, grows h.2.1, h.2.2⟩

/-- Tokens that are made of the same words are alike, at the same places. -/
theorem Token.like_of_made {names names' : Interner} {tokens tokens' : List Token}
    {words : List (TokenKind × String × Span)} (made : List.Forall₂ (Made names) tokens words)
    (made' : List.Forall₂ (Made names') tokens' words) :
    List.Forall₂ (Token.Like (.texts names names' Eq)) tokens tokens' := by
  induction made generalizing tokens' with
  | nil =>
    cases made'
    exact .nil
  | @cons t word _ _ first _ ih =>
    cases made' with
    | cons first' rest' =>
      obtain ⟨kind, text, span⟩ := first
      obtain ⟨kind', text', span'⟩ := first'
      exact .cons ⟨kind'.trans kind.symm, ⟨word.2.1, text, text'⟩, span.trans span'.symm⟩ (ih rest')

namespace TokenStream

variable {l : Likeness} {tokens tokens' : List Token}

/-- The last tokens of lists that are alike are alike, if there are any. -/
theorem like_getLast? (alike : List.Forall₂ (Token.Like l) tokens tokens') :
    Option.Rel (Token.Like l) tokens.getLast? tokens'.getLast? := by
  rw [List.getLast?_eq_head?_reverse, List.getLast?_eq_head?_reverse]
  have reversed := List.rel_reverse alike
  generalize tokens.reverse = first, tokens'.reverse = second at reversed ⊢
  cases reversed with
  | nil => exact .none
  | cons last _ => exact .some last

/-- Streams of tokens that are alike are alike, if their termination tokens are. -/
theorem like_ofList (stop : Nat) (alike : List.Forall₂ (Token.Like l) tokens tokens')
    (ends : (Token.termination stop).Like l (.termination stop)) :
    (ofList tokens stop).Like l (ofList tokens' stop) := by
  have body : List.Forall₂ (Token.Like l) (tokens.filter fun t => !t.kind.isTermination)
      (tokens'.filter fun t => !t.kind.isTermination) :=
    List.rel_filter (fun _ _ same => by simp only [same.kind_eq]) alike
  refine List.rel_append body (.cons ?_ .nil)
  have last := like_getLast? alike
  simp only [ofList]
  generalize tokens.getLast? = first, tokens'.getLast? = second at last ⊢
  cases last with
  | none => exact ends
  | @some t u same =>
    simp only [Option.filter_some, same.kind_eq]
    split
    · exact same
    · exact ends

end TokenStream

/-- Diagnostics that are alike and stand at the same places are the same. -/
theorem Diagnostic.eq_of_like_texts {names names' : Interner} {d e : Diagnostic}
    (h : d.Like (.texts names names' Eq) e) : e = d :=
  Diagnostic.eq_of_like ⟨h.code_eq, h.severity_eq, h.message_eq,
    h.labels.imp fun _ _ same => ⟨same.span, same.message_eq, same.isPrimary_eq⟩, h.notes_eq⟩

/-- The outline of the tree, if there is one, and the diagnostics. -/
def ParseOutput.shown (context : OutlineContext) (o : ParseOutput) :
    Option String × List Diagnostic :=
  (o.root.map context.outline, o.diagnostics)

/-- Outputs that are alike by texts, at the same places, are shown alike. -/
theorem ParseOutput.shown_eq_of_like {p : Program} {names names' : Interner} {o o' : ParseOutput}
    (h : o.Like (.texts names names' Eq) o') :
    o'.shown (p.outlineContext names') = o.shown (p.outlineContext names) := by
  have outlines : o'.root.map (p.outlineContext names').outline =
      o.root.map (p.outlineContext names).outline := by
    have roots := h.root
    generalize o.root = root, o'.root = root' at roots
    cases roots with
    | none => rw [Option.map_none, Option.map_none]
    | some trees => exact congrArg some (outline_eq_of_like trees)
  have reported : o.diagnostics = o'.diagnostics := List.forall₂_eq_eq_eq ▸
    h.diagnostics.imp fun _ _ alike => (Diagnostic.eq_of_like_texts alike).symm
  rw [shown, shown, outlines, reported]

/-- What is shown of a parse of words, whose texts are interned first. -/
def Program.parseWords (p : Program) (names : Interner)
    (words : List (TokenKind × String × Span)) (stop : Nat) (config : ParseConfig) :
    Except Fault (Option String × List Diagnostic) :=
  let made := Token.internAll names words
  (p.parse made.2 (.ofList made.1 stop) config).map (ParseOutput.shown (p.outlineContext made.2))

/-- What a program without predicates makes of words does not depend on the interner in which their
texts get names, if the names that it asks for are names of the same texts. -/
theorem Program.parseWords_eq {p : Program} {names names' : Interner}
    (noPredicates : p.predicates = #[])
    (asked : ∀ n, p.AsksFor n → ∃ text, names.Gives n text ∧ names'.Gives n text)
    (words : List (TokenKind × String × Span)) (stop : Nat) (config : ParseConfig) :
    p.parseWords names' words stop config = p.parseWords names words stop config := by
  have grows (names : Interner) : names.Grows (Token.internAll names words).2 := by
    rw [Token.internAll_snd]
    exact .internAll names _
  have tokens := Token.like_of_made (Token.internAll_fst names words)
    (Token.internAll_fst names' words)
  have streams := TokenStream.like_ofList stop tokens
    ⟨rfl, ⟨"", Interner.gives_empty _, Interner.gives_empty _⟩, rfl⟩
  have sessions := Program.session_like config
    (fun n among =>
      let ⟨text, given, given'⟩ := asked n among
      ⟨text, grows names given, grows names' given'⟩)
    streams
    (fun first second => congrArg₂ Span.merge first second)
    (fun same => congrArg (Span.point ∘ Span.start) same)
    (fun q among => absurd (noPredicates ▸ among) (Array.not_mem_empty q))
  rw [parseWords, parseWords]
  rcases Program.parse_like sessions with ⟨fault, stopped, stopped'⟩ | ⟨o, o', ran, ran', outputs⟩
  · simp only [stopped, stopped', Except.map]
  · simp only [ran, ran', Except.map, ParseOutput.shown_eq_of_like outputs]

end CombinatorGrammar
