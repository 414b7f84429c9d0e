import CombinatorGrammar.Symbol.Interner
import CombinatorGrammar.Text.Span
import CombinatorGrammar.Token.Vocabulary

/-!
# Tokens and token streams

A token stream ends with exactly one termination token, by its type: the tokens before it have
other kinds. A position of a stream is the number of tokens before it, and reading at or beyond
the last position gives the termination token, so reading is total.
-/

namespace CombinatorGrammar

/-- A kind, a text and a place in the source. -/
structure Token where
  /-- The kind of the token. -/
  kind : TokenKind
  /-- The interned text of the token. -/
  text : Name
  /-- Where the token stands. -/
  span : Span
  deriving DecidableEq, Inhabited

/-- The termination token at an offset. -/
def Token.termination (offset : Nat) : Token := ⟨.termination, .empty, .point offset⟩

/-- Tokens of other kinds followed by one termination token. -/
structure TokenStream where
  /-- The tokens before the termination token. -/
  body : Array Token
  /-- The termination token. -/
  last : Token
  /-- No token of the body is a termination token. -/
  body_kind : ∀ t ∈ body, t.kind.isTermination = false
  /-- The last token is a termination token. -/
  last_kind : last.kind.isTermination = true

namespace TokenStream

/-- The stream of the given tokens. Termination tokens are dropped, except that one at the end
is kept as the stream's own; if there is none, the stream ends at `stop`. -/
def ofList (tokens : List Token) (stop : Nat) : TokenStream where
  body := (tokens.filter fun t => !t.kind.isTermination).toArray
  last := ((tokens.getLast?.filter fun t => t.kind.isTermination).getD (.termination stop))
  body_kind := by simp
  last_kind := by
    cases h : tokens.getLast?.filter fun t => t.kind.isTermination with
    | none => rfl
    | some t =>
      rw [Option.filter_eq_some_iff] at h
      exact h.2

/-- The position of the termination token. -/
def lastPosition (s : TokenStream) : Nat := s.body.size

/-- How many tokens there are, the termination token included. -/
def size (s : TokenStream) : Nat := s.body.size + 1

/-- The token at a position; every position from the last on holds the termination token. -/
def token (s : TokenStream) (position : Nat) : Token := s.body.getD position s.last

/-- The token at a position that the stream has. -/
def get? (s : TokenStream) (position : Nat) : Option Token :=
  if position ≤ s.lastPosition then some (s.token position) else none

/-- All tokens, the termination token included. -/
def toList (s : TokenStream) : List Token := s.body.toList ++ [s.last]

/-- Whether there is no token, which is never so. -/
def isEmpty (s : TokenStream) : Bool := s.size == 0

/-- The span of the tokens from `start` up to `stop`: from the start of the first to the end of
the last, or the point at which the next token starts if there are none. -/
def spanOf (s : TokenStream) (start stop : Nat) : Span :=
  if start < stop then (s.token start).span.merge (s.token (stop - 1)).span
  else .point (s.token stop).span.start

/-- Only the last position holds a termination token. -/
theorem isTermination_token (s : TokenStream) (position : Nat) :
    (s.token position).kind.isTermination = true ↔ s.lastPosition ≤ position := by
  unfold token lastPosition Array.getD
  split
  · next inside =>
    have other := s.body_kind _ (Array.getElem_mem inside)
    change (s.body[position]).kind.isTermination = true ↔ _
    rw [other]
    simp only [Bool.false_eq_true, false_iff]
    omega
  · next outside =>
    simp only [s.last_kind, true_iff]
    omega

end TokenStream

/-- Tokens whose texts are still to be interned, with the interner that results. -/
def Token.internAll (names : Interner) :
    List (TokenKind × String × Span) → List Token × Interner
  | [] => ([], names)
  | (kind, text, span) :: rest =>
    let interned := names.intern text
    let later := Token.internAll interned.2 rest
    (⟨kind, interned.1, span⟩ :: later.1, later.2)

end CombinatorGrammar
