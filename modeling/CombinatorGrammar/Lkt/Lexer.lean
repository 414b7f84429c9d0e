import CombinatorGrammar.Diagnostic.Basic
import CombinatorGrammar.Lkt.Piece
import CombinatorGrammar.Text.Bytes
import CombinatorGrammar.Token.Stream

/-!
# Tokens of a source text

The tokens of a source text are its pieces other than blanks and comments, each at the bytes that
it takes. A piece that is not valid, a stray character or a string that does not end, is reported
and left out, so that the parser sees valid tokens only.
-/

namespace CombinatorGrammar.Lkt

/-- A piece with the bytes that it takes. -/
structure PlacedPiece where
  piece : Piece
  span : Span

/-- Pieces one after the other, the first of which starts at the given offset. -/
def place (offset : Nat) : List Piece → List PlacedPiece
  | [] => []
  | p :: ps =>
    let stop := offset + Text.byteLength p.text
    ⟨p, ⟨offset, stop⟩⟩ :: place stop ps

/-- The token kind of a piece, if it is a token. -/
def kind? (p : Piece) : Option TokenKind :=
  match p.form with
  | .fixed => vocabulary.literalKind? (String.ofList p.text)
  | .identifier => vocabulary.kind? "Identifier"
  | .string => vocabulary.kind? "String"
  | .number => vocabulary.kind? "Number"
  | .docComment => vocabulary.kind? "DocComment"
  | _ => none

/-- The kind, the text and the place of a piece that is a token. -/
def token? (p : PlacedPiece) : Option (TokenKind × String × Span) :=
  (kind? p.piece).map fun kind => (kind, String.ofList p.piece.text, p.span)

/-- The report of a piece that is not valid. -/
def diagnostic? (p : PlacedPiece) : Option Diagnostic :=
  match p.piece.form with
  | .unterminated => some (.atSpan .unterminatedString "unterminated string literal" p.span
      "missing closing `\"`" [])
  | .invalid => some (.atSpan .invalidCharacter
      s!"invalid character `{String.ofList p.piece.text}`" p.span "not valid in LKT source" [])
  | _ => none

/-- The tokens of a source text, and the reports of what is not valid in it. -/
structure Lexed where
  tokens : TokenStream
  diagnostics : List Diagnostic

/-- The report of a source text whose offsets would be too large. -/
def tooLarge (size : Nat) : Diagnostic :=
  .atSpan .sourceTooLarge s!"source file is {size} bytes, the limit is {maxOffset}" (.point 0)
    "file not lexed" []

/-- Cut a source text into tokens, whose texts are interned. A text whose offsets would be too
large is reported and not cut. -/
def lex (names : Interner) (source : String) : Lexed × Interner :=
  let size := source.utf8ByteSize
  if maxOffset < size then (⟨.ofList [] 0, [tooLarge size]⟩, names)
  else
    let placed := place 0 (pieces source.toList)
    let (tokens, names) := Token.internAll names (placed.filterMap token?)
    (⟨.ofList tokens size, placed.filterMap diagnostic?⟩, names)

end CombinatorGrammar.Lkt
