import CombinatorGrammar.Lkt.Vocabulary

/-!
# Pieces of a source text

A source text is cut into pieces from left to right. Each piece is the longest text that one of
the forms matches at its place; of forms that match equally long texts, the fixed texts come
first. Where no form matches, one character is a piece of its own. The pieces one after the other
are the whole text.
-/

namespace CombinatorGrammar.Lkt

/-- What a piece of the source text is. -/
inductive Form where
  /-- A word or a sign with a fixed text. -/
  | fixed
  | identifier
  | string
  | number
  | docComment
  /-- Blanks between tokens. -/
  | blank
  | comment
  /-- A string without its closing quotation mark. -/
  | unterminated
  /-- A character that no form begins with. -/
  | invalid
  deriving DecidableEq, Inhabited

/-- Whether a character is a blank: a space, a tab, a line end or a form feed. -/
def isBlank (c : Char) : Bool :=
  c == ' ' || c == '\t' || c == '\r' || c == '\n' || c == '\x0c'

/-- Whether an identifier may begin with the character. -/
def beginsIdentifier (c : Char) : Bool := c.isAlpha || c == '_'

/-- Whether an identifier may go on with the character. -/
def continuesIdentifier (c : Char) : Bool := c.isAlphanum || c == '_'

/-- Whether a comment goes on with the character. -/
def inComment (c : Char) : Bool := c != '\n'

/-- The number of characters from the beginning that satisfy a condition. -/
def runLength (p : Char → Bool) (cs : List Char) : Nat := (cs.takeWhile p).length

/-- The length of a fixed text if the characters begin with it, and otherwise zero. -/
def fixedLength (text cs : List Char) : Nat := if text.isPrefixOf cs then text.length else 0

/-- The length of an identifier at the beginning, or zero. -/
def identifierLength : List Char → Nat
  | [] => 0
  | c :: cs => if beginsIdentifier c then 1 + runLength continuesIdentifier cs else 0

/-- The length of the inside of a string: characters other than a quotation mark, a backslash and
a newline, and pairs of a backslash and a character other than a newline. -/
def insideLength : List Char → Nat
  | [] => 0
  | '\\' :: [] => 0
  | '\\' :: c :: cs => if c = '\n' then 0 else 2 + insideLength cs
  | c :: cs => if c = '"' || c = '\n' then 0 else 1 + insideLength cs

/-- The length of a string that may lack its closing quotation mark, or zero. -/
def unterminatedLength : List Char → Nat
  | '"' :: cs => 1 + insideLength cs
  | _ => 0

/-- The length of a string with its closing quotation mark, or zero. -/
def stringLength (cs : List Char) : Nat :=
  let n := unterminatedLength cs
  if 0 < n ∧ cs[n]? = some '"' then n + 1 else 0

/-- The length of a comment at the beginning, or zero. A second number sign does not belong to
it. -/
def commentLength : List Char → Nat
  | '#' :: '#' :: _ => 1
  | '#' :: cs => 1 + runLength inComment cs
  | _ => 0

/-- The length of a documentation comment at the beginning, or zero. -/
def docCommentLength : List Char → Nat
  | '#' :: '#' :: cs => 2 + runLength inComment cs
  | _ => 0

/-- The forms, each with the length of the longest text that it matches at the beginning. -/
def forms : List (Form × (List Char → Nat)) :=
  fixedKinds.map (fun (_, text) => (.fixed, fixedLength text.toList)) ++
    [(.blank, runLength isBlank), (.comment, commentLength), (.docComment, docCommentLength),
      (.identifier, identifierLength), (.string, stringLength),
      (.unterminated, unterminatedLength), (.number, runLength Char.isDigit)]

/-- The form of the longest match at the beginning with its length, which is zero if no form
matches. The first of equally long matches counts. -/
def longest (cs : List Char) : Form × Nat :=
  forms.foldl
    (fun best form =>
      let n := form.2 cs
      if best.2 < n then (form.1, n) else best)
    (.invalid, 0)

/-- A piece of the source text. -/
structure Piece where
  form : Form
  text : List Char
  deriving DecidableEq

/-- The pieces of a source text. -/
def pieces : List Char → List Piece
  | [] => []
  | c :: cs =>
    let (form, n) := longest (c :: cs)
    -- without a match the piece is the first character
    ⟨form, c :: cs.take (n - 1)⟩ :: pieces (cs.drop (n - 1))
termination_by cs => cs.length

/-- Nothing is lost: the pieces one after the other are the source text. -/
theorem flatMap_text_pieces (source : List Char) :
    (pieces source).flatMap Piece.text = source := by
  fun_induction pieces source with
  | case1 => rfl
  | case2 c cs form n found ih =>
    rw [List.flatMap_cons, ih, List.cons_append, List.take_append_drop]

end CombinatorGrammar.Lkt
