/-!
# Combinators by name

A combinator describes how to match a piece of the input and what values to yield. It refers to
rules, token kinds, types and predicates by name; the names are looked up when the grammar is
resolved. A token given by its fixed text is dropped from the values, one given by its kind is
kept, and `keep` and `discard` change that.
-/

namespace CombinatorGrammar

/-- How a combinator says which token kind it matches. -/
inductive TokenName where
  /-- By the name of the kind. -/
  | kind (name : String)
  /-- By the fixed text of the kind. -/
  | literal (text : String)
  deriving DecidableEq

/-- How many elements a list has at least. -/
inductive Repetition where
  | zeroOrMore
  | oneOrMore
  deriving DecidableEq, Inhabited

/-- How to match a piece of the input. -/
inductive Combinator where
  /-- One token, with the given text if there is one; `keep` tells whether it is a value. -/
  | token (token : TokenName) (text : Option String) (keep : Bool)
  /-- What a rule matches. -/
  | rule (name : String)
  /-- Items one after the other. -/
  | seq (items : List Combinator)
  /-- The first alternative that matches. -/
  | choice (alternatives : List Combinator)
  /-- The operand, or nulls in its place. -/
  | opt (operand : Combinator)
  /-- The values of the operand as one list, which is empty if the operand is not there. -/
  | group (operand : Combinator)
  /-- Elements one after the other. -/
  | list (repetition : Repetition) (element : Combinator)
  /-- Elements with a separator between each two. -/
  | sepList (repetition : Repetition) (element separator : Combinator)
  /-- In a sequence: from here on a failure is final. -/
  | cut
  /-- The operand, if its value satisfies a predicate. -/
  | predicate (name : String) (operand : Combinator)
  /-- Any one token, in the place of which an error node stands. -/
  | skip (errorType : String)
  /-- The operand, in which no skip takes a token that the guard matches. -/
  | protect (operand guard : Combinator)
  /-- Nothing; the value is an absent placeholder of a node type. -/
  | null (type : String)
  /-- A node built from the values of the operand. -/
  | node (type : String) (operand : Combinator)
  /-- An alternative of an enum type, if the operand matches. -/
  | enum (type alternative : String) (operand : Combinator)
  deriving Inhabited

namespace Combinator

/-- The token whose kind has the fixed text, dropped from the values. -/
def lit (text : String) : Combinator := token (.literal text) none false

/-- A token of the kind, kept as a value. -/
def kind (name : String) : Combinator := token (.kind name) none true

/-- A token of the kind with the given text, kept as a value. -/
def kindText (name text : String) : Combinator := token (.kind name) (some text) true

/-- Keep or drop the token of a token match; other combinators stay as they are. -/
def withKeep (keep : Bool) : Combinator → Combinator
  | token t text _ => token t text keep
  | other => other

/-- Keep the token of a token match. -/
def keep (c : Combinator) : Combinator := c.withKeep true

/-- Drop the token of a token match. -/
def discard (c : Combinator) : Combinator := c.withKeep false

/-- Zero or more elements. -/
def many (element : Combinator) : Combinator := list .zeroOrMore element

/-- One or more elements. -/
def many1 (element : Combinator) : Combinator := list .oneOrMore element

/-- Put a separator between the elements of a list, in place of the one it has; other combinators
stay as they are. -/
def sep : Combinator → Combinator → Combinator
  | list repetition element, separator => sepList repetition element separator
  | sepList repetition element _, separator => sepList repetition element separator
  | other, _ => other

/-- Whether the combinator is itself a skip. -/
def isSkip : Combinator → Bool
  | skip _ => true
  | _ => false

end Combinator

end CombinatorGrammar
