import CombinatorGrammar.Symbol.Table

/-!
# Interned texts

An interner is a symbol table that holds the empty text from the start. A grammar and the tokens
it is run on take their names from one interner, so that a fixed text is compared with a token's
text by comparing two numbers.
-/

namespace CombinatorGrammar

/-- The number of a text in an interner. -/
structure Name where
  /-- The number itself. -/
  index : Nat
  deriving DecidableEq, Inhabited

/-- The name that every interner gives to the empty text. -/
def Name.empty : Name := ⟨0⟩

/-- A symbol table whose first entry is the empty text. -/
structure Interner where
  /-- The texts and their numbers. -/
  table : SymbolTable
  /-- The empty text has number zero. -/
  first : table.get? 0 = some ""

namespace Interner

/-- The interner that holds the empty text only. -/
def initial : Interner where
  table := (SymbolTable.empty.insert "").2
  first := SymbolTable.get?_insert SymbolTable.empty ""

/-- The name of a text, and the interner in which it has one. -/
def intern (names : Interner) (text : String) : Name × Interner :=
  let inserted := names.table.insert text
  (⟨inserted.1⟩, ⟨inserted.2, SymbolTable.get?_insert_of_get? text names.first⟩)

/-- The interner after interning each text in turn. -/
def internAll (names : Interner) (texts : List String) : Interner :=
  texts.foldl (fun names text => (names.intern text).2) names

/-- The name of a text that was interned before. -/
def find? (names : Interner) (text : String) : Option Name :=
  (names.table.find? text).map Name.mk

/-- The text of a name; a name that this interner never gave reads as the empty text. -/
def text (names : Interner) (name : Name) : String :=
  (names.table.get? name.index).getD ""

/-- How many texts are interned, the empty one included. -/
def size (names : Interner) : Nat := names.table.size

/-- Whether no text is interned, which is never so. -/
def isEmpty (names : Interner) : Bool := names.size == 0

/-- The name of a text is read back as the text. -/
theorem text_intern (names : Interner) (t : String) :
    (names.intern t).2.text (names.intern t).1 = t := by
  simp only [text, intern, SymbolTable.get?_insert, Option.getD_some]

end Interner

end CombinatorGrammar
