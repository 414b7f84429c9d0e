import CombinatorGrammar.Token.Vocabulary

/-!
# Token kinds of LKT

LKT is a language for describing languages: their node types, and their grammars in combinators.
Its tokens are identifiers, strings, numbers, documentation comments, and words and signs with
fixed texts.
-/

namespace CombinatorGrammar.Lkt

/-- Names of the kinds without a fixed text. -/
def openKinds : List String := ["Identifier", "String", "Number", "DocComment"]

/-- Names of the kinds with a fixed text, and those texts. -/
def fixedKinds : List (String × String) :=
  [("Grammar", "grammar"), ("Class", "class"), ("Fun", "fun"), ("Isa", "isa"), ("Null", "null"),
    ("Or", "or"), ("ListPlus", "list+"), ("ListStar", "list*"), ("LBrace", "\x7b"),
    ("RBrace", "\x7d"), ("LPar", "("), ("RPar", ")"), ("LBrack", "["), ("RBrack", "]"),
    ("LArrow", "<-"), ("FatRightArrow", "=>"), ("PipeGt", "|>"), ("Pipe", "|"),
    ("Question", "?"), ("Slash", "/"), ("At", "@"), ("Colon", ":"), ("Comma", ","),
    ("Equal", "="), ("Dot", "."), ("Excl", "!")]

/-- All kinds but the termination kind, in the order of their definition. -/
def kinds : List (String × Option String) :=
  openKinds.map (fun name => (name, none)) ++
    fixedKinds.map fun (name, text) => (name, some text)

/-- The vocabulary of LKT. -/
def vocabulary : Vocabulary := (Vocabulary.ofList kinds).getD .initial

end CombinatorGrammar.Lkt
