import CombinatorGrammar.Symbol.Table

/-!
# Token kinds and vocabularies

A vocabulary lists the token kinds of one language. A kind has a name and possibly a fixed text.
Kind zero is the termination kind, which ends every token stream and has no fixed text. Names of
kinds are distinct by the symbol table that numbers them. Fixed texts are bound to kinds in a table
of their own, which is kept as kinds are defined; of two kinds with one fixed text, the first is
bound to it.
-/

namespace CombinatorGrammar

/-- A token kind, by its number in a vocabulary. -/
structure TokenKind where
  /-- The number itself. -/
  index : Nat
  deriving DecidableEq, Inhabited

/-- The kind that ends every token stream. -/
def TokenKind.termination : TokenKind := ⟨0⟩

/-- Whether a kind is the one that ends token streams. -/
def TokenKind.isTermination (kind : TokenKind) : Bool := kind == .termination

/-- The token kinds of a language, in the order of their definition. -/
structure Vocabulary where
  /-- Names of the kinds, each at its kind's number. -/
  names : SymbolTable
  /-- Fixed texts of the kinds, each at its kind's number. -/
  literals : Array (Option String)
  /-- The number of the kind that each fixed text is bound to. -/
  bindings : Std.TreeMap String Nat
  /-- Every kind has a name and a place for its fixed text. -/
  sizes : literals.size = names.size
  /-- Kind zero is the termination kind, which has no fixed text. -/
  first : names.get? 0 = some "Termination" ∧ literals[0]? = some none
  /-- A fixed text is bound to the first kind that has it. -/
  bindings_eq : ∀ text : String, bindings[text]? = literals.findIdx? (· == some text)

namespace Vocabulary

/-- The largest number of kinds that a vocabulary may hold. -/
def maxKinds : Nat := 65536

/-- The vocabulary of the termination kind only. -/
def initial : Vocabulary where
  names := (SymbolTable.empty.insert "Termination").2
  literals := #[none]
  bindings := ∅
  sizes := by
    rw [SymbolTable.size, (SymbolTable.entries_insert_of_find? (by rfl)).2]
    rfl
  first := ⟨SymbolTable.get?_insert SymbolTable.empty "Termination", rfl⟩
  bindings_eq := by simp

/-- The kind of a name. -/
def kind? (v : Vocabulary) (name : String) : Option TokenKind :=
  (v.names.find? name).map TokenKind.mk

/-- A new kind has one name and at most one fixed text. -/
private theorem sizes_insert {names : SymbolTable} {literals : Array (Option String)}
    (sizes : literals.size = names.size) {name : String} (fresh : names.find? name = none)
    (literal : Option String) : (literals.push literal).size = (names.insert name).2.size := by
  rw [SymbolTable.size, (SymbolTable.entries_insert_of_find? fresh).2, Array.size_push,
    Array.size_push, sizes, SymbolTable.size]

/-- The termination kind stays without a fixed text. -/
private theorem getElem?_push_zero {literals : Array (Option String)}
    (first : literals[0]? = some none) (literal : Option String) :
    (literals.push literal)[0]? = some none := by
  have inside := (Array.getElem?_eq_some_iff.mp first).1
  have other : 0 ≠ literals.size := by omega
  rw [Array.getElem?_push, if_neg other]
  exact first

/-- Bind the fixed text of one more kind, if it has one. A text that is bound already stays so. -/
def bind (bindings : Std.TreeMap String Nat) (literal : Option String) (kind : Nat) :
    Std.TreeMap String Nat :=
  match literal with
  | some text => bindings.insertIfNew text kind
  | none => bindings

/-- The first kind with a fixed text stays bound to it when another kind is added. -/
private theorem getElem?_bind {literals : Array (Option String)} {bindings : Std.TreeMap String Nat}
    (agree : ∀ text : String, bindings[text]? = literals.findIdx? (· == some text))
    (literal : Option String) (text : String) :
    (bind bindings literal literals.size)[text]? =
      (literals.push literal).findIdx? (· == some text) := by
  rw [Array.findIdx?_push, ← agree]
  cases literal with
  | none => simp [bind]
  | some other =>
    simp only [bind, Std.TreeMap.getElem?_insertIfNew, Std.TreeMap.mem_iff_isSome_getElem?,
      Std.compare_eq_iff_eq, beq_iff_eq, Option.some.injEq]
    by_cases same : other = text
    · subst same
      cases bindings[other]? <;> simp
    · simp [same]

private theorem fst_insert {names : SymbolTable} {literals : Array (Option String)}
    (sizes : literals.size = names.size) {name : String} (fresh : names.find? name = none) :
    (names.insert name).1 = literals.size := by
  rw [(SymbolTable.entries_insert_of_find? fresh).1, sizes]

/-- The kind of a name, defined with the given fixed text if the name is new. A name that has a
kind keeps it as it is. There is no answer when a new kind would exceed `maxKinds`. -/
def add (v : Vocabulary) (name : String) (literal : Option String) :
    Option (TokenKind × Vocabulary) :=
  match found : v.names.find? name with
  | some i => some (⟨i⟩, v)
  | none =>
    if v.names.size < maxKinds then
      let inserted := v.names.insert name
      some (⟨inserted.1⟩, {
        names := inserted.2
        literals := v.literals.push literal
        bindings := bind v.bindings literal inserted.1
        sizes := sizes_insert v.sizes found literal
        first := ⟨SymbolTable.get?_insert_of_get? name v.first.1,
          getElem?_push_zero v.first.2 literal⟩
        bindings_eq := fst_insert v.sizes found ▸ getElem?_bind v.bindings_eq literal })
    else none

/-- Define a kind by name alone. -/
def define (v : Vocabulary) (name : String) : Option (TokenKind × Vocabulary) :=
  v.add name none

/-- Define a kind whose tokens all have the given text. -/
def defineLiteral (v : Vocabulary) (name text : String) : Option (TokenKind × Vocabulary) :=
  v.add name (some text)

/-- The vocabulary of the termination kind and the listed kinds, each with its fixed text. -/
def ofList (kinds : List (String × Option String)) : Option Vocabulary :=
  kinds.foldlM (fun v kind => (v.add kind.1 kind.2).map Prod.snd) initial

/-- The kind that a fixed text is bound to. -/
def literalKind? (v : Vocabulary) (text : String) : Option TokenKind :=
  v.bindings[text]?.map TokenKind.mk

/-- The kind that a fixed text is bound to is the first that has it. -/
theorem literalKind?_eq (v : Vocabulary) (text : String) :
    v.literalKind? text = (v.literals.findIdx? (· == some text)).map TokenKind.mk := by
  rw [literalKind?, v.bindings_eq]

/-- The name of a kind; a kind of another vocabulary is called `?`. -/
def name (v : Vocabulary) (kind : TokenKind) : String :=
  (v.names.get? kind.index).getD "?"

/-- The fixed text of a kind, if it has one. -/
def literal? (v : Vocabulary) (kind : TokenKind) : Option String :=
  v.literals[kind.index]?.join

/-- A kind as it reads in messages: its fixed text in quotes, or else its name. -/
def describe (v : Vocabulary) (kind : TokenKind) : String :=
  match v.literal? kind with
  | some text => s!"'{text}'"
  | none => v.name kind

/-- How many kinds there are, the termination kind included. -/
def size (v : Vocabulary) : Nat := v.names.size

/-- Whether there is no kind, which is never so. -/
def isEmpty (v : Vocabulary) : Bool := v.size == 0

/-- All kinds, in the order of their definition. -/
def kinds (v : Vocabulary) : List TokenKind := (List.range v.size).map TokenKind.mk

end Vocabulary

end CombinatorGrammar
