import CombinatorGrammar.Grammar.Basic

/-!
# A language of predicates

Checks are predicates written as data: what a value is, what a token's text is, how long a list
is, and checks of a node's field. A check on a type or field that does not exist fails.
-/

namespace CombinatorGrammar

/-- A predicate on values, written as data. -/
inductive Check where
  /-- The given answer for every value. -/
  | const (answer : Bool)
  /-- A token with one of the texts. -/
  | textIn (texts : List String)
  /-- A node of the type or of a subtype. -/
  | isA (type : String)
  /-- A node, or an absent placeholder, of exactly the type. -/
  | nodeType (type : String)
  /-- A node that stands for a skipped token. -/
  | isError
  /-- A list whose length lies between the bounds. -/
  | listLength (least most : Nat)
  /-- A value that is absent. -/
  | absent
  /-- A value that ends at or before an offset. -/
  | endsBy (offset : Nat)
  /-- A node with a field whose value satisfies a check. -/
  | field (name : String) (check : Check)
  /-- A value that does not satisfy a check. -/
  | not (check : Check)
  deriving Inhabited

namespace Check

/-- Whether a value satisfies a check. -/
def holds (schema : Schema) (names : Interner) : Check → Value → Bool
  | const answer, _ => answer
  | textIn texts, v => v.token?.any fun t => texts.contains (names.text t.text)
  | isA type, v =>
    (schema.lookup? type).any fun sup => (v.isA? schema sup).getD false
  | nodeType type, v => (schema.lookup? type).any fun ref => v.nodeType? == some ref
  | isError, v => (v.isError? schema).getD false
  | listLength least most, v => v.items?.any fun items =>
      decide (least ≤ items.length) && decide (items.length ≤ most)
  | absent, v => v.isAbsent
  | endsBy offset, v => v.span?.any fun span => decide (span.stop ≤ offset)
  | field name check, v => (v.field? schema name).any fun part => check.holds schema names part
  | not check, v => !check.holds schema names v

/-- The predicate of a name and a check. -/
def toPredicate (name : String) (check : Check) : Predicate := ⟨name, check.holds⟩

end Check

end CombinatorGrammar
