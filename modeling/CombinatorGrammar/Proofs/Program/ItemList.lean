import CombinatorGrammar.Program.Basic

/-!
# Programs that match a list of items

A source of declarations is a list of items up to the end of the input, any of which may be skipped
token by token. Here stands what it means that a program is of this form, and the function that
finds its parts.
-/

namespace CombinatorGrammar

/-- The rules and nodes of a program that matches a list of items, each a node or a token skipped,
and makes one root node of it. -/
structure ItemList where
  root : NodeRef
  /-- The rule of the whole list. -/
  list : RuleRef
  /-- The rule of one item. -/
  item : RuleRef
  node : NodeRef
  /-- The node of a skipped token. -/
  error : NodeRef

/-- What one turn of the list matches: an item, or else a token that is skipped. -/
def ItemList.element (l : ItemList) : Matcher := .choice [.rule l.item, .skip l.error]

/-- The list of items that a program matches, if it is of that form. -/
def Program.itemList? (p : Program) : Option ItemList :=
  match p.rule? p.entry with
  | some ⟨_, .node root [.list _] (.seq [.rule list, .token kind none false])⟩ =>
    match p.rule? list with
    | some ⟨_, .list .zeroOrMore (.choice [.rule item, .skip error])⟩ =>
      match p.rule? item with
      | some ⟨_, .node node _ _⟩ =>
        if kind = .termination then some ⟨root, list, item, node, error⟩ else none
      | _ => none
    | _ => none
  | _ => none

/-- The bodies of the rules of a list of items. -/
structure ItemList.Rules (p : Program) (l : ItemList) : Prop where
  entry : ∃ name kind, p.rule? p.entry =
    some ⟨name, .node l.root [.list kind] (.seq [.rule l.list, .token .termination none false])⟩
  list : ∃ name, p.rule? l.list = some ⟨name, .list .zeroOrMore l.element⟩
  item : ∃ name layout m, p.rule? l.item = some ⟨name, .node l.node layout m⟩

/-- A list of items that is found in a program has the rules that it tells. -/
theorem ItemList.rules_of_itemList? {p : Program} {l : ItemList} (h : p.itemList? = some l) :
    l.Rules p := by
  unfold Program.itemList? at h
  split at h
  · next _ _ _ _ _ entry =>
    split at h
    · next _ _ _ list =>
      split at h
      · next _ _ _ _ item =>
        split at h
        · next termination =>
          obtain rfl := Option.some.inj h
          subst termination
          exact ⟨⟨_, _, entry⟩, ⟨_, list⟩, ⟨_, _, _, item⟩⟩
        · cases h
      · cases h
    · cases h
  · cases h

end CombinatorGrammar
