import CombinatorGrammar.Proofs.Run.Shadowing
import CombinatorGrammar.Proofs.Values.Construction

/-!
# Groups in values

The node of a mark in front of parentheses is built by one rule only, and there where a mark in
front of one expression has failed softly. So no tree holds such a node with an expression in it.
-/

namespace CombinatorGrammar

/-- Every node in the value has fields of which the property holds with the type of the node. -/
inductive Value.NodesHave (P : NodeRef → List Value → Prop) : Value → Prop
  | token (t : Token) : NodesHave P (.token t)
  | node {type : NodeRef} {span : Span} {fields : List Value} :
      P type fields → (∀ v ∈ fields, NodesHave P v) → NodesHave P (.node type span fields)
  | list {items : List Value} : (∀ v ∈ items, NodesHave P v) → NodesHave P (.list items)
  | enum (type : EnumRef) (alternative : Nat) (span : Span) :
      NodesHave P (.enum type alternative span)
  | null : NodesHave P .null
  | absent (type : NodeRef) : NodesHave P (.absent type)

namespace OptionalGroups

variable {x : Session} {call : Call} {s s' : State} {l : OptionalGroups} {values : List Value}

/-- Every group in the value is empty. -/
def GroupsEmpty (l : OptionalGroups) : Value → Prop :=
  Value.NodesHave fun type fields => type = l.group → fields = [.list []]

/-- Matchers that do not build groups keep all groups empty. -/
theorem keeps_groupsEmpty {body : Matcher} (others : ∀ m ∈ body.parts, m.builds l.group = false) :
    x.Keeps call (· ∈ body.parts) l.GroupsEmpty where
  operand := Matcher.operand_mem_parts
  token _ := .token _
  null := .null
  absent type _ := .absent type
  enum type alternative _ span _ := .enum type alternative span
  list _ items := .list items
  skip _ _ part :=
    .node (fun same => absurd same (of_decide_eq_false (others _ part))) (List.forall_mem_nil _)
  node _ _ _ _ _ _ _ _ part _ operands :=
    .node (fun same => absurd same (of_decide_eq_false (others _ part)))
      (Value.forall_mem_zipWith_fitNull (fun type _ => .absent type)
        (.list (List.forall_mem_nil _)) operands)

/-- On every level, groups in the values of calls are empty. -/
theorem Rules.call_groupsEmpty (rules : l.Rules x.program) {remaining depth : Nat} {ref : RuleRef}
    {active : List (RuleRef × Nat)} {guards : List Matcher}
    (called : x.call remaining depth ref active guards s = .ok (.success values, s')) :
    ∀ v ∈ values, l.GroupsEmpty v := by
  induction remaining generalizing depth ref active guards s values s' with
  | zero =>
    obtain ⟨rest, none, _⟩ := Session.call_eq_ok_iff.mp called
    cases none
  | succ remaining ih =>
    obtain ⟨rest, same, _, entered⟩ := Session.call_eq_ok_iff.mp called
    cases same
    rcases Session.enter_cases entered with ⟨rule, found, run⟩ | ⟨_, none, _⟩
    · by_cases isOpt : ref = l.opt
      · subst isOpt
        obtain ⟨name, known⟩ := rules.opt
        obtain rfl := Option.some.inj (known.symm.trans found)
        cases run with
        | choice run =>
          rw [show Matcher.recovers [l.one, l.several] = false from rfl, Bool.false_and] at run
          cases run with
          | alternatives_passed passed _ => cases passed
          | alternatives_success _ single =>
            have others : ∀ m ∈ l.one.parts, m.builds l.group = false := by
              simp [one, Matcher.parts, Matcher.partsOfAll, Matcher.builds, rules.apart]
            exact single.builds (keeps_groupsEmpty others)
              (fun _ _ _ _ _ _ called => ih called) values rfl (Matcher.mem_parts_self _)
          | alternatives_soft _ single rest =>
            cases rest with
            | alternatives_passed passed _ => cases passed
            | alternatives_success _ several =>
              rw [rules.several_of_soft (t := State.rewind _ s.mark) single rfl several]
              refine List.forall_mem_singleton.mpr (.node (fun _ => rfl) ?_)
              exact List.forall_mem_singleton.mpr (.list (List.forall_mem_nil _))
            | alternatives_soft _ _ rest => cases rest
      · have others : ∀ m ∈ rule.body.parts, m.builds l.group = false := fun m part => by
          simpa [isOpt] using rules.only ref rule found m part
        exact run.builds (keeps_groupsEmpty others) (fun _ _ _ _ _ _ called => ih called) values rfl
          (Matcher.mem_parts_self _)
    · cases none

/-- All groups in the tree of a parse are empty. -/
theorem Rules.parse_groupsEmpty {p : Program} (rules : l.Rules p) {names : Interner}
    {tokens : TokenStream} {config : ParseConfig} {output : ParseOutput} {root : Value}
    (ran : p.parse names tokens config = .ok output) (succeeds : output.root = some root) :
    l.GroupsEmpty root :=
  Program.parse_of_calls (fun _ _ _ _ _ _ called => call_groupsEmpty rules called)
    (fun _ items => .list items) ran succeeds

end OptionalGroups

end CombinatorGrammar
