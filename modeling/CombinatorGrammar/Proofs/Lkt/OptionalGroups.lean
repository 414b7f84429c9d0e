import CombinatorGrammar.Proofs.Lkt.Interners
import CombinatorGrammar.Proofs.Values.EmptyGroups

/-!
# Optional groups of LKT

In a grammar of LKT a question mark may stand in front of one expression or of several ones in
parentheses. As expressions in parentheses are an expression, the second way is left with nothing
but empty parentheses.
-/

namespace CombinatorGrammar.Lkt

/-- What is known of the ways to write what is optional is known under other names as well. -/
theorem Groups.rename {p : Program} {l : OptionalGroups} (groups : Groups p l) (ρ : Name → Name) :
    Groups (p.rename ρ) l where
  rules := groups.rules.rename ρ
  single := groups.single
  group := groups.group
  uncut := by
    obtain ⟨uncut, plain, known⟩ := groups.uncut
    exact ⟨uncut, plain.rename ρ fun ref m => by rw [Matcher.isUncut_rename], known⟩

/-- The program of every front end has the two ways to write what is optional. -/
theorem exists_groups_of_over {known : Interner} {f : FrontEnd}
    (made : FrontEnd.over known = .ok f) : ∃ l, Groups f.program l := by
  obtain ⟨fresh, ρ, charted, same⟩ := exists_rename_of_over made
  obtain ⟨l, groups⟩ := charted.groups
  exact ⟨l, same ▸ groups.rename ρ⟩

/-- The optional group of LKT is shadowed. Whatever the tokens and the configuration are, all nodes
in the tree of a parse that stand for a question mark in front of parentheses have an empty list.
For where parentheses with expressions in them match behind the mark, the alternative in front, a
question mark in front of one expression, does match if it is not stopped: in the same calls, and
whatever the rules in progress and the guards are. -/
theorem groups_shadowed {known : Interner} {f : FrontEnd} (made : FrontEnd.over known = .ok f) :
    ∃ l : OptionalGroups, l.Rules f.program ∧
      f.program.schema.lookup? "GrammarOpt" = some l.single ∧
      f.program.schema.lookup? "GrammarOptGroup" = some l.group ∧
      ∀ names tokens config,
        (∀ output root, f.program.parse names tokens config = .ok output →
          output.root = some root →
          root.NodesHave fun type fields => type = l.group → fields = [.list []]) ∧
        ∀ remaining depth cx s t o t' span items s',
          let x := f.program.session names tokens config
          x.Runs (x.call remaining depth) (.matcher l.several) cx s
              (.success [.node l.group span [.list items]]) s' → items ≠ [] →
            t.position = s.position → x.Runs (x.call remaining depth) (.matcher l.one) cx t o t' →
            o.isSuccess = true := by
  obtain ⟨l, groups⟩ := exists_groups_of_over made
  obtain ⟨uncut, plain, known⟩ := groups.uncut
  refine ⟨l, groups.rules, groups.single, groups.group, fun names tokens config => ⟨?_, ?_⟩⟩
  · exact fun output root ran found => groups.rules.parse_groupsEmpty ran found
  · intro remaining depth cx s t o t' span items s' x several some here single
    exact groups.rules.single_isSuccess (x := x) plain known single here.symm some several

/-- In a grammar declaration with both ways the first rule is a group, which is empty, and the
second rule, with a string in the parentheses, is none. -/
theorem groups_shadowed_optionalTokens :
    ∃ f single group output root, frontEnd = .ok f ∧
      f.program.schema.lookup? "GrammarOpt" = some single ∧
      f.program.schema.lookup? "GrammarOptGroup" = some group ∧
      f.program.parse f.names optionalTokens ⟨16, false⟩ = .ok output ∧ output.root = some root ∧
      expressionType? f.program root 0 = some group ∧
      expressionType? f.program root 1 = some single ∧
      root.NodesHave fun type fields => type = group → fields = [.list []] := by
  obtain ⟨f, made, charted⟩ := exists_charted
  obtain ⟨output, root, ran, found, first, second⟩ := charted.reads_optionals
  obtain ⟨l, _, single, group, shadowed⟩ := groups_shadowed made
  exact ⟨f, l.single, l.group, output, root, made, single, group, ran, found, first.trans group,
    second.trans single, (shadowed f.names optionalTokens ⟨16, false⟩).1 output root ran found⟩

end CombinatorGrammar.Lkt
