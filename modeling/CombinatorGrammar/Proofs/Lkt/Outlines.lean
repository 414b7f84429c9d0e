import CombinatorGrammar.Proofs.Lkt.Accounting
import CombinatorGrammar.Proofs.Lkt.Formatting
import CombinatorGrammar.Proofs.Lkt.Interners
import CombinatorGrammar.Proofs.Token.Vocabulary
import CombinatorGrammar.Proofs.Values.Spelling

/-!
# Outlines of LKT sources

The node types and the token kinds of LKT have names that outlines can be read with, and the tokens
of a source have the texts of their kinds. So the outline of a tree tells all of it but the spans,
whatever other texts the interner knows.
-/

namespace CombinatorGrammar

namespace Vocabulary

variable {v : Vocabulary} {kind : TokenKind}

/-- A kind that is found by its fixed text has a name. -/
theorem exists_name_of_literalKind? {text : String} (h : v.literalKind? text = some kind) :
    ∃ name, v.names.get? kind.index = some name := by
  have among : kind ∈ v.kinds := mem_kinds_of_literal? (literal?_of_literalKind? h)
  obtain ⟨name, known⟩ := mem_kinds_iff_exists.mp among
  exact ⟨name, kind?_eq_some_iff.mp known⟩

/-- A kind that is found by its name has it. -/
theorem exists_name_of_kind? {name : String} (h : v.kind? name = some kind) :
    ∃ name, v.names.get? kind.index = some name :=
  ⟨name, kind?_eq_some_iff.mp h⟩

end Vocabulary

/-- The termination token has the text of its kind. -/
theorem Token.spelled_termination (v : Vocabulary) (names : Interner) (offset : Nat) :
    (termination offset).Spelled v names where
  kind := ⟨_, v.first.1⟩
  text := by
    refine ⟨"", names.gives_empty, fun word fixed => ?_, fun _ => rfl⟩
    rw [Vocabulary.literal?, show v.literals[(termination offset).kind.index]? = some none from
      v.first.2] at fixed
    cases fixed

namespace Lkt

/-- The tokens of pieces are of kinds of LKT. -/
theorem exists_name_of_kind? {p : Piece} {kind : TokenKind} (h : kind? p = some kind) :
    ∃ name, vocabulary.names.get? kind.index = some name := by
  rw [kind?] at h
  split at h
  · exact Vocabulary.exists_name_of_literalKind? h
  · exact Vocabulary.exists_name_of_kind? h
  · exact Vocabulary.exists_name_of_kind? h
  · exact Vocabulary.exists_name_of_kind? h
  · exact Vocabulary.exists_name_of_kind? h
  · cases h

/-- The tokens of a source have the texts of their kinds. -/
theorem spelled_lex (f : FrontEnd) (source : String) (position : Nat) :
    ((f.lex source).lexed.tokens.token position).Spelled vocabulary (f.lex source).names := by
  have among := List.mem_of_getElem? ((f.lex source).lexed.tokens.getElem?_toList_min position)
  obtain ⟨text, given⟩ := named_lex f source _ among
  rcases List.mem_append.mp among with inside | last
  · have listed := Array.mem_toList_iff.mp inside
    obtain ⟨p, _, found, same, _⟩ := exists_piece_of_mem_tokens f.names listed
    refine ⟨exists_name_of_kind? found, text, given, fun word fixed => ?_, fun final => ?_⟩
    · exact (Interner.text_of_gives given).symm.trans (same.trans (text_of_literal? found fixed))
    · rw [(f.lex source).lexed.tokens.body_kind _ listed] at final
      cases final
  · rw [List.mem_singleton.mp last, show (f.lex source).lexed.tokens.last = _ from
      (tokens_lex f.names source).2]
    exact Token.spelled_termination ..

/-- The names of LKT can be read. -/
theorem legible_declarations {s : Schema} (declared : Schema.ofDeclarations declarations = .ok s) :
    Legible vocabulary s ∧ s.FieldsDeclared := by
  have read : (Schema.ofDeclarations declarations).toOption.all (fun s =>
      decide (Vocabulary.Legible vocabulary ∧ s.Legible ∧ s.FieldsDeclared)) = true := by
    rw [ofDeclarations_declarations]
    decide +kernel
  rw [declared, Except.toOption, Option.all_some] at read
  obtain ⟨kinds, types, fields⟩ := of_decide_eq_true read
  exact ⟨⟨types, kinds⟩, fields⟩

/-- Over any interner, a front end has the declared types and the declared kinds. -/
theorem schema_of_over {known : Interner} {f : FrontEnd} (made : FrontEnd.over known = .ok f) :
    Schema.ofDeclarations declarations = .ok f.program.schema ∧
      f.program.vocabulary = vocabulary := by
  obtain ⟨g, assembled, resolved⟩ := resolve_of_over made
  delta Lkt.grammar at assembled
  obtain ⟨schema, declared, _, rfl⟩ := Grammar.assemble_eq_ok_iff.mp assembled
  obtain ⟨_, entry, rules, _, _, parts⟩ := Grammar.resolve_eq_ok resolved
  rw [parts]
  exact ⟨declared, rfl⟩

/-- The tree of a source has what its outline is read with, in the interner that it was cut with. -/
theorem spelled_root {known : Interner} {f : FrontEnd} (made : FrontEnd.over known = .ok f)
    {texts : List String} {source : String} {config : ParseConfig} {read : ParsedSource}
    {lexed : LexedSource} {root : Value}
    (parsed : (f.knowing texts).parse source config = .ok (read, lexed))
    (found : read.root = some root) :
    root.Spelled f.program.vocabulary f.program.schema lexed.names := by
  obtain ⟨g, _, resolved⟩ := resolve_of_over made
  obtain ⟨_, _, charted, same⟩ := exists_rename_of_over made
  obtain ⟨declared, words⟩ := schema_of_over made
  have inferred : f.program.Inferred := same ▸ charted.inferred.rename _
  have checked := (Grammar.checked_of_resolve resolved).2
  have fields := (legible_declarations declared).2
  rw [FrontEnd.parse] at parsed
  cases ran : (f.knowing texts).parseLexed ((f.knowing texts).lex source) config with
  | error fault =>
    rw [ran] at parsed
    cases parsed
  | ok output =>
    rw [ran] at parsed
    obtain ⟨rfl, rfl⟩ := Prod.mk.inj (Except.ok.inj parsed)
    refine Program.parse_builds (fun _ _ => Session.keeps_spelled checked (inferred.tallied checked)
      (Program.definiteOperands_of_known (inferred.isSome_arity? checked))
      (Schema.errorsBare_of_ofDeclarations declared) (Program.declares_of_resolve resolved) fields
      (fun position => ?_) _ _) ran found
    exact words ▸ spelled_lex (f.knowing texts) source position

/-- The outline of a tree tells all of it but the spans. The trees of two sources, read with front
ends over any interners that have come to know any texts, have one outline if and only if they are
alike: the same nodes with the same fields, lists of the same lengths, the same alternatives and
placeholders, and tokens of the same kinds with the same texts. -/
theorem outline_eq_iff {known known' : Interner} {f f' : FrontEnd}
    (made : FrontEnd.over known = .ok f) (made' : FrontEnd.over known' = .ok f')
    {texts texts' : List String} {source source' : String} {config config' : ParseConfig}
    {read read' : ParsedSource} {lexed lexed' : LexedSource} {root root' : Value}
    (parsed : (f.knowing texts).parse source config = .ok (read, lexed))
    (parsed' : (f'.knowing texts').parse source' config' = .ok (read', lexed'))
    (found : read.root = some root) (found' : read'.root = some root') :
    (f.program.outlineContext lexed.names).outline root =
        (f'.program.outlineContext lexed'.names).outline root' ↔
      root.Like (.texts lexed.names lexed'.names fun _ _ => True) root' := by
  obtain ⟨declared, words⟩ := schema_of_over made
  obtain ⟨declared', words'⟩ := schema_of_over made'
  have schemas : f'.program.schema = f.program.schema :=
    Except.ok.inj (declared'.symm.trans declared)
  have spelled := spelled_root made parsed found
  have spelled' := spelled_root made' parsed' found'
  have contexts (names : Interner) :
      f'.program.outlineContext names = f.program.outlineContext names := by
    rw [Program.outlineContext, Program.outlineContext, schemas, words, words']
  rw [schemas, words', ← words] at spelled'
  rw [contexts]
  have legible : Legible f.program.vocabulary f.program.schema :=
    words ▸ (legible_declarations declared).1
  constructor
  · exact (f.program.outlineContext lexed.names).like_of_outline legible spelled spelled'
  · exact fun alike => (outline_eq_of_like alike).symm

/-- A grammar on one line, and on several with a comment: the outlines are the same, so the trees
are alike, although their tokens stand in other places. -/
theorem outline_eq_iff_grammar :
    ∃ f read read' lexed lexed' root root', frontEnd = .ok f ∧
      (f.knowing []).parse grammarLine ⟨16, false⟩ = .ok (read, lexed) ∧
      (f.knowing []).parse grammarLines ⟨16, false⟩ = .ok (read', lexed') ∧
      read.root = some root ∧ read'.root = some root' ∧
      root.Like (.texts lexed.names lexed'.names fun _ _ => True) root' := by
  obtain ⟨f, made, charted⟩ := exists_charted
  have agree := charted.outlines
  unfold outlinesAgree at agree
  split at agree
  · next root remarks lexed root' remarks' lexed' parsed parsed' =>
    have knows : f.knowing [] = f := rfl
    rw [← knows] at parsed parsed'
    exact ⟨f, _, _, lexed, lexed', root, root', made, parsed, parsed', rfl, rfl,
      (outline_eq_iff made made parsed parsed' rfl rfl).mp (eq_of_beq agree)⟩
  · cases agree

end Lkt

end CombinatorGrammar
