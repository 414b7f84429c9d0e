import CombinatorGrammar.Proofs.Lkt.Chart
import CombinatorGrammar.Proofs.Run.Levels
import CombinatorGrammar.Proofs.Values.Shape

/-!
# Shapes are sound

In a program of which inference knows everything, the values of every success have the shapes of
the matcher's signature, one each. So a node has a value for each field of its type, and whatever
is known of the value before parsing is what the field asks for.
-/

namespace CombinatorGrammar

/-- The fields are as many as the type has, and a field of whose shape everything is known holds
what its kind asks for. -/
structure FieldsFit (schema : Schema) (shapes : Signature) (type : NodeRef)
    (fields : List Value) : Prop where
  length_eq : fields.length = schema.fieldCount type
  fits : ∀ (i : Nat) (shape : Shape) (field : Field) (v : Value), shapes[i]? = some shape →
    (schema.layout type)[i]? = some field → fields[i]? = some v → shape.definite = true →
    v.Fits schema field.kind

namespace Program

/-- The matcher has a signature, whose shapes the values have. -/
def Types (p : Program) (m : Matcher) (values : List Value) : Prop :=
  ∃ shapes, p.signature? m = some shapes ∧ shapes.Conforms p.schema values

variable {p : Program} {m n : Matcher} {ms : List Matcher} {values more : List Value}

/-- Matchers of one signature have the same values. -/
theorem Types.of_signature?_eq (h : p.Types m values) (same : p.signature? n = p.signature? m) :
    p.Types n values := by
  obtain ⟨shapes, known, conforms⟩ := h
  exact ⟨shapes, same.trans known, conforms⟩

theorem types_seq_nil : p.Types (.seq []) [] := ⟨[], rfl, .nil⟩

/-- A sequence has the values of its first item before those of the others. -/
theorem Types.seq_cons (h : p.Types m values) (h' : p.Types (.seq ms) more) :
    p.Types (.seq (m :: ms)) (values ++ more) := by
  obtain ⟨shapes, known, conforms⟩ := h
  obtain ⟨rest, later, conform⟩ := h'
  refine ⟨shapes ++ rest, ?_, conforms.append conform⟩
  simp only [signature?, Matcher.signature?, Matcher.signatures] at known later ⊢
  rw [known, Signature.concat_some, later]
  rfl

/-- What an alternative yields has the shapes of the choice. -/
theorem Types.choice (inferred : p.Inferred) (checked : p.Checked) (part : .choice ms ∈ p.parts)
    (among : m ∈ ms) (h : p.Types m values) : p.Types (.choice ms) values := by
  obtain ⟨joined, found⟩ := Option.isSome_iff_exists.mp (inferred.isSome_signature? checked part)
  obtain ⟨shapes, known, conforms⟩ := h
  have listed : ∀ t, some t ∈ Matcher.signatures p.schema p.signatures.get? ms ↔
      ∃ n ∈ ms, p.signature? n = some t := by
    intro t
    rw [Matcher.signatures_eq_map, List.mem_map]
    rfl
  refine ⟨joined, found, Signature.conforms_alternatives found (fun t member => ?_)
    ((listed shapes).mpr ⟨m, among, known⟩) conforms⟩
  obtain ⟨n, beside, same⟩ := (listed t).mp member
  have counted : p.arity? (.choice ms) = some t.length :=
    (checked.valid_part part).choice beside (by rw [arity?_eq_length, same]; rfl)
  rw [arity?_eq_length, found, Option.map_some, Option.some.injEq] at counted
  exact counted.symm

/-- The nulls that stand for an optional conform to its shape. -/
theorem Types.opt_nulls (inferred : p.Inferred) (checked : p.Checked)
    (part : .opt m ∈ p.parts) : p.Types (.opt m) (List.replicate (p.arity m) .null) := by
  obtain ⟨shapes, known⟩ := Option.isSome_iff_exists.mp (inferred.isSome_signature? checked part)
  have number : p.arity m = shapes.length := by
    rw [arity_eq_getD, arity?_eq_length, show p.signature? m = some shapes from known]
    rfl
  exact ⟨shapes, known, number ▸ Signature.Conforms.replicate_null shapes⟩

/-- A group has its values as one list. -/
theorem Types.group (h : p.Types m values) : p.Types (.group m) [.list values] := by
  obtain ⟨shapes, known, conforms⟩ := h
  refine ⟨_, rfl, .cons ?_ .nil⟩
  rw [show m.signature? p.schema p.signatures.get? = some shapes from known]
  exact .list (Signature.conforms_groupElement conforms)

theorem types_group_nil : p.Types (.group m) [.list []] :=
  ⟨_, rfl, .cons (.list (List.forall_mem_nil _)) .nil⟩

/-- What an element of a list yields has the shape of the list's elements. -/
theorem Types.elements (h : p.Types m values) :
    ∀ v ∈ values, v.Conforms p.schema (Signature.listElement (p.signature? m)) := by
  obtain ⟨shapes, known, conforms⟩ := h
  rw [known]
  exact Signature.conforms_listElement conforms

/-- A node construction gives its node fields that fit the node's type. -/
theorem Types.fieldsFit (checked : p.Checked) {type : NodeRef} {layout : List FieldKind}
    (part : .node type layout m ∈ p.parts) (h : p.Types m values) :
    ∃ shapes, p.signature? m = some shapes ∧
      FieldsFit p.schema shapes type (List.zipWith Value.fitNull layout values) := by
  obtain ⟨shapes, known, conforms⟩ := h
  obtain ⟨even, fits⟩ := (checked.valid_part part).node known
  obtain rfl := checked.node_layout part
  refine ⟨shapes, known, ?_, ?_⟩
  · rw [List.length_zipWith, conforms.length_eq, even, Nat.min_self, List.length_map,
      Schema.fieldCount]
  · intro i shape field v atShape atField atValue definite
    have atKind : ((p.schema.layout type).map Field.kind)[i]? = some field.kind := by
      rw [List.getElem?_map, atField, Option.map_some]
    obtain ⟨kind, value, sameKind, found, rfl⟩ := List.getElem?_zipWith_eq_some.mp atValue
    obtain rfl : field.kind = kind := Option.some.inj (atKind.symm.trans sameKind)
    have conform : value.Conforms p.schema shape :=
      List.forall₂_zip conforms
        (List.mem_of_getElem? (List.getElem?_zip_eq_some.mpr ⟨atShape, found⟩))
    have slot : ((shape, field.kind), field) ∈
        (shapes.zip ((p.schema.layout type).map Field.kind)).zip (p.schema.layout type) :=
      List.mem_of_getElem? (List.getElem?_zip_eq_some.mpr
        ⟨List.getElem?_zip_eq_some.mpr ⟨atShape, atKind⟩, atField⟩)
    exact Value.fits_fitNull (Shape.fits_sound definite (fits _ slot) conform)

end Program

namespace Session

variable {x : Session} {call : Call} {cx : Context} {s s' : State} {o : Outcome}

/-- What shapes the values of a successful job have, if it runs parts of the program. -/
def Shaped (p : Program) : Job → List Value → Prop
  | .matcher m, values => m ∈ p.parts → p.Types m values
  | .items _ ms, values => (∀ m ∈ ms, m ∈ p.parts) → p.Types (.seq ms) values
  | .alternatives _ _ _ _ ms, values =>
    (∀ m ∈ ms, m ∈ p.parts) → ∃ m ∈ ms, p.Types m values
  | .repeated _ element _, values => element ∈ p.parts → ∃ items, values = [.list items] ∧
    ∀ v ∈ items, v.Conforms p.schema (Signature.listElement (p.signature? element))
  | .turn element _ _, values => element ∈ p.parts → p.Types element values
  | .turns element _ _ _, values => element ∈ p.parts →
    ∀ v ∈ values, v.Conforms p.schema (Signature.listElement (p.signature? element))
  | .probe _, _ => True

/-- The values of every success have the shapes that were inferred, if those of calls have. -/
theorem Runs.shaped {job : Job} (inferred : x.program.Inferred) (checked : x.program.Checked)
    (calls : ∀ ref active guards s values s', call ref active guards s = .ok (.success values, s') →
      x.program.Types (.rule ref) values)
    (run : x.Runs call job cx s o s') :
    ∀ values, o = .success values → Shaped x.program job values := by
  induction run with
  | @token _ _ keep =>
    rintro values ⟨⟩ _
    cases keep with
    | true => exact ⟨_, rfl, .cons (.token _) .nil⟩
    | false => exact ⟨_, rfl, .nil⟩
  | rule called =>
    rintro values rfl _
    exact calls _ _ _ _ _ _ called
  | seq _ ih =>
    rintro values ⟨⟩ part
    exact ih _ rfl fun m among => Program.operand_mem_parts part among
  | choice _ ih =>
    intro values same part
    obtain ⟨m, among, typed⟩ := ih values same fun m among => Program.operand_mem_parts part among
    exact typed.choice inferred checked part among
  | opt _ ih =>
    rintro values ⟨⟩ part
    exact (ih _ rfl (Program.operand_part part 0 rfl)).of_signature?_eq rfl
  | opt_soft =>
    rintro values ⟨⟩ part
    exact Program.Types.opt_nulls inferred checked part
  | group _ ih =>
    rintro values ⟨⟩ part
    exact (ih _ rfl (Program.operand_part part 0 rfl)).group
  | group_soft =>
    rintro values ⟨⟩ _
    exact Program.types_group_nil
  | list _ ih =>
    intro values same part
    obtain ⟨items, rfl, elements⟩ :=
      ih values same (Program.operand_part part 0 rfl)
    exact ⟨_, rfl, .cons (.list elements) .nil⟩
  | sepList _ ih =>
    intro values same part
    obtain ⟨items, rfl, elements⟩ :=
      ih values same (Program.operand_part part 0 rfl)
    exact ⟨_, rfl, .cons (.list elements) .nil⟩
  | cut =>
    rintro values ⟨⟩ _
    exact ⟨_, rfl, .nil⟩
  | predicate _ _ ih =>
    rintro values ⟨⟩ part
    exact (ih _ rfl (Program.operand_part part 0 rfl)).of_signature?_eq rfl
  | @skip errorType =>
    rintro values ⟨⟩ _
    exact ⟨_, rfl, .cons (.node (Schema.isSubtype_refl _ errorType)) .nil⟩
  | protect _ ih =>
    intro values same part
    exact (ih values same (Program.operand_part part 0 rfl)).of_signature?_eq
      rfl
  | @null type =>
    rintro values ⟨⟩ _
    exact ⟨_, rfl, .cons (.absent (Schema.isSubtype_refl _ type)) .nil⟩
  | @node type =>
    rintro values ⟨⟩ _
    exact ⟨_, rfl, .cons (.node (Schema.isSubtype_refl _ type)) .nil⟩
  | enum =>
    rintro values ⟨⟩ _
    exact ⟨_, rfl, .cons (.enum _ _ _) .nil⟩
  | items_nil =>
    rintro values ⟨⟩ _
    exact Program.types_seq_nil
  | @items_cut _ m _ _ _ _ _ cut _ ih =>
    intro values same parts
    have none : x.program.Types m [] := by cases m <;> first | exact ⟨_, rfl, .nil⟩ | cases cut
    exact none.seq_cons (ih values same (List.forall_mem_cons.mp parts).2)
  | items_next _ _ _ ihm ihms =>
    rintro values ⟨⟩ parts
    obtain ⟨first, rest⟩ := List.forall_mem_cons.mp parts
    exact (ihm _ rfl first).seq_cons (ihms _ rfl rest)
  | alternatives_passed _ _ ih | alternatives_soft _ _ _ _ ih | alternatives_recover _ _ _ _ ih =>
    intro values same parts
    obtain ⟨m, among, typed⟩ := ih values same (List.forall_mem_cons.mp parts).2
    exact ⟨m, List.mem_cons_of_mem _ among, typed⟩
  | alternatives_success _ _ ih =>
    rintro values ⟨⟩ parts
    exact ⟨_, List.mem_cons_self .., ih _ rfl (List.forall_mem_cons.mp parts).1⟩
  | repeated _ done ih =>
    rintro values rfl part
    rcases finishList_cases done with ⟨_, none, _⟩ | ⟨_, only, _⟩
    · cases none
    · cases only
      exact ⟨_, rfl, ih _ rfl part⟩
  | turn_first _ _ ih | turn_next _ _ _ ih => exact ih
  | turns_next _ _ _ ih ihms =>
    rintro values ⟨⟩ part
    exact List.forall_mem_append.mpr ⟨(ih _ rfl part).elements, ihms _ rfl part⟩
  | turns_soft | turns_idle =>
    rintro values ⟨⟩ _
    exact List.forall_mem_nil _
  | predicate_fails _ fails | node_fails _ fails | enum_fails _ fails | turn_fails _ fails
  | items_later _ _ _ fails =>
    rintro values rfl
    cases fails
  | probe_nil | probe_match | probe_next => exact fun _ _ => trivial
  -- what fails has no values
  | _ => exact fun _ none => nomatch none

/-- The values of every call have the shapes that were inferred for the rule. -/
theorem call_types (inferred : x.program.Inferred) (checked : x.program.Checked)
    {remaining depth : Nat} {ref : RuleRef} {active : List (RuleRef × Nat)}
    {guards : List Matcher} {values : List Value}
    (h : x.call remaining depth ref active guards s = .ok (.success values, s')) :
    x.program.Types (.rule ref) values := by
  refine call_induction (Q := fun ref _ o _ => ∀ values, o = .success values →
    x.program.Types (.rule ref) values) ?_ h values rfl
  intro call calls ref active guards s o s' entered values same
  subst same
  rcases enter_cases entered with ⟨rule, found, run⟩ | ⟨_, none, _⟩
  · have typed : x.program.Types rule.body values :=
      run.shaped inferred checked
        (fun ref active guards s values s' called => calls _ _ _ _ _ _ called values rfl)
        values rfl (Program.body_mem_parts found)
    exact typed.of_signature?_eq (inferred.signature?_body found).symm
  · cases none

end Session

/-- The declarations of a pair of a leaf and a token, and of two kinds of leaves. -/
def leafPair : List Declaration :=
  [.node "Leaf" none true false, .node "Name" (some "Leaf") false false,
    .node "Letter" (some "Leaf") false false, .field "Name" "text" .token,
    .node "Pair" none false false, .field "Pair" "leaf" (.node "Leaf"),
    .field "Pair" "mark" .token]

/-- The session in which a program is run on one identifier. -/
def Program.onIdentifier (p : Program) : Session := ⟨p, .initial, tokensOf [1], true⟩

/-- The body of the entry rule with its values, if it succeeds on one identifier. -/
def Program.entryValues? (p : Program) : Option (Matcher × List Value × State) :=
  (p.rule? p.entry).bind fun rule =>
    match p.onIdentifier.parser (p.onIdentifier.call 0 0) rule.body
      (Context.empty.scope p.onIdentifier (p.onIdentifier.call 0 0)) (.initial 0) with
    | .ok (.success values, s) => some (rule.body, values, s)
    | _ => none

/-- Values checked on one identifier are those of a run on it. -/
theorem Program.parser_of_entryValues? {p : Program} {m : Matcher} {values : List Value}
    {s : State} (h : p.entryValues? = some (m, values, s)) :
    m ∈ p.parts ∧ p.onIdentifier.parser (p.onIdentifier.call 0 0) m
      (Context.empty.scope p.onIdentifier (p.onIdentifier.call 0 0)) (.initial 0) =
      .ok (.success values, s) := by
  obtain ⟨rule, found, ends⟩ := Option.bind_eq_some_iff.mp h
  split at ends
  · next ran =>
    cases ends
    exact ⟨Program.body_mem_parts found, ran⟩
  · cases ends

/-- Shapes are sound. Of the LKT grammar inference knows everything; and whenever it does, every
success of a part of the program, in whatever run, has one value of each shape of its signature,
as many as its stored number of values says, and a node construction gives its node fields that
fit the node's type. -/
theorem Program.shapes_sound :
    (∃ g : Grammar, ∃ p names, Lkt.grammar = .ok g ∧ g.resolve .initial = .ok (p, names) ∧
      p.Inferred) ∧
    ∀ (g : Grammar) (names names' : Interner) (p : Program),
      g.resolve names = .ok (p, names') → p.Inferred →
      ∀ (x : Session) (remaining depth : Nat) (m : Matcher) (cx : Context) (s s' : State)
        (values : List Value), x.program = p → m ∈ p.parts →
        x.parser (x.call remaining depth) m (cx.scope x (x.call remaining depth)) s =
          .ok (.success values, s') →
        (∃ shapes, p.signature? m = some shapes ∧ values.length = shapes.length ∧
          p.arity m = values.length ∧ List.Forall₂ (Value.Conforms p.schema) shapes values) ∧
        (∀ type layout operand, m = .node type layout operand →
          ∃ shapes span fields, p.signature? operand = some shapes ∧
            values = [.node type span fields] ∧ FieldsFit p.schema shapes type fields) := by
  refine ⟨Lkt.exists_inferred, ?_⟩
  rintro g names names' p resolved inferred x remaining depth m cx s s' values rfl part ran
  have checked := (Grammar.checked_of_resolve resolved).2
  have calls : ∀ ref active guards s values s',
      x.call remaining depth ref active guards s = .ok (.success values, s') →
      x.program.Types (.rule ref) values :=
    fun _ _ _ _ _ _ called => Session.call_types inferred checked called
  have run := Session.runs_of_parser_eq ran
  refine ⟨?_, ?_⟩
  · obtain ⟨shapes, known, conforms⟩ := run.shaped inferred checked calls values rfl part
    refine ⟨shapes, known, conforms.length_eq, ?_, conforms⟩
    rw [conforms.length_eq, Program.arity_eq_getD, Program.arity?_eq_length, known]
    rfl
  · rintro type layout operand rfl
    cases run with
    | node run =>
      have typed := run.shaped inferred checked calls _ rfl
        (Program.operand_part part 0 rfl)
      obtain ⟨shapes, known, fields⟩ := typed.fieldsFit checked part
      exact ⟨shapes, _, _, known, rfl, fields⟩
    | node_fails _ fails => cases fails

/-- A pair whose leaf is one of two kinds and whose mark may be missing has the shapes of its
signature. -/
theorem shapes_sound_pair :
    ∃ g : Grammar, ∃ p names m values s, g.resolve .initial = .ok (p, names) ∧ p.Inferred ∧
      p.entryValues? = some (m, values, s) ∧
      ∃ shapes, p.signature? m = some shapes ∧
        List.Forall₂ (Value.Conforms p.schema) shapes values := by
  have passes : Grammar.passes letters leafPair
      [("main", .node "Pair" (.seq [.choice [.node "Name" (.kind "id"), .null "Letter"],
        .opt (.kind "id")]))]
      (fun p => p.isInferred && p.entryValues?.isSome) = true := by
    decide +kernel
  obtain ⟨g, p, names, _, _, resolved, held⟩ := Grammar.exists_of_passes passes
  obtain ⟨inferred, yields⟩ := Bool.and_eq_true_iff.mp held
  have inferred := Program.inferred_of_isInferred inferred
  obtain ⟨⟨m, values, s⟩, ends⟩ := Option.isSome_iff_exists.mp yields
  obtain ⟨part, ran⟩ := Program.parser_of_entryValues? ends
  obtain ⟨⟨shapes, known, _, _, conforms⟩, _⟩ :=
    Program.shapes_sound.2 g _ names p resolved inferred _ 0 0 m .empty _ s values rfl part ran
  exact ⟨g, p, names, m, values, s, resolved, inferred, ends, shapes, known, conforms⟩

end CombinatorGrammar
