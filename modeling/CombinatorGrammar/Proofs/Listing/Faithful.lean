import CombinatorGrammar.Proofs.Listing.Handles
import CombinatorGrammar.Proofs.Listing.Sameness
import CombinatorGrammar.Proofs.Program.Unlinking

/-!
# Listings are faithful

The listing of a grammar's rules is taken here as nothing but an arena, one sequence of instructions
that refer to each other by their handles. Each rule has a range of the arena to itself; within the
range every reference goes back, and from the body of the rule each handle of the range is reached
once. Reading the arena back from there, with names in place of numbers, gives the combinator that
the grammar has for the rule.
-/

namespace CombinatorGrammar

/-- Instructions one after the other, each at its handle. -/
abbrev Arena := List Instruction

namespace Arena

/-- The handles that are reached from a handle, each behind those that its operands reach. A
reference that does not go back leads nowhere. -/
def reached (arena : Arena) (handle : Nat) : List Nat :=
  match arena[handle]? with
  | none => []
  | some i =>
    (i.operands.flatMap fun o => if _ : o < handle then reached arena o else []) ++ [handle]

/-- The matcher that stands at a handle, with those that stand at its operands. -/
def read (arena : Arena) (handle : Nat) : Option Matcher :=
  match arena[handle]? with
  | none => none
  | some i =>
    (i.operands.mapM fun o => if _ : o < handle then read arena o else none).map i.matcher

/-- From the handle `base` on the arena has the instructions. -/
def Shows (arena : Arena) (base : Nat) (instructions : List Instruction) : Prop :=
  ∀ k i, instructions[k]? = some i → arena[base + k]? = some i

variable {arena : Arena} {base : Nat}

/-- Instructions are shown one after the other if the first ones are and, behind them, the others.
-/
theorem shows_append {first second : List Instruction} :
    arena.Shows base (first ++ second) ↔
      arena.Shows base first ∧ arena.Shows (base + first.length) second := by
  constructor
  · refine fun shown => ⟨fun k i found => ?_, fun k i found => ?_⟩
    · have inside := (List.getElem?_eq_some_iff.mp found).1
      exact shown k i ((List.getElem?_append_left inside).trans found)
    · rw [Nat.add_assoc]
      refine shown _ i ?_
      rw [List.getElem?_append_right (Nat.le_add_right ..), Nat.add_sub_cancel_left, found]
  · rintro ⟨shown, behind⟩ k i found
    by_cases inside : k < first.length
    · rw [List.getElem?_append_left inside] at found
      exact shown k i found
    · rw [List.getElem?_append_right (by omega)] at found
      have there := behind _ i found
      rwa [show base + first.length + (k - first.length) = base + k by omega] at there

/-- An arena shows all that it is made of. -/
theorem shows_self (arena : Arena) : arena.Shows 0 arena := by
  intro k i found
  rw [Nat.zero_add]
  exact found

/-- Handles are read one by one. -/
theorem mapM_eq_some {f : Nat → Option Matcher} {handles : List Nat} {ms : List Matcher}
    (each : List.Forall₂ (fun handle m => f handle = some m) handles ms) :
    handles.mapM f = some ms := by
  induction each with
  | nil => rfl
  | cons first _ ih =>
    rw [List.mapM_cons, first, ih]
    rfl

end Arena

namespace Matcher

variable {arena : Arena} {base : Nat} {m : Matcher} {ms : List Matcher}

/-- The instructions of several matchers are those of the first and, behind them, those of the
others. -/
theorem instructionsOfAll_cons (base : Nat) (m : Matcher) (ms : List Matcher) :
    instructionsOfAll base (m :: ms) =
      (m.listing base).map Prod.fst ++ instructionsOfAll (base + m.size) ms := by
  rw [instructionsOfAll, listingOfAll, List.map_append, instructionsOfAll]

/-- Several matchers have as many instructions as their sizes say. -/
theorem length_instructionsOfAll (base : Nat) (ms : List Matcher) :
    (instructionsOfAll base ms).length = sizeOfAll ms := by
  rw [instructionsOfAll, List.length_map,
    length_listingOfAll fun m _ base => length_listing m base]

/-- The arena has the instructions of the matcher from the handle `base` on. -/
def ShownIn (arena : Arena) (base : Nat) (m : Matcher) : Prop :=
  arena.Shows base ((m.listing base).map Prod.fst)

/-- Where several matchers are shown, each of them is. -/
theorem shows_instructionsOfAll_cons :
    arena.Shows base (instructionsOfAll base (m :: ms)) ↔
      m.ShownIn arena base ∧
        arena.Shows (base + m.size) (instructionsOfAll (base + m.size) ms) := by
  rw [instructionsOfAll_cons, Arena.shows_append, List.length_map, length_listing, ShownIn]

/-- The last instruction of a matcher refers to those of its operands before it. -/
theorem shownIn_iff : m.ShownIn arena base ↔
    arena.Shows base (instructionsOfAll base m.operands) ∧
      arena[m.handle base]? = some (m.instruction base) := by
  have last : m.handle base = base + (instructionsOfAll base m.operands).length := by
    rw [length_instructionsOfAll, handle, size_eq]
    rfl
  rw [ShownIn, listing_eq, List.map_append, ← instructionsOfAll, Arena.shows_append, last]
  refine and_congr_right fun _ => ⟨fun shown => shown 0 _ rfl, fun found k i here => ?_⟩
  cases k with
  | zero =>
    obtain rfl := Option.some.inj here
    exact found
  | succ k => cases here

/-- The handles of matchers lie among their instructions. -/
theorem mem_handles {h : Nat} (among : h ∈ handles base ms) :
    base ≤ h ∧ h < base + sizeOfAll ms := by
  induction ms generalizing base with
  | nil => cases among
  | cons m ms ih =>
    have size := m.size_eq
    rw [sizeOfAll]
    rcases List.mem_cons.mp among with rfl | among
    · rw [handle]
      omega
    · have := ih among
      omega

/-- The operands of an instruction are listed before it, within its own part of the arena. -/
theorem operand_bounds {h : Nat} (among : h ∈ (m.instruction base).operands) :
    base ≤ h ∧ h < m.handle base := by
  rw [operands_instruction] at among
  have bounds := mem_handles among
  rw [handle, size_eq]
  omega

/-- From the handle of the matcher each handle of its instructions is reached once, in order, and
the matcher is read there. -/
structure ReadsAt (arena : Arena) (base : Nat) (m : Matcher) : Prop where
  reached : arena.reached (m.handle base) = List.range' base m.size
  read : arena.read (m.handle base) = some m

/-- The handles of several matchers reach all that is listed of them, each handle once and in order.
-/
theorem reached_handles (each : ∀ m ∈ ms, ∀ base, m.ShownIn arena base → m.ReadsAt arena base)
    (shown : arena.Shows base (instructionsOfAll base ms)) :
    (handles base ms).flatMap arena.reached = List.range' base (sizeOfAll ms) := by
  induction ms generalizing base with
  | nil => rfl
  | cons m ms ih =>
    obtain ⟨first, others⟩ := List.forall_mem_cons.mp each
    obtain ⟨here, behind⟩ := shows_instructionsOfAll_cons.mp shown
    rw [handles, List.flatMap_cons, (first base here).reached, ih others behind, sizeOfAll,
      List.range'_append_1]

/-- The handles of several matchers are read back as the matchers. -/
theorem read_handles (each : ∀ m ∈ ms, ∀ base, m.ShownIn arena base → m.ReadsAt arena base)
    (shown : arena.Shows base (instructionsOfAll base ms)) :
    List.Forall₂ (fun h m => arena.read h = some m) (handles base ms) ms := by
  induction ms generalizing base with
  | nil => exact .nil
  | cons m ms ih =>
    obtain ⟨first, others⟩ := List.forall_mem_cons.mp each
    obtain ⟨here, behind⟩ := shows_instructionsOfAll_cons.mp shown
    exact .cons (first base here).read (ih others behind)

/-- A matcher that is listed is read back from its handle, which reaches all that is listed of it.
-/
theorem readsAt (m : Matcher) (shown : m.ShownIn arena base) : m.ReadsAt arena base := by
  induction m using operand_induction generalizing base with
  | step m ih =>
    obtain ⟨operands, found⟩ := shownIn_iff.mp shown
    have each : ∀ n ∈ m.operands, ∀ base, n.ShownIn arena base → n.ReadsAt arena base :=
      fun n among base => ih n among
    have back : ∀ h ∈ (m.instruction base).operands, h < m.handle base :=
      fun h among => (operand_bounds among).2
    constructor
    · have below : ((m.instruction base).operands.flatMap fun o =>
          if _ : o < m.handle base then arena.reached o else []) =
          (m.instruction base).operands.flatMap arena.reached :=
        List.flatMap_congr fun h among => dif_pos (back h among)
      rw [Arena.reached, found, size_eq, List.range'_1_concat]
      simp only [below]
      rw [operands_instruction, reached_handles each operands, handle, size_eq]
      rfl
    · have below : List.Forall₂ (fun h n =>
          (if _ : h < m.handle base then arena.read h else none) = some n)
          (m.instruction base).operands m.operands := by
        have read := read_handles each operands
        rw [← operands_instruction] at read
        refine (List.forall₂_and_left _ _ |>.mpr ⟨back, read⟩).imp fun h n both => ?_
        rw [dif_pos both.1, both.2]
      rw [Arena.read, found]
      simp only [Arena.mapM_eq_some below, Option.map_some, matcher_instruction]

/-- The handle is that of a part of the matcher, which is shown from no handle before `base` on. -/
def PartAt (arena : Arena) (base h : Nat) (m : Matcher) : Prop :=
  ∃ n ∈ m.parts, ∃ b, base ≤ b ∧ n.handle b = h ∧ n.ShownIn arena b

/-- What is listed of several matchers is a part of one of them. -/
theorem exists_partAt_of_all {h : Nat}
    (each : ∀ m ∈ ms, ∀ base, m.ShownIn arena base → base ≤ h → h < base + m.size →
      m.PartAt arena base h)
    (shown : arena.Shows base (instructionsOfAll base ms)) (start : base ≤ h)
    (stop : h < base + sizeOfAll ms) : ∃ m ∈ ms, m.PartAt arena base h := by
  induction ms generalizing base with
  | nil =>
    rw [sizeOfAll] at stop
    omega
  | cons m ms ih =>
    obtain ⟨first, others⟩ := List.forall_mem_cons.mp each
    obtain ⟨here, behind⟩ := shows_instructionsOfAll_cons.mp shown
    rw [sizeOfAll] at stop
    by_cases inside : h < base + m.size
    · exact ⟨m, List.mem_cons_self, first base here start inside⟩
    · obtain ⟨n, among, k, part, b, later, same, found⟩ :=
        ih others behind (by omega) (by omega)
      exact ⟨n, List.mem_cons_of_mem _ among, k, part, b, by omega, same, found⟩

/-- At each handle of a matcher's instructions stands a part of it. -/
theorem partAt (m : Matcher) {h : Nat} (shown : m.ShownIn arena base) (start : base ≤ h)
    (stop : h < base + m.size) : m.PartAt arena base h := by
  induction m using operand_induction generalizing base with
  | step m ih =>
    obtain ⟨operands, _⟩ := shownIn_iff.mp shown
    rw [size_eq] at stop
    by_cases last : h = m.handle base
    · exact ⟨m, mem_parts_self m, base, Nat.le_refl _, last.symm, shown⟩
    · rw [handle, size_eq] at last
      obtain ⟨n, among, k, part, found⟩ := exists_partAt_of_all
        (fun n among base shown start stop => ih n among shown start stop) operands start (by omega)
      exact ⟨k, mem_parts_iff.mpr (Or.inr ⟨n, among, part⟩), found⟩

/-- At the handle of each of several matchers stands its instruction. -/
theorem shown_handles (shown : arena.Shows base (instructionsOfAll base ms)) :
    List.Forall₂ (fun h m => ∃ b, arena[h]? = some (m.instruction b)) (handles base ms) ms := by
  induction ms generalizing base with
  | nil => exact .nil
  | cons m ms ih =>
    obtain ⟨here, behind⟩ := shows_instructionsOfAll_cons.mp shown
    exact .cons ⟨base, (shownIn_iff.mp here).2⟩ (ih behind)

/-- A matcher is a skip if its instruction is one. -/
theorem isSkip_iff {b : Nat} : m.isSkip = true ↔ ∃ type, m.instruction b = .skip type := by
  cases m <;> simp [isSkip, instruction]

/-- Whether a choice recovers can be told from what stands at the handles of its alternatives. -/
theorem recovers_iff {hs : List Nat}
    (shown : List.Forall₂ (fun h m => ∃ b, arena[h]? = some (m.instruction b)) hs ms) :
    recovers ms = true ↔ ∃ h ∈ hs, ∃ type, arena[h]? = some (.skip type) := by
  induction shown with
  | nil => simp [recovers]
  | @cons h m hs ms found _ ih =>
    obtain ⟨b, found⟩ := found
    have here : m.isSkip = true ↔ ∃ type, arena[h]? = some (.skip type) := by
      rw [found]
      simpa only [Option.some.injEq] using isSkip_iff
    have rest : recovers (m :: ms) = (m.isSkip || recovers ms) := List.any_cons
    rw [rest, Bool.or_eq_true, ih, here]
    simp only [List.exists_mem_cons_iff]

end Matcher

namespace Arena

/-- From the handle `start` on, up to the handle of its body, the arena has a rule to which the
combinator has been linked: references go back and stay in this range, every handle of the range is
reached from the body once, and the body reads back to the combinator. -/
structure HoldsRule (arena : Arena) (d : Directory) (start body : Nat) (c : Combinator) : Prop where
  start_le : start ≤ body
  operands_within : ∀ h i, start ≤ h → h ≤ body → arena[h]? = some i →
    ∀ o ∈ i.operands, start ≤ o ∧ o < h
  reached : arena.reached body = List.range' start (body + 1 - start)
  reads : (arena.read body).map (Matcher.unlink d) = some (c.byKind d.vocabulary)

/-- From the handle `start` on, up to its end, the arena has rules for the combinators, one behind
the other, with these handles of their bodies. -/
inductive Holds (arena : Arena) (d : Directory) : Nat → List Combinator → List Nat → Prop
  | nil : Holds arena d arena.length [] []
  | cons {start body : Nat} {c : Combinator} {cs : List Combinator} {bodies : List Nat} :
      arena.HoldsRule d start body c → Holds arena d (body + 1) cs bodies →
      Holds arena d start (c :: cs) (body :: bodies)

variable {arena : Arena} {base : Nat} {d : Directory}

/-- Where a matcher is shown that a combinator was linked to, the arena holds the combinator. -/
theorem holdsRule_of_shownIn {m : Matcher} {c : Combinator} (shown : m.ShownIn arena base)
    (read : m.unlink d = c.byKind d.vocabulary) :
    arena.HoldsRule d base (m.handle base) c := by
  have size := m.size_eq
  have last : m.handle base + 1 - base = m.size := by
    rw [Matcher.handle]
    omega
  obtain ⟨reached, reads⟩ := m.readsAt shown
  refine ⟨?_, fun h i start stop found o among => ?_, ?_, ?_⟩
  · rw [Matcher.handle]
    omega
  · have inside : h < base + m.size := by
      rw [Matcher.handle] at stop
      omega
    obtain ⟨n, _, b, after, rfl, part⟩ := m.partAt shown start inside
    rw [(Matcher.shownIn_iff.mp part).2] at found
    obtain rfl := Option.some.inj found
    obtain ⟨first, back⟩ := Matcher.operand_bounds among
    exact ⟨Nat.le_trans after first, back⟩
  · rw [last, reached]
  · rw [reads, Option.map_some, read]

end Arena

/-- The handles of the rules are those of their bodies. -/
theorem Program.listedRules_body (p : Program) :
    p.listedRules.map ListedRule.body = Matcher.handles 0 p.bodies := by
  have lengths : (Matcher.handles 0 p.bodies).length ≤ p.rules.toList.length := by
    rw [Matcher.length_handles, bodies, List.length_map]
  rw [listedRules, List.map_map]
  exact List.map_snd_zip lengths

namespace Grammar

variable {g : Grammar} {names : Interner} {d : Directory} {arena : Arena} {base : Nat}
  {rules : List (String × Combinator)} {linked : List (String × Matcher)}

/-- Linking keeps the names of the rules. -/
theorem linkRules_names (h : linkRules d rules = .ok linked) :
    linked.map Prod.fst = rules.map Prod.fst := by
  induction rules generalizing linked with
  | nil =>
    obtain rfl := Except.ok.inj h
    rfl
  | cons rule rules ih =>
    obtain ⟨⟨m, ms⟩, both, rfl⟩ := Linked.map_eq_ok h
    exact congrArg (rule.1 :: ·) (ih (Linked.both_eq_ok both).2)

/-- The listing of linked rules holds the combinators that they were linked from. -/
theorem holds_of_linkRules (h : linkRules d rules = .ok linked)
    (known : ∀ rule ∈ rules, ∀ text ∈ rule.2.texts, d.names.text (d.names.intern text).1 = text)
    (shown : arena.Shows base (Matcher.instructionsOfAll base (linked.map Prod.snd)))
    (last : base + Matcher.sizeOfAll (linked.map Prod.snd) = arena.length) :
    arena.Holds d base (rules.map Prod.snd) (Matcher.handles base (linked.map Prod.snd)) := by
  induction rules generalizing linked base with
  | nil =>
    obtain rfl := Except.ok.inj h
    obtain rfl : base = arena.length := last
    exact .nil
  | cons rule rules ih =>
    obtain ⟨⟨m, ms⟩, both, rfl⟩ := Linked.map_eq_ok h
    obtain ⟨first, others⟩ := Linked.both_eq_ok both
    obtain ⟨known, knownBehind⟩ := List.forall_mem_cons.mp known
    obtain ⟨here, behind⟩ := Matcher.shows_instructionsOfAll_cons.mp shown
    have size : m.handle base + 1 = base + m.size := by
      rw [Matcher.handle, Matcher.size_eq]
      omega
    refine .cons (Arena.holdsRule_of_shownIn here (Combinator.unlink_link rule.2 first known)) ?_
    rw [size]
    refine ih others knownBehind behind ?_
    rw [← last, List.map_cons, Matcher.sizeOfAll, Nat.add_assoc]

/-- A node that is linked has the kinds of the full layout of its type. -/
theorem layout_of_linkedFrom {rule : String} {texts : List String} {type : NodeRef}
    {layout : List FieldKind} {m : Matcher}
    (h : (Matcher.node type layout m).LinkedFrom d rule texts) :
    layout = (d.schema.layout type).map Field.kind := by
  obtain ⟨c, linked, _⟩ := h
  cases c with
  | node name c =>
    obtain ⟨⟨n, ref⟩, _, same⟩ := Linked.map_eq_ok linked
    cases same
    rfl
  | cut => cases linked
  | token | rule | seq | choice | opt | group | list | skip | null =>
    obtain ⟨_, _, other⟩ := Linked.map_eq_ok linked
    cases other
  | sepList | predicate | protect =>
    obtain ⟨⟨_, _⟩, _, other⟩ := Linked.map_eq_ok linked
    cases other
  | enum =>
    obtain ⟨⟨_, _, _⟩, _, other⟩ := Linked.map_eq_ok linked
    cases other

/-- Listing is faithful. Let the names of a grammar be linked, and let its rules be listed in an
arena. The arena holds the rules in order and nothing else, each in a range of its own: there all
references go back within the range, every handle is reached from the body once, and the body reads
back to the combinator of the rule, with every token match given by the name of its kind. A node has
the kinds of the full layout of its type, and a choice recovers if one of its alternatives is a
skip. A program that the grammar resolves to has this arena, these rules and this entry. -/
theorem listing_faithful {entry : RuleRef} {rules : List (String × Matcher)}
    (linked : g.link (names.internAll g.texts) = .ok (entry, rules)) :
    let d := g.directory (names.internAll g.texts)
    let arena : Arena := Matcher.instructionsOfAll 0 (rules.map Prod.snd)
    let bodies := Matcher.handles 0 (rules.map Prod.snd)
    arena.Holds d 0 (g.rules.map Prod.snd) bodies ∧
    (∀ (h : Nat) type layout operand, arena[h]? = some (Instruction.node type layout operand) →
      layout = (g.schema.layout type).map Field.kind) ∧
    (∀ (h : Nat) alternatives recovers,
      arena[h]? = some (Instruction.choice alternatives recovers) →
        (recovers = true ↔ ∃ a ∈ alternatives, ∃ type, arena[a]? = some (.skip type))) ∧
    d.ruleName entry = g.entry ∧
    ∀ p names', g.resolve names = .ok (p, names') →
      p.instructions.map Prod.fst = arena ∧ p.entry = entry ∧
        p.listedRules.map ListedRule.name = g.rules.map Prod.fst ∧
        p.listedRules.map ListedRule.body = bodies := by
  intro d arena bodies
  obtain ⟨start, found⟩ := Linked.both_eq_ok linked
  have shown : arena.Shows 0 arena := arena.shows_self
  have count : 0 + Matcher.sizeOfAll (rules.map Prod.snd) = arena.length := by
    rw [Matcher.length_instructionsOfAll, Nat.zero_add]
  have at_part {h : Nat} {i : Instruction} (found : arena[h]? = some i) :
      ∃ rule ∈ rules, ∃ n ∈ rule.2.parts, ∃ b, i = n.instruction b ∧ n.ShownIn arena b := by
    have inside := (List.getElem?_eq_some_iff.mp found).1
    obtain ⟨m, among, n, part, b, _, rfl, there⟩ := Matcher.exists_partAt_of_all
      (fun m _ base => m.partAt) shown (Nat.zero_le h) (by omega)
    obtain ⟨rule, member, rfl⟩ := List.mem_map.mp among
    rw [(Matcher.shownIn_iff.mp there).2] at found
    exact ⟨rule, member, n, part, b, (Option.some.inj found).symm, there⟩
  refine ⟨?_, ?_, ?_, ?_, ?_⟩
  · exact holds_of_linkRules found (fun rule among text => texts_known among) shown count
  · intro h type layout operand here
    obtain ⟨rule, member, n, part, b, same, _⟩ := at_part here
    cases n with
    | node =>
      cases same
      exact layout_of_linkedFrom (linkRules_parts found rule member _ part)
    | _ => cases same
  · intro h alternatives recovers here
    obtain ⟨rule, member, n, part, b, same, there⟩ := at_part here
    cases n with
    | choice ms =>
      cases same
      exact Matcher.recovers_iff (Matcher.shown_handles (Matcher.shownIn_iff.mp there).1)
    | _ => cases same
  · exact Directory.ruleName_of_ruleRef? (Linked.ofOption_eq_ok start)
  · intro p names' resolved
    obtain ⟨rfl, entry', rules', linked', _, rfl⟩ := resolve_eq_ok resolved
    obtain ⟨rfl, rfl⟩ := Prod.mk.inj (Except.ok.inj (linked.symm.trans linked'))
    refine ⟨?_, rfl, ?_, ?_⟩
    · rw [Program.listing_fst, Program.bodies, List.map_map]
      rfl
    · rw [Program.listedRules_name, ← linkRules_names found, List.map_map]
      rfl
    · rw [Program.listedRules_body, Program.bodies, List.map_map]
      rfl

/-- Two rules in nine instructions, in which a node has the field of its type's parent and a choice
recovers. -/
theorem listing_faithful_twoRules :
    ∃ g : Grammar, ∃ entry rules, g.link (Interner.initial.internAll g.texts) = .ok (entry, rules) ∧
      let arena : Arena := Matcher.instructionsOfAll 0 (rules.map Prod.snd)
      arena = [.token ⟨1⟩ (some (Interner.initial.intern "x").1) true, .node ⟨1⟩ [.token] 0,
        .rule ⟨1⟩, .skip ⟨2⟩, .choice [2, 3] true, .list .zeroOrMore 4 none, .seq [1, 5],
        .token ⟨2⟩ none true, .node ⟨1⟩ [.token] 7] ∧
      arena.Holds (g.directory (Interner.initial.internAll g.texts)) 0 (g.rules.map Prod.snd)
        [6, 8] := by
  let rules : List (String × Combinator) :=
    [("main", .seq [.node "Pair" (.kindText "id" "x"),
      .list .zeroOrMore (.choice [.rule "item", .skip "Err"])]),
     ("item", .node "Pair" (.token (.literal "a") none true))]
  have passes : Grammar.passes letters [.node "Base" none false false, .field "Base" "head" .token,
      .node "Pair" (some "Base") false false, .node "Err" none false true] rules (fun p =>
        decide (p.instructions.map Prod.fst =
          [.token ⟨1⟩ (some (Interner.initial.intern "x").1) true, .node ⟨1⟩ [.token] 0,
            .rule ⟨1⟩, .skip ⟨2⟩, .choice [2, 3] true, .list .zeroOrMore 4 none, .seq [1, 5],
            .token ⟨2⟩ none true, .node ⟨1⟩ [.token] 7] ∧
          p.listedRules.map ListedRule.body = [6, 8])) = true := by
    decide +kernel
  obtain ⟨g, p, names, same, _, resolved, held⟩ := Grammar.exists_of_passes passes
  obtain ⟨instructions, bodies⟩ := of_decide_eq_true held
  obtain ⟨rfl, entry, linkedRules, linked, _⟩ := resolve_eq_ok resolved
  obtain ⟨holds, _, _, _, programs⟩ := listing_faithful linked
  obtain ⟨arena, _, _, handles⟩ := programs p _ resolved
  rw [instructions] at arena
  rw [bodies] at handles
  rw [← handles] at holds
  exact ⟨g, entry, linkedRules, linked, arena.symm, holds⟩

end Grammar

end CombinatorGrammar
