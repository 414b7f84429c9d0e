import CombinatorGrammar.Proofs.Machine.Bounds
import CombinatorGrammar.Proofs.Machine.Upkeep

/-!
# What the engine reads by its place

A step reads tokens by their positions and rules, predicates, types and operands by their handles,
it goes back to marks, and it leaves levels of nesting. All of it is there: no step of a run of a
rule of a resolved grammar reads beside a token list or a table, goes back to what it has not been
at, or leaves a level that was not entered.
-/

namespace CombinatorGrammar

/-- What is read by its place, and what is relied on to be there. -/
inductive Access where
  | token (position : Nat)
  /-- Going back to a mark where so many diagnostics are pending. -/
  | restore (mark : Mark) (pending : Nat)
  /-- Leaving the level of nesting that was entered last. -/
  | leave (nesting : Nesting)
  /-- A matcher, by its handle. -/
  | matcher (m : Matcher)
  | rule (ref : RuleRef)
  | predicate (ref : PredicateRef)
  | node (type : NodeRef)
  | enum (type : EnumRef) (alternative : Nat)

/-- What is read is there, and what is relied on is so. -/
def Access.InRange (x : Session) : Access → Prop
  | token position => position ≤ x.tokens.lastPosition
  | restore mark pending => mark.position ≤ x.tokens.lastPosition ∧ mark.pending ≤ pending
  | leave nesting => 0 < nesting.depth
  | matcher m => ∃ handle, m.ListedAt x.program.listing handle
  | rule ref => ref.index < x.program.rules.size
  | predicate ref => ref.index < x.program.predicates.size
  | node type => type.index < x.program.schema.nodes.size
  | enum type alternative =>
    ∃ declared, x.program.schema.enum? type = some declared ∧
      alternative < declared.alternatives.length

/-- What a matcher refers to. -/
def Matcher.accesses : Matcher → List Access
  | rule ref => [.rule ref]
  | predicate ref m => [.predicate ref, .matcher m]
  | skip type | null type => [.node type]
  | node type _ m => [.node type, .matcher m]
  | enum type alternative m => [.enum type alternative, .matcher m]
  | m => m.operands.map .matcher

/-- What is read where a failure is reported: the token there, and the names of the predicates that
are expected. -/
def Failure.accesses (f : Failure) : List Access :=
  .token f.position :: f.expected.flatMap fun
    | .token _ _ => []
    | .predicate ref => [.predicate ref]

namespace Session

variable (x : Session)

/-- What is read where a matcher begins. -/
def begun (m : Matcher) (e : Engine) : List Access :=
  m.accesses ++ match m with
    | .token _ _ _ | .skip _ => [.token e.state.position]
    | .rule ref => (x.program.rule? ref).toList.map fun rule => .matcher rule.body
    | _ => []

/-- What is read for the span of the tokens between two positions. -/
def spanned (start stop : Nat) : List Access :=
  if start < stop then [.token start, .token (stop - 1)] else [.token stop]

/-- What is read or relied on where a frame goes on. Where a choice has no alternatives left and
where a list ends without items, the start is gone back to once more. -/
def resumed (f : Frame) (o : Outcome) (e : Engine) : List Access :=
  let s := e.state
  match f, o with
  | .rule _ _, _ => [.leave e.nesting]
  | .items start false _ _, .soft _ => [.restore start s.pending.length]
  | .alternatives _ start _ _ _, .soft _ =>
    [.restore start s.pending.length, .restore start (s.rewind start).pending.length]
  | .alternatives true start _ _ _, .hard f =>
    [.restore start s.pending.length,
      .restore start (x.reportRecovered f (s.rewind start)).pending.length] ++ f.accesses
  | .opt start _, .soft _ => [.restore start s.pending.length]
  | .group start, .soft _ => [.restore start s.pending.length]
  | .separator l _ turn, .soft _ =>
    [.restore turn s.pending.length, .restore l.start (s.rewind turn).pending.length]
  | .element l _ turn, .success _ =>
    if s.position = turn.position then
      [.restore turn s.pending.length, .restore l.start (s.rewind turn).pending.length]
    else []
  | .element l _ turn, .soft _ =>
    [.restore turn s.pending.length, .restore l.start (s.rewind turn).pending.length]
  | .predicate ref start, .success _ => [.predicate ref, .restore start s.pending.length]
  | .guard _ start _ _, _ => [.restore start s.pending.length, .token start.position]
  | .node _ _ position, .success _ => spanned position s.position
  | .enum _ _ position, .success _ => spanned position s.position
  | _, _ => []

/-- What is read where a run has ended: the token where it ended, what has failed the furthest, and
that merged with the failure of the run. -/
def concluded (o : Outcome) (e : Engine) : List Access :=
  .token e.state.position :: ((e.state.furthest.toList ++ o.failures).flatMap Failure.accesses ++
    o.failures.flatMap fun f =>
      ((e.state.furthest.getD (.plain f.position)).merge f).accesses)

/-- What the next step reads or relies on; where none is left, the report of how the run ended. -/
def accesses : Configuration → List Access
  | ⟨.eval m, e, _⟩ => x.begun m e
  | ⟨.answer o, e, f :: _⟩ => x.resumed f o e
  | ⟨.answer o, e, []⟩ => concluded o e
  | ⟨.raise _, e, .rule _ _ :: _⟩ => [.leave e.nesting]
  | ⟨.raise _, _, _ :: _⟩ => []
  | ⟨.raise fault, _, []⟩ => [.token fault.position]

end Session

/-- All failures that the configuration holds: the one that is handed on, the furthest ones, and
those that choices remember. -/
def Configuration.failures (c : Configuration) : List Failure :=
  c.control.failures ++ c.engine.state.furthest.toList ++
    c.frames.flatMap fun f => f.failures ++ f.putAside.toList

namespace Session

variable {x : Session} {floor : Nat} {c : Configuration} {e : Engine} {s : State} {f : Frame}
  {frames : List Frame} {m : Mark}

/-- What a failure within bounds refers to is in range. -/
theorem inRange_failure {f : Failure} (h : f.InBounds x) : ∀ a ∈ f.accesses, a.InRange x := by
  refine List.forall_mem_cons.mpr ⟨h.position_le, fun a among => ?_⟩
  obtain ⟨expected, inside, among⟩ := List.mem_flatMap.mp among
  cases expected with
  | token kind text => cases among
  | predicate ref =>
    obtain rfl := List.mem_singleton.mp among
    exact h.known ref inside

/-- What a matcher of the program refers to is in range. -/
theorem inRange_matcher {m : Matcher} (admitted : x.program.Admits m) :
    ∀ a ∈ m.accesses, a.InRange x := by
  have operand {n : Matcher} (among : n ∈ m.operands) : (Access.matcher n).InRange x :=
    Program.exists_handle (admitted.operands n among)
  cases m with
  | rule | skip | null => exact List.forall_mem_singleton.mpr admitted.tables
  | predicate | node | enum =>
    exact List.forall_mem_cons.mpr ⟨admitted.tables,
      List.forall_mem_singleton.mpr (operand (List.mem_singleton_self _))⟩
  | _ => exact List.forall_mem_map.mpr fun n among => operand among

/-- What is read where a matcher begins is in range. -/
theorem inRange_begun {m : Matcher} (admitted : x.program.Admits m)
    (within : e.state.position ≤ x.tokens.lastPosition) : ∀ a ∈ x.begun m e, a.InRange x := by
  refine List.forall_mem_append.mpr ⟨inRange_matcher admitted, ?_⟩
  cases m with
  | token | skip => exact List.forall_mem_singleton.mpr within
  | rule ref =>
    refine List.forall_mem_map.mpr fun rule found => ?_
    exact Program.exists_handle (Program.body_mem_parts (Option.mem_toList.mp found))
  | _ => exact List.forall_mem_nil _

/-- Between two positions of the tokens, the span reads tokens that there are. -/
theorem inRange_spanned {start stop : Nat} (le : start ≤ stop)
    (within : stop ≤ x.tokens.lastPosition) : ∀ a ∈ spanned start stop, a.InRange x := by
  rw [spanned]
  split
  · exact List.forall_mem_cons.mpr ⟨le.trans within,
      List.forall_mem_singleton.mpr ((Nat.sub_le stop 1).trans within)⟩
  · exact List.forall_mem_singleton.mpr within

/-- The state can go back to every mark of the frame on top: as many diagnostics are pending still.
-/
theorem Grounded.restorable (h : x.Grounded floor s (f :: frames)) (among : m ∈ f.marks) :
    (Access.restore m s.pending.length).InRange x :=
  ⟨h.mark_le among, h.pending_le among⟩

/-- The latest mark may be gone back to, and then every mark of the frame. -/
theorem Grounded.restorable_again {n : Mark} {older : List Mark}
    (h : x.Grounded floor s (f :: frames)) (marks : f.marks = m :: older)
    (starts : f.starts = f.marks.map Mark.position) (among : n ∈ f.marks) :
    ∀ a ∈ [Access.restore m s.pending.length, .restore n (s.rewind m).pending.length],
      a.InRange x :=
  List.forall_mem_cons.mpr ⟨h.restorable (marks ▸ List.mem_cons_self ..),
    List.forall_mem_singleton.mpr ((h.again marks starts).restorable among)⟩

/-- What is read when a frame goes on is in range. The nesting is left only where it was entered. -/
theorem inRange_resumed (o : Outcome) (h : x.Grounded floor e.state (f :: frames))
    (answer : (Control.answer o).Sound x (Frame.ground floor (f :: frames)))
    (level : ∀ ref position, f = .rule ref position → 0 < e.nesting.depth) :
    ∀ a ∈ x.resumed f o e, a.InRange x := by
  have only {a : Access} (inside : a.InRange x) : ∀ b ∈ [a], b.InRange x :=
    List.forall_mem_singleton.mpr inside
  have last {α : Type} {a : α} {l : List α} : a ∈ a :: l := List.mem_cons_self ..
  cases f with
  | rule ref position => exact only (level ref position rfl)
  | protect pattern => exact List.forall_mem_nil _
  | guard errorType start rest outer =>
    exact List.forall_mem_cons.mpr ⟨h.restorable last, only (h.mark_le (m := start) last)⟩
  | items start committed values rest =>
    cases o with
    | soft g =>
      cases committed with
      | true => exact List.forall_mem_nil _
      | false => exact only (h.restorable last)
    | success values | hard g => cases committed <;> exact List.forall_mem_nil _
  | alternatives recovers start best committed rest =>
    cases o with
    | success values => exact List.forall_mem_nil _
    | soft g => exact h.restorable_again rfl rfl last
    | hard g =>
      cases recovers with
      | false => exact List.forall_mem_nil _
      | true =>
        have again : x.Grounded floor (x.reportRecovered g (e.state.rewind start)) _ :=
          (h.again (m := start) rfl rfl).report _
        have reported := again.restorable (m := start) last
        exact List.forall_mem_append.mpr
          ⟨List.forall_mem_cons.mpr ⟨h.restorable last, only reported⟩,
            inRange_failure (answer g last).toInBounds⟩
  | opt start arity | group start =>
    cases o with
    | soft g => exact only (h.restorable last)
    | success values | hard g => exact List.forall_mem_nil _
  | separator l items turn =>
    cases o with
    | soft g => exact h.restorable_again rfl rfl (List.mem_cons_of_mem _ last)
    | success values | hard g => exact List.forall_mem_nil _
  | element l items turn =>
    have both := h.restorable_again (m := turn) (n := l.start) rfl rfl
      (List.mem_cons_of_mem turn last)
    cases o with
    | success values =>
      rw [resumed]
      split
      · exact both
      · exact List.forall_mem_nil _
    | soft g => exact both
    | hard g => exact List.forall_mem_nil _
  | predicate ref start =>
    cases o with
    | success values => exact List.forall_mem_cons.mpr ⟨h.top.tables, only (h.restorable last)⟩
    | soft g | hard g => exact List.forall_mem_nil _
  | node | enum =>
    cases o with
    | success values => exact inRange_spanned (h.starts.le _ last) h.position_le
    | soft g | hard g => exact List.forall_mem_nil _

/-- What is read when a run has ended is in range. -/
theorem inRange_concluded {o : Outcome} (h : x.Grounded floor e.state [])
    (answer : (Control.answer o).Sound x [floor]) : ∀ a ∈ concluded o e, a.InRange x := by
  have failed : ∀ f ∈ o.failures, f.InBounds x := fun f among => (answer f among).toInBounds
  have furthest : ∀ f ∈ e.state.furthest.toList, f.InBounds x :=
    fun f one => h.furthest f (Option.mem_toList.mp one)
  refine List.forall_mem_cons.mpr ⟨h.position_le, List.forall_mem_append.mpr ⟨?_, ?_⟩⟩
  · refine List.forall_mem_flatMap.mpr fun f among => inRange_failure ?_
    exact List.forall_mem_append.mpr ⟨furthest, failed⟩ f among
  · refine List.forall_mem_flatMap.mpr fun f among => inRange_failure ?_
    refine Failure.InBounds.merge ?_ (failed f among)
    cases known : e.state.furthest with
    | none => exact .plain (failed f among).position_le
    | some g => exact h.furthest g known

/-- What is within bounds reads nothing beside a table. -/
theorem inRange_accesses (sound : c.Sound x floor)
    (depth : c.engine.nesting.depth = Frame.inProgress c.frames) :
    ∀ a ∈ x.accesses c, a.InRange x := by
  obtain ⟨grounded, _, control⟩ := sound
  obtain ⟨m | o | fault, e, _ | ⟨f, frames⟩⟩ := c
  · exact inRange_begun control grounded.position_le
  · exact inRange_begun control grounded.position_le
  · exact inRange_concluded grounded control
  · refine inRange_resumed o grounded control ?_
    rintro ref position rfl
    exact Nat.lt_of_lt_of_eq (Nat.succ_pos _) depth.symm
  · exact List.forall_mem_singleton.mpr control
  · cases f with
    | rule ref position =>
      exact List.forall_mem_singleton.mpr (Nat.lt_of_lt_of_eq (Nat.succ_pos _) depth.symm)
    | _ => exact List.forall_mem_nil _

/-- All failures that a sound configuration holds are within bounds. -/
theorem inBounds_failures (sound : c.Sound x floor) : ∀ f ∈ c.failures, f.InBounds x := by
  obtain ⟨grounded, _, control⟩ := sound
  refine List.forall_mem_append.mpr
    ⟨List.forall_mem_append.mpr ⟨fun f among => ?_, fun f one => ?_⟩,
      List.forall_mem_flatMap.mpr fun f among => List.forall_mem_append.mpr
        ⟨fun g held => ?_, fun g one => ?_⟩⟩
  · obtain ⟨m | o | fault, e, frames⟩ := c
    · cases among
    · exact (control f among).toInBounds
    · cases among
  · exact grounded.furthest f (Option.mem_toList.mp one)
  · exact ((grounded.frames f among).failures g held).toInBounds
  · exact (grounded.frames f among).aside g (Option.mem_toList.mp one)

/-- The failure of a matcher is not before the position where the matcher began. -/
theorem placed_of_result {m : Matcher} {o : Outcome} (tables : x.program.HandlesInTables)
    (sound : Configuration.Sound x floor ⟨.eval m, e, frames⟩)
    (ran : e.result x m = .ok (o, s)) :
    ∀ f ∈ o.failures, e.state.position ≤ f.position ∧ f.position ≤ x.tokens.lastPosition := by
  -- the run is the same without the frames below, and then the floor may be where it begins
  have begun : Configuration.Sound x e.state.position ⟨.eval m, e, []⟩ :=
    ⟨⟨sound.grounded.position_le, sound.grounded.furthest,
        Downward.self (List.pairwise_singleton _ _), List.pairwise_singleton _ _, nofun⟩,
      sound.guards, sound.control⟩
  have landed := x.lands m e []
  rw [ran] at landed
  have ended := sound_of_leadsTo tables landed begun
  intro f among
  have placed := ended.control f among
  exact ⟨placed.le_position _ (List.mem_singleton_self _), placed.position_le⟩

end Session

/-- Only the last token of a stream is a termination token. -/
theorem TokenStream.isTermination_iff_last (s : TokenStream) {i : Nat} {t : Token}
    (found : s.toList[i]? = some t) : t.kind.isTermination = true ↔ i = s.lastPosition := by
  have count : s.toList.length = s.lastPosition + 1 := by
    rw [toList, List.length_append, Array.length_toList, lastPosition, List.length_singleton]
  have inside : i < s.toList.length := (List.getElem?_eq_some_iff.mp found).1
  have same : t = s.token i := by
    rw [toList, List.getElem?_append] at found
    rw [token, Array.getD_eq_getD_getElem?]
    split at found
    · rw [Array.getElem?_toList] at found
      rw [found, Option.getD_some]
    · next behind =>
      rw [Array.length_toList, Nat.not_lt] at behind
      rw [Array.getElem?_eq_none behind]
      exact (List.mem_singleton.mp (List.mem_of_getElem? found))
  rw [same, isTermination_token]
  omega

/-- The engine reads nothing beside its tables. A program that a grammar resolves to refers only to
what it has; a stream of any tokens ends with its one termination token; and everywhere in a run of
one of its rules, from any position and at any limit, the engine is at a token, all failures are at
tokens, what the next step reads is there, what it goes back to it has been at, and where it leaves
a level it is in one. A matcher fails no further back than where it began. -/
theorem Grammar.reads_in_range {g : Grammar} {names names' : Interner} {p : Program}
    (resolved : g.resolve names = .ok (p, names')) {ref : RuleRef}
    (known : ref.index < p.rules.size) (texts : Interner) (tokens : List Token) (stop : Nat)
    (config : ParseConfig) (start : Nat) :
    let stream := TokenStream.ofList tokens stop
    let x := p.session texts stream config
    let begun := min start stream.lastPosition
    p.HandlesInTables ∧
    (∀ i t, stream.toList[i]? = some t →
      (t.kind.isTermination = true ↔ i = stream.lastPosition)) ∧
    (∃ d, x.LeadsTo (.ofRule config.maxDepth ref begun) d ∧
      d.result? = some (x.run config.maxDepth ref (.initial begun))) ∧
    ∀ c, x.LeadsTo (.ofRule config.maxDepth ref begun) c →
      c.engine.state.position ≤ stream.lastPosition ∧
      (∀ f ∈ c.failures, f.InBounds x) ∧
      (∀ a ∈ x.accesses c, a.InRange x) ∧
      ∀ m e frames o s, c = ⟨.eval m, e, frames⟩ → e.result x m = .ok (o, s) →
        x.LeadsTo c ⟨.answer o, { e with state := s }, frames⟩ ∧
        ∀ f ∈ o.failures, e.state.position ≤ f.position ∧ f.position ≤ stream.lastPosition := by
  intro stream x begun
  have tables := g.handlesInTables_of_resolve resolved
  refine ⟨tables, fun i t => stream.isTermination_iff_last, x.always_stops.2.2.2 _ _ _,
    fun c leads => ?_⟩
  have first : Configuration.Sound x begun (.ofRule config.maxDepth ref begun) :=
    ⟨⟨Nat.min_le_right start stream.lastPosition, nofun,
        Downward.self (List.pairwise_singleton _ _), List.pairwise_singleton _ _, nofun⟩,
      nofun, ⟨known, nofun⟩⟩
  have sound := Session.sound_of_leadsTo tables leads first
  refine ⟨sound.grounded.position_le, Session.inBounds_failures sound,
    Session.inRange_accesses sound (Session.depth_eq leads).1, ?_⟩
  rintro m e frames o s rfl ran
  have landed := x.lands m e frames
  rw [ran] at landed
  exact ⟨landed, Session.placed_of_result tables sound ran⟩

/-- With a termination token in the middle and a start behind the end, a region that is recovered
from is run to its end within the one token that is left. -/
theorem Grammar.reads_in_range_recovering :
    ∃ g : Grammar, ∃ p names, g.resolve .initial = .ok (p, names) ∧
      p.entry.index < p.rules.size ∧
      let stream := TokenStream.ofList [.termination 0, ⟨⟨2⟩, .empty, .point 0⟩] 0
      let x := p.session .initial stream ⟨16, true⟩
      stream.lastPosition = 1 ∧
      ∃ d, x.LeadsTo (.ofRule 16 p.entry (min 7 stream.lastPosition)) d ∧
        d.engine.state.position ≤ 1 ∧ (∀ f ∈ d.failures, f.InBounds x) ∧
        ∀ a ∈ x.accesses d, a.InRange x := by
  have passes : Grammar.passes letters [.node "Err" none false true]
      [("main", .choice [.seq [.lit "a", .cut, .kind "id"], .skip "Err"])]
      (fun p => decide (p.entry.index < p.rules.size)) = true := by
    decide +kernel
  obtain ⟨g, p, names, _, _, resolved, held⟩ := Grammar.exists_of_passes passes
  have known := of_decide_eq_true held
  obtain ⟨_, _, ⟨d, leads, _⟩, everywhere⟩ := Grammar.reads_in_range resolved known .initial
    [.termination 0, ⟨⟨2⟩, .empty, .point 0⟩] 0 ⟨16, true⟩ 7
  obtain ⟨position, failures, accesses, _⟩ := everywhere d leads
  exact ⟨g, p, names, resolved, known, rfl, d, leads, position, failures, accesses⟩

end CombinatorGrammar
