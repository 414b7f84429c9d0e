import CombinatorGrammar.Proofs.Listing.Handles
import CombinatorGrammar.Proofs.Machine.Furthest

/-!
# The bounds of the engine

The engine goes on from what it remembers, and goes back only to what it remembers, so what a frame
remembers is never ahead of the engine: its positions and its counts of pending diagnostics descend
from the present ones down the stack. A failure is raised at the position of the engine and handed
down to frames that began before it, so it stays between the start of what it is handed to and the
last token. Since linking has found whatever a matcher refers to, everything that is still to be run
refers to what there is. All this is kept by every step.
-/

namespace CombinatorGrammar

/-- The numbers descend, from the first one on. -/
def Downward (n : Nat) (l : List Nat) : Prop := (n :: l).Pairwise (· ≥ ·)

namespace Downward

variable {n m : Nat} {l l' : List Nat}

/-- No number is above the first one. -/
theorem le (h : Downward n l) : ∀ m ∈ l, m ≤ n := (List.pairwise_cons.mp h).1

/-- Numbers that descend from one number descend from a larger one. -/
theorem raise (h : Downward n l) (le : n ≤ m) : Downward m l :=
  List.pairwise_cons.mpr ⟨fun k among => (h.le k among).trans le, (List.pairwise_cons.mp h).2⟩

/-- The first number may stand once more. -/
theorem self (h : Downward n l) : Downward n (n :: l) :=
  List.pairwise_cons.mpr ⟨List.forall_mem_cons.mpr ⟨Nat.le_refl n, h.le⟩, h⟩

/-- Numbers that descend still do behind copies of the first one. -/
theorem level (h : Downward n l) (same : ∀ m ∈ l', m = n) : Downward n (l' ++ l) := by
  induction l' with
  | nil => exact h
  | cons m l' ih =>
    obtain ⟨rfl, others⟩ := List.forall_mem_cons.mp same
    exact (ih others).self

/-- What stands at the end of numbers that descend is not above the first one either. -/
theorem drop (h : Downward n (l ++ l')) : Downward n l' :=
  List.Pairwise.sublist ((List.sublist_append_right l l').cons_cons n) h

/-- From each number on, those behind it descend. -/
theorem lower (h : Downward n (l ++ l')) (among : m ∈ l) : Downward m l' := by
  obtain ⟨_, below⟩ := List.pairwise_cons.mp h
  obtain ⟨_, behind, across⟩ := List.pairwise_append.mp below
  exact List.pairwise_cons.mpr ⟨fun k later => across m among k later, behind⟩

theorem tail (h : Downward n (m :: l)) : Downward m l := (List.pairwise_cons.mp h).2

end Downward

namespace Failure

/-- The failure is at a token, and expects no predicate that there is not. -/
structure InBounds (x : Session) (f : Failure) : Prop where
  position_le : f.position ≤ x.tokens.lastPosition
  known : ∀ ref, .predicate ref ∈ f.expected → ref.index < x.program.predicates.size

/-- The failure is within bounds and not before any of the given positions. -/
structure Placed (x : Session) (starts : List Nat) (f : Failure) : Prop extends f.InBounds x where
  le_position : ∀ n ∈ starts, n ≤ f.position

variable {x : Session} {f g : Failure} {starts : List Nat}

/-- Where nothing is expected no predicate is. -/
theorem known_nil (n : Nat) : ∀ ref, Expectation.predicate ref ∈ [] → ref.index < n :=
  fun _ among => absurd among List.not_mem_nil

/-- Where nothing is expected, only the position matters. -/
theorem InBounds.plain {n : Nat} (within : n ≤ x.tokens.lastPosition) : (plain n).InBounds x :=
  ⟨within, known_nil _⟩

/-- Merging failures within bounds leaves them within bounds. -/
theorem InBounds.merge (hf : f.InBounds x) (hg : g.InBounds x) : (f.merge g).InBounds x := by
  unfold Failure.merge
  split
  · exact hg
  · split
    · exact ⟨hf.position_le, fun ref among =>
        (mem_collect among).elim (hf.known ref) (hg.known ref)⟩
    · exact hf

/-- The further of two failures is behind the positions that both are behind. -/
theorem Placed.further (hf : f.Placed x starts) (hg : g.Placed x starts) :
    (f.further g).Placed x starts := by
  unfold Failure.further
  split
  · exact hg
  · exact hf

/-- What is not before a position is not before what that position is not before. -/
theorem Placed.down {n : Nat} {below : List Nat} (h : f.Placed x starts) (among : n ∈ starts)
    (downward : Downward n below) : f.Placed x below :=
  ⟨h.toInBounds, fun m under => (downward.le m under).trans (h.le_position n among)⟩

/-- A failure that is behind some positions is behind fewer of them. -/
theorem Placed.append {more : List Nat} (h : f.Placed x (more ++ starts)) : f.Placed x starts :=
  ⟨h.toInBounds, fun n among => h.le_position n (List.mem_append_right more among)⟩

end Failure

namespace Program

/-- The matcher refers to what the program has, and its operands are parts of the program. -/
structure Admits (p : Program) (m : Matcher) : Prop where
  tables : m.InTables p.schema p.rules.size p.predicates.size
  operands : ∀ n ∈ m.operands, n ∈ p.parts

/-- Every part of a program whose handles are in its tables is admitted. -/
theorem HandlesInTables.admits {p : Program} {m : Matcher} (known : p.HandlesInTables)
    (part : m ∈ p.parts) : p.Admits m :=
  ⟨known.parts m part, fun _ => operand_mem_parts part⟩

end Program

namespace Frame

/-- The marks that the frame may go back to, the latest first. -/
def marks : Frame → List Mark
  | items start _ _ _ | alternatives _ start _ _ _ | opt start _ | group start
  | predicate _ start | guard _ start _ _ => [start]
  | separator l _ turn | element l _ turn => [turn, l.start]
  | _ => []

/-- The positions from which the frame counts, the latest first. -/
def starts : Frame → List Nat
  | rule _ position | node _ _ position | enum _ _ position => [position]
  | f => f.marks.map Mark.position

/-- The matchers that the frame keeps for later. -/
def matchers : Frame → List Matcher
  | items _ _ _ rest | alternatives _ _ _ _ rest => rest
  | separator l _ _ | element l _ _ => l.element :: l.separator.toList
  | guard _ _ rest outer => rest ++ outer.guards
  | protect pattern => [pattern]
  | _ => []

/-- The predicate, the type or the alternative that the frame refers to is one that there is. -/
def InTables (p : Program) : Frame → Prop
  | predicate ref _ => ref.index < p.predicates.size
  | guard type _ _ _ | node type _ _ => type.index < p.schema.nodes.size
  | enum type alternative _ =>
    ∃ declared, p.schema.enum? type = some declared ∧ alternative < declared.alternatives.length
  | _ => True

/-- The failure that the frame has set aside. -/
def putAside : Frame → Option Failure
  | guard _ _ _ outer => outer.furthest
  | _ => none

/-- What the frame holds is within bounds. -/
structure Sound (x : Session) (f : Frame) : Prop where
  parts : ∀ m ∈ f.matchers, m ∈ x.program.parts
  tables : f.InTables x.program
  failures : ∀ g ∈ f.failures, g.Placed x f.starts
  aside : ∀ g ∈ f.putAside, g.InBounds x

/-- The positions from which the frames count, above the floor. -/
def ground (floor : Nat) : List Frame → List Nat
  | [] => [floor]
  | f :: frames => f.starts ++ ground floor frames

/-- How many diagnostics were pending at the marks of the frames. -/
def counts : List Frame → List Nat
  | [] => []
  | f :: frames => f.marks.map Mark.pending ++ counts frames

variable {x : Session} {f : Frame} {m : Mark}

/-- The frame counts from the positions of its marks. -/
theorem position_mem_starts (among : m ∈ f.marks) : m.position ∈ f.starts := by
  cases f with
  | rule | node | enum => cases among
  | _ => exact List.mem_map_of_mem among

/-- A frame that holds no failure is sound if it refers to what there is. -/
theorem Sound.clean (parts : ∀ m ∈ f.matchers, m ∈ x.program.parts) (tables : f.InTables x.program)
    (failures : f.failures = []) (aside : f.putAside = none) : f.Sound x := by
  refine ⟨parts, tables, ?_, ?_⟩
  · rw [failures]
    exact List.forall_mem_nil _
  · rw [aside]
    rintro _ ⟨⟩

/-- A frame is sound if it holds neither a failure nor a matcher, and refers to what there is. -/
theorem Sound.bare (matchers : f.matchers = []) (tables : f.InTables x.program)
    (failures : f.failures = []) (aside : f.putAside = none) : f.Sound x :=
  .clean (matchers ▸ List.forall_mem_nil _) tables failures aside

/-- The rest of a sequence is sound if its items are parts of the program. -/
theorem Sound.items {start : Mark} {committed : Bool} {values : List Value} {rest : List Matcher}
    (parts : ∀ m ∈ rest, m ∈ x.program.parts) : Sound x (.items start committed values rest) :=
  .clean parts trivial rfl rfl

/-- The turn of a list is sound if the element and the separator are parts of the program. -/
theorem Sound.element {l : ListRun} {items : List Value} {turn : Mark}
    (parts : ∀ m ∈ l.element :: l.separator.toList, m ∈ x.program.parts) :
    Sound x (.element l items turn) :=
  .clean parts trivial rfl rfl

theorem Sound.separator {l : ListRun} {items : List Value} {turn : Mark}
    (parts : ∀ m ∈ l.element :: l.separator.toList, m ∈ x.program.parts) :
    Sound x (.separator l items turn) :=
  .clean parts trivial rfl rfl

/-- The rest of a choice is sound if its alternatives are parts of the program and what it holds was
found behind its start. -/
theorem Sound.alternatives {recovers : Bool} {start : Mark} {best committed : Option Failure}
    {rest : List Matcher} (parts : ∀ m ∈ rest, m ∈ x.program.parts)
    (hb : ∀ f ∈ best, f.Placed x [start.position])
    (hc : ∀ f ∈ committed, f.Placed x [start.position]) :
    Sound x (.alternatives recovers start best committed rest) := by
  refine ⟨parts, trivial, fun g among => ?_, by rintro _ ⟨⟩⟩
  rcases List.mem_append.mp among with one | one
  · exact hb g (Option.mem_toList.mp one)
  · exact hc g (Option.mem_toList.mp one)

/-- The best failure of a choice was found behind its start. -/
theorem Sound.best {recovers : Bool} {start : Mark} {best committed : Option Failure}
    {rest : List Matcher} (h : Sound x (.alternatives recovers start best committed rest)) :
    ∀ f ∈ best, f.Placed x [start.position] :=
  fun f one => h.failures f (List.mem_append_left _ (Option.mem_toList.mpr one))

/-- The failure that a choice recovers from was found behind its start. -/
theorem Sound.committed {recovers : Bool} {start : Mark} {best committed : Option Failure}
    {rest : List Matcher} (h : Sound x (.alternatives recovers start best committed rest)) :
    ∀ f ∈ committed, f.Placed x [start.position] :=
  fun f one => h.failures f (List.mem_append_right _ (Option.mem_toList.mpr one))

end Frame

namespace Session

/-- The state is at a token, and the frames are sound and not ahead of it, nor is the floor. -/
structure Grounded (x : Session) (floor : Nat) (s : State) (frames : List Frame) : Prop where
  position_le : s.position ≤ x.tokens.lastPosition
  furthest : ∀ f ∈ s.furthest, f.InBounds x
  starts : Downward s.position (Frame.ground floor frames)
  counts : Downward s.pending.length (Frame.counts frames)
  frames : ∀ f ∈ frames, f.Sound x

namespace Grounded

variable {x : Session} {floor : Nat} {s s' : State} {f f' : Frame} {frames : List Frame} {m : Mark}

/-- Without the frame on top, the state is grounded on those below. -/
theorem pop (h : x.Grounded floor s (f :: frames)) : x.Grounded floor s frames :=
  ⟨h.position_le, h.furthest, h.starts.drop, h.counts.drop,
    fun g among => h.frames g (List.mem_cons_of_mem f among)⟩

/-- The frame on top is sound. -/
theorem top (h : x.Grounded floor s (f :: frames)) : f.Sound x :=
  h.frames f (List.mem_cons_self ..)

/-- A frame that counts from the present state may be put on top. -/
theorem push (h : x.Grounded floor s frames) (sound : f.Sound x) (marks : ∀ m ∈ f.marks, m = s.mark)
    (starts : ∀ n ∈ f.starts, n = s.position) : x.Grounded floor s (f :: frames) := by
  refine ⟨h.position_le, h.furthest, h.starts.level starts, h.counts.level fun n among => ?_,
    List.forall_mem_cons.mpr ⟨sound, h.frames⟩⟩
  obtain ⟨m, marked, rfl⟩ := List.mem_map.mp among
  rw [marks m marked]
  rfl

/-- A sound frame with the mark of the state can be put on top. -/
theorem pushMarked (h : x.Grounded floor s frames) (sound : f.Sound x)
    (marks : ∀ m ∈ f.marks, m = s.mark) (starts : f.starts = f.marks.map Mark.position) :
    x.Grounded floor s (f :: frames) := by
  refine h.push sound marks fun n among => ?_
  rw [starts] at among
  obtain ⟨m, marked, rfl⟩ := List.mem_map.mp among
  rw [marks m marked]
  rfl

/-- The frame on top may give way to one that counts from the same places. -/
theorem replace (h : x.Grounded floor s (f :: frames)) (sound : f'.Sound x)
    (marks : f'.marks = f.marks) (starts : f'.starts = f.starts) :
    x.Grounded floor s (f' :: frames) := by
  refine ⟨h.position_le, h.furthest, ?_, ?_, List.forall_mem_cons.mpr ⟨sound, h.pop.frames⟩⟩
  · rw [Frame.ground, starts]
    exact h.starts
  · rw [Frame.counts, marks]
    exact h.counts

/-- The state may go on. -/
theorem onward (h : x.Grounded floor s frames) (on : s.Onward s')
    (within : s'.position ≤ x.tokens.lastPosition) (furthest : ∀ f ∈ s'.furthest, f.InBounds x) :
    x.Grounded floor s' frames :=
  ⟨within, furthest, h.starts.raise on.position_le, h.counts.raise on.pending_suffix.length_le,
    h.frames⟩

/-- Advancing keeps the state grounded, since the termination token is not passed. -/
theorem advance (h : x.Grounded floor s frames) : x.Grounded floor (x.advance s) frames := by
  refine h.onward (x.onward_advance s) (position_advance_le (Nat.le_refl _) h.position_le) ?_
  rw [furthest_advance]
  exact h.furthest

/-- Reporting keeps the state grounded. -/
theorem report (h : x.Grounded floor s frames) (d : Diagnostic) :
    x.Grounded floor (s.report d) frames :=
  h.onward (s.onward_report d) h.position_le h.furthest

/-- Recording a failure within bounds keeps the state grounded. -/
theorem record {f : Failure} (h : x.Grounded floor s frames) (bounded : f.InBounds x) :
    x.Grounded floor (s.record f) frames := by
  refine h.onward (s.unmoved_record f).onward h.position_le ?_
  rintro g ⟨⟩
  cases known : s.furthest with
  | none => exact bounded
  | some furthest => exact (h.furthest furthest known).merge bounded

/-- As many diagnostics as at the marks of the frame on top are pending still. -/
theorem pending_le (h : x.Grounded floor s (f :: frames)) (among : m ∈ f.marks) :
    m.pending ≤ s.pending.length :=
  h.counts.le _ (List.mem_append_left _ (List.mem_map_of_mem among))

/-- The marks of the frame on top are at tokens. -/
theorem mark_le (h : x.Grounded floor s (f :: frames)) (among : m ∈ f.marks) :
    m.position ≤ x.tokens.lastPosition :=
  (h.starts.le _ (List.mem_append_left _ (Frame.position_mem_starts among))).trans h.position_le

/-- Going back leaves as many diagnostics pending as there were at the mark. -/
theorem length_pending_rewind (le : m.pending ≤ s.pending.length) :
    (s.rewind m).pending.length = m.pending := by
  rw [State.rewind, List.length_drop]
  omega

/-- The state may go back to a mark of the frame on top, which is popped. -/
theorem back (h : x.Grounded floor s (f :: frames)) (among : m ∈ f.marks) :
    x.Grounded floor (s.rewind m) frames := by
  refine ⟨h.mark_le among, h.furthest, h.starts.lower (Frame.position_mem_starts among), ?_,
    h.pop.frames⟩
  rw [length_pending_rewind (h.pending_le among)]
  exact h.counts.lower (List.mem_map_of_mem among)

/-- The state may go back to the latest mark of the frame on top. -/
theorem again {older : List Mark} (h : x.Grounded floor s (f :: frames))
    (marks : f.marks = m :: older) (starts : f.starts = f.marks.map Mark.position) :
    x.Grounded floor (s.rewind m) (f :: frames) := by
  have among : m ∈ f.marks := marks ▸ List.mem_cons_self ..
  refine ⟨h.mark_le among, h.furthest, ?_, ?_, h.frames⟩
  · have below := h.starts
    rw [Frame.ground, starts, marks] at below ⊢
    exact below.tail.self
  · have below := h.counts
    rw [Frame.counts, marks] at below ⊢
    rw [length_pending_rewind (h.pending_le among)]
    exact below.tail.self

/-- A failure here is not before anything that the frames count from. -/
theorem placed {f : Failure} (h : x.Grounded floor s frames) (here : f.position = s.position)
    (known : ∀ ref, .predicate ref ∈ f.expected → ref.index < x.program.predicates.size) :
    f.Placed x (Frame.ground floor frames) :=
  ⟨⟨here ▸ h.position_le, known⟩, here ▸ h.starts.le⟩

end Grounded

end Session

/-- What is to be done now is within bounds: a matcher that the program admits, or the end of a part
of a run that began at the first of the given positions or behind it. -/
def Control.Sound (x : Session) (starts : List Nat) : Control → Prop
  | eval m => x.program.Admits m
  | answer o => ∀ f ∈ o.failures, f.Placed x starts
  | raise fault => fault.position ≤ x.tokens.lastPosition

/-- All that the configuration holds is within bounds, and above the floor. -/
structure Configuration.Sound (x : Session) (floor : Nat) (c : Configuration) : Prop where
  grounded : x.Grounded floor c.engine.state c.frames
  guards : ∀ g ∈ c.engine.guards, g ∈ x.program.parts
  control : c.control.Sound x (Frame.ground floor c.frames)

namespace Session

variable {x : Session} {floor : Nat} {c d : Configuration} {e : Engine} {frames : List Frame}

/-- A success is sound in a state that is grounded. -/
theorem sound_success {values : List Value} (h : x.Grounded floor e.state frames)
    (guards : ∀ g ∈ e.guards, g ∈ x.program.parts) :
    Configuration.Sound x floor ⟨.answer (.success values), e, frames⟩ :=
  ⟨h, guards, List.forall_mem_nil _⟩

/-- A failure is raised at the position of the engine. -/
theorem sound_fail {expected : List Expectation} (h : x.Grounded floor e.state frames)
    (guards : ∀ g ∈ e.guards, g ∈ x.program.parts)
    (known : ∀ ref, .predicate ref ∈ expected → ref.index < x.program.predicates.size) :
    Configuration.Sound x floor
      (.ofStep e frames (e.state.fail ⟨e.state.position, expected⟩)) :=
  have placed := h.placed (f := ⟨e.state.position, expected⟩) rfl known
  ⟨h.record placed.toInBounds, guards, List.forall_mem_singleton.mpr placed⟩

/-- Entering a rule is sound: its body is a part of the program. -/
theorem sound_enterRule {ref : RuleRef} (tables : x.program.HandlesInTables)
    (h : x.Grounded floor e.state frames) (guards : ∀ g ∈ e.guards, g ∈ x.program.parts) :
    (x.enterRule ref e frames).Sound x floor := by
  have entering : x.Grounded floor e.state (.rule ref e.state.position :: frames) :=
    h.push (.bare rfl trivial rfl rfl) (List.forall_mem_nil _) (List.forall_mem_singleton.mpr rfl)
  simp only [enterRule]
  split
  · exact ⟨h, guards, h.position_le⟩
  · split
    · exact ⟨h, guards, h.position_le⟩
    · split
      · next found =>
        exact ⟨entering, guards, tables.admits (Program.body_mem_parts found)⟩
      · exact sound_fail (e := { e with active := _, nesting := _ }) entering guards
          (Failure.known_nil _)

/-- Going on with the items of a sequence is sound. -/
theorem sound_nextItem {start : Mark} {committed : Bool} {values : List Value}
    (tables : x.program.HandlesInTables) (ms : List Matcher)
    (h : x.Grounded floor e.state (.items start committed values ms :: frames))
    (guards : ∀ g ∈ e.guards, g ∈ x.program.parts) :
    (nextItem start committed values ms e frames).Sound x floor := by
  induction ms generalizing committed with
  | nil => exact sound_success h.pop guards
  | cons m ms ih =>
    obtain ⟨first, others⟩ := List.forall_mem_cons.mp h.top.parts
    have rest (committed : Bool) :
        x.Grounded floor e.state (.items start committed values ms :: frames) :=
      h.replace (.items others) rfl rfl
    rw [nextItem]
    split
    · exact ih (rest true)
    · exact ⟨rest committed, guards, tables.admits first⟩

/-- Going on with the alternatives of a choice is sound. -/
theorem sound_nextAlternative {recovers : Bool} {start : Mark} {best committed : Option Failure}
    (tables : x.program.HandlesInTables) (ms : List Matcher)
    (h : x.Grounded floor e.state (.alternatives recovers start best committed ms :: frames))
    (guards : ∀ g ∈ e.guards, g ∈ x.program.parts) :
    (nextAlternative recovers start best committed ms e frames).Sound x floor := by
  have began : start.position ∈ [start.position] := List.mem_singleton_self _
  have marked : start ∈ [start] := List.mem_singleton_self _
  have below : Downward start.position (Frame.ground floor frames) := h.starts.lower began
  induction ms with
  | nil =>
    cases committed with
    | some f =>
      exact ⟨h.back marked, guards,
        List.forall_mem_singleton.mpr ((h.top.committed f rfl).down began below)⟩
    | none =>
      refine ⟨h.pop, guards, List.forall_mem_singleton.mpr ?_⟩
      cases best with
      | some f => exact (h.top.best f rfl).down began below
      | none => exact ⟨.plain (h.mark_le marked), below.le⟩
  | cons m ms ih =>
    obtain ⟨first, others⟩ := List.forall_mem_cons.mp h.top.parts
    have rest : x.Grounded floor e.state
        (.alternatives recovers start best committed ms :: frames) :=
      h.replace (.alternatives others h.top.best h.top.committed) rfl rfl
    rw [nextAlternative]
    split
    · exact ih rest
    · exact ⟨rest, guards, tables.admits first⟩

/-- A turn that has matched is over, and another one begins here. -/
theorem grounded_turn {l : ListRun} {items more : List Value} {turn : Mark}
    (h : x.Grounded floor e.state (.element l items turn :: frames)) :
    x.Grounded floor e.state (.element l more e.state.mark :: frames) :=
  ⟨h.position_le, h.furthest, (h.starts.drop (l := [turn.position])).self,
    (h.counts.drop (l := [turn.pending])).self,
    List.forall_mem_cons.mpr ⟨.element h.top.parts, h.pop.frames⟩⟩

/-- Going on with a turn of a list is sound. -/
theorem sound_nextTurn {l : ListRun} {items : List Value} (tables : x.program.HandlesInTables)
    (h : x.Grounded floor e.state (.element l items e.state.mark :: frames))
    (guards : ∀ g ∈ e.guards, g ∈ x.program.parts) :
    (nextTurn l items e frames).Sound x floor := by
  have element := List.forall_mem_cons.mp h.top.parts
  simp only [nextTurn]
  split
  · next separator known =>
    split
    · exact ⟨h, guards, tables.admits element.1⟩
    · refine ⟨h.replace (.separator h.top.parts) rfl rfl, guards, tables.admits ?_⟩
      exact element.2 separator (Option.mem_toList.mpr known)
  · exact ⟨h, guards, tables.admits element.1⟩

/-- Ending a list with its last turn is sound. -/
theorem sound_lastTurn {l : ListRun} {items : List Value} {turn : Mark} {last : Option Failure}
    (h : x.Grounded floor e.state (.element l items turn :: frames))
    (guards : ∀ g ∈ e.guards, g ∈ x.program.parts)
    (placed : ∀ f ∈ last, f.Placed x (Frame.ground floor (.element l items turn :: frames))) :
    (lastTurn l items last e frames).Sound x floor := by
  have marked : l.start ∈ [turn, l.start] := List.mem_cons_of_mem _ (List.mem_singleton_self _)
  rw [lastTurn, finishList]
  split
  · have grounded := h.back marked
    refine ⟨grounded, guards, List.forall_mem_singleton.mpr ?_⟩
    cases last with
    | some f => exact (placed f rfl).append
    | none => exact grounded.placed rfl (Failure.known_nil _)
  · exact sound_success h.pop guards

/-- What was set aside is put back as it was. -/
theorem Grounded.restore {errorType : NodeRef} {start : Mark} {rest : List Matcher} {outer : Aside}
    (h : x.Grounded floor e.state (.guard errorType start rest outer :: frames)) :
    x.Grounded floor (e.restore outer).state frames ∧
      ∀ g ∈ (e.restore outer).guards, g ∈ x.program.parts :=
  ⟨⟨h.position_le, h.top.aside, h.pop.starts, h.pop.counts, h.pop.frames⟩,
    fun g among => h.top.parts g (List.mem_append_right rest among)⟩

/-- Going on with the guards of a skip is sound. -/
theorem sound_nextGuard {errorType : NodeRef} {start : Mark} {outer : Aside}
    (tables : x.program.HandlesInTables) (ms : List Matcher)
    (h : x.Grounded floor e.state (.guard errorType start ms outer :: frames))
    (guards : ∀ g ∈ e.guards, g ∈ x.program.parts) :
    (x.nextGuard errorType outer ms e frames).Sound x floor := by
  cases ms with
  | nil =>
    obtain ⟨grounded, inside⟩ := h.restore
    exact sound_success (grounded.advance.report _) inside
  | cons m ms =>
    obtain ⟨first, others⟩ := List.forall_mem_cons.mp h.top.parts
    refine ⟨h.pop.pushMarked ⟨others, h.top.tables, List.forall_mem_nil _, h.top.aside⟩ ?_ rfl,
      guards, tables.admits first⟩
    exact List.forall_mem_singleton.mpr rfl

/-- Beginning any matcher of the program is sound. -/
theorem sound_start (tables : x.program.HandlesInTables) (m : Matcher)
    (admitted : x.program.Admits m) (h : x.Grounded floor e.state frames)
    (guards : ∀ g ∈ e.guards, g ∈ x.program.parts) : (x.start m e frames).Sound x floor := by
  have operands := admitted.operands
  have marked : ∀ m ∈ [e.state.mark], m = e.state.mark := List.forall_mem_singleton.mpr rfl
  have both : ∀ m ∈ [e.state.mark, e.state.mark], m = e.state.mark :=
    List.forall_mem_cons.mpr ⟨rfl, marked⟩
  have here : ∀ n ∈ [e.state.position], n = e.state.position := List.forall_mem_singleton.mpr rfl
  have operand {n : Matcher} (among : n ∈ m.operands) : x.program.Admits n :=
    tables.admits (operands n among)
  cases m with
  | token kind text keep =>
    simp only [start, matchToken]
    split
    · exact sound_success h.advance guards
    · exact sound_fail h guards (by simp)
  | rule ref => exact sound_enterRule tables h guards
  | seq items => exact sound_nextItem tables _ (h.pushMarked (.items operands) marked rfl) guards
  | choice alternatives =>
    exact sound_nextAlternative tables _
      (h.pushMarked (.alternatives operands (by rintro _ ⟨⟩) (by rintro _ ⟨⟩)) marked rfl) guards
  | opt m | group m =>
    exact ⟨h.pushMarked (.bare rfl trivial rfl rfl) marked rfl, guards,
      operand (List.mem_singleton_self _)⟩
  | list repetition element =>
    let l : ListRun := ⟨repetition, element, none, e.state.mark⟩
    have frame : Frame.Sound x (.element l [] e.state.mark) := .element operands
    exact sound_nextTurn tables (h.pushMarked frame both rfl) guards
  | sepList repetition element separator =>
    let l : ListRun := ⟨repetition, element, some separator, e.state.mark⟩
    have frame : Frame.Sound x (.element l [] e.state.mark) := .element operands
    exact sound_nextTurn tables (h.pushMarked frame both rfl) guards
  | cut | null => exact sound_success h guards
  | predicate ref m =>
    exact ⟨h.pushMarked (.bare rfl admitted.tables rfl rfl) marked rfl, guards,
      operand (List.mem_singleton_self _)⟩
  | skip errorType =>
    rw [start]
    split
    · exact sound_fail h guards (Failure.known_nil _)
    · have cleared : x.Grounded floor e.clear.state frames :=
        ⟨h.position_le, by rintro _ ⟨⟩, h.starts, h.counts, h.frames⟩
      have frame : Frame.Sound x (.guard errorType e.state.mark e.guards e.aside) :=
        ⟨List.forall_mem_append.mpr ⟨guards, guards⟩, admitted.tables, List.forall_mem_nil _,
          h.furthest⟩
      exact sound_nextGuard tables e.guards (cleared.pushMarked frame marked rfl)
        (List.forall_mem_nil _)
  | protect m guard =>
    obtain ⟨inner, others⟩ := List.forall_mem_cons.mp operands
    exact ⟨h.pushMarked (.clean others trivial rfl rfl) (List.forall_mem_nil _) rfl,
      List.forall_mem_cons.mpr ⟨others guard (List.mem_singleton_self _), guards⟩,
      tables.admits inner⟩
  | node | enum =>
    exact ⟨h.push (.bare rfl admitted.tables rfl rfl) (List.forall_mem_nil _) here, guards,
      operand (List.mem_singleton_self _)⟩

/-- What answers a frame answers what is below it, unless the frame sees to it. -/
theorem answer_pop {f : Frame} {o : Outcome}
    (answer : (Control.answer o).Sound x (Frame.ground floor (f :: frames))) :
    (Control.answer o).Sound x (Frame.ground floor frames) :=
  fun g among => (answer g among).append

/-- A choice goes on with its next alternative, and remembers what has failed so far. -/
theorem sound_choice {recovers : Bool} {start : Mark} {best committed : Option Failure}
    {rest : List Matcher} (tables : x.program.HandlesInTables) (o : Outcome)
    (h : x.Grounded floor e.state (.alternatives recovers start best committed rest :: frames))
    (guards : ∀ g ∈ e.guards, g ∈ x.program.parts)
    (answer : (Control.answer o).Sound x
      (Frame.ground floor (.alternatives recovers start best committed rest :: frames))) :
    (x.resume (.alternatives recovers start best committed rest) o e frames).Sound x floor := by
  have began : start.position ∈ Frame.ground floor
      (.alternatives recovers start best committed rest :: frames) :=
    List.mem_append_left _ (List.mem_singleton_self _)
  have placed {f : Failure} (among : f ∈ o.failures) : f.Placed x [start.position] :=
    ⟨(answer f among).toInBounds, List.forall_mem_singleton.mpr
      ((answer f among).le_position start.position began)⟩
  have again := h.again (m := start) rfl rfl
  cases o with
  | success values => exact sound_success h.pop guards
  | soft f =>
    have failed := placed (List.mem_singleton_self f)
    refine sound_nextAlternative (e := e.rewind start) tables rest
      (again.replace (.alternatives h.top.parts ?_ h.top.committed) rfl rfl) guards
    rintro _ ⟨⟩
    cases best with
    | none => exact failed
    | some g => exact (h.top.best g rfl).further failed
  | hard f =>
    cases recovers with
    | true =>
      refine sound_nextAlternative (e := { e with state := x.reportRecovered f _ }) tables rest
        ((again.report _).replace (.alternatives h.top.parts h.top.best ?_) rfl rfl) guards
      rintro _ ⟨⟩
      exact placed (List.mem_singleton_self f)
    | false => exact ⟨h.pop, guards, answer_pop answer⟩

/-- Behind a separator comes an element, and without one the list ends where the turn began. -/
theorem sound_separated {l : ListRun} {items : List Value} {turn : Mark}
    (tables : x.program.HandlesInTables) (o : Outcome)
    (h : x.Grounded floor e.state (.separator l items turn :: frames))
    (guards : ∀ g ∈ e.guards, g ∈ x.program.parts)
    (answer : (Control.answer o).Sound x (Frame.ground floor (.separator l items turn :: frames))) :
    (x.resume (.separator l items turn) o e frames).Sound x floor := by
  cases o with
  | success values =>
    exact ⟨h.replace (.element h.top.parts) rfl rfl, guards,
      tables.admits (h.top.parts l.element (List.mem_cons_self ..))⟩
  | soft f =>
    have given : x.Grounded floor (e.state.rewind turn) (.element l items turn :: frames) :=
      (h.again rfl rfl).replace (.element h.top.parts) rfl rfl
    refine sound_lastTurn (e := e.rewind turn) given guards ?_
    rintro _ ⟨⟩
    exact answer f (List.mem_singleton_self f)
  | hard f => exact ⟨h.pop, guards, answer_pop answer⟩

/-- Behind an element comes the next turn if this one got on, and otherwise the list ends where it
began. -/
theorem sound_repeated {l : ListRun} {items : List Value} {turn : Mark}
    (tables : x.program.HandlesInTables) (o : Outcome)
    (h : x.Grounded floor e.state (.element l items turn :: frames))
    (guards : ∀ g ∈ e.guards, g ∈ x.program.parts)
    (answer : (Control.answer o).Sound x (Frame.ground floor (.element l items turn :: frames))) :
    (x.resume (.element l items turn) o e frames).Sound x floor := by
  have given := h.again (m := turn) rfl rfl
  cases o with
  | success values =>
    rw [resume]
    split
    · exact sound_lastTurn (e := e.rewind turn) given guards (by rintro _ ⟨⟩)
    · exact sound_nextTurn tables (grounded_turn h) guards
  | soft f =>
    refine sound_lastTurn (e := e.rewind turn) given guards ?_
    rintro _ ⟨⟩
    exact answer f (List.mem_singleton_self f)
  | hard f => exact ⟨h.pop, guards, answer_pop answer⟩

/-- Going on with any frame is sound, whatever has ended above it. -/
theorem sound_resume (tables : x.program.HandlesInTables) (f : Frame) (o : Outcome)
    (h : x.Grounded floor e.state (f :: frames)) (guards : ∀ g ∈ e.guards, g ∈ x.program.parts)
    (answer : (Control.answer o).Sound x (Frame.ground floor (f :: frames))) :
    (x.resume f o e frames).Sound x floor := by
  have marked {α : Type} {a : α} : a ∈ [a] := List.mem_singleton_self a
  have passed : Configuration.Sound x floor ⟨.answer o, e, frames⟩ :=
    ⟨h.pop, guards, answer_pop answer⟩
  cases f with
  | rule ref position => exact ⟨h.pop, guards, answer_pop answer⟩
  | protect pattern =>
    exact ⟨h.pop, fun g among => guards g (List.mem_of_mem_tail among), answer_pop answer⟩
  | items start committed values rest =>
    cases o with
    | success more => exact sound_nextItem tables _ (h.replace (.items h.top.parts) rfl rfl) guards
    | soft f =>
      cases committed with
      -- the failure becomes a hard one, as it is
      | true => exact ⟨h.pop, guards, answer_pop answer⟩
      | false => exact ⟨h.back marked, guards, answer_pop answer⟩
    | hard f => exact passed
  | alternatives => exact sound_choice tables o h guards answer
  | opt start _ | group start =>
    cases o with
    | success values => exact sound_success h.pop guards
    | soft f => exact sound_success (e := e.rewind start) (h.back marked) guards
    | hard f => exact passed
  | separator => exact sound_separated tables o h guards answer
  | element => exact sound_repeated tables o h guards answer
  | predicate ref start =>
    cases o with
    | success values =>
      simp only [resume]
      split
      · exact sound_success h.pop guards
      · refine sound_fail (e := e.rewind start) (h.back marked) guards ?_
        rintro _ among
        cases List.mem_singleton.mp among
        exact h.top.tables
    | soft f | hard f => exact passed
  | guard errorType start rest outer =>
    have again := h.again (m := start) rfl rfl
    rw [resume]
    split
    · obtain ⟨grounded, inside⟩ := Grounded.restore (e := e.rewind start) again
      exact sound_fail grounded inside (Failure.known_nil _)
    · exact sound_nextGuard (e := e.rewind start) tables rest again guards
  | node | enum =>
    cases o with
    | success values => exact sound_success h.pop guards
    | soft f | hard f => exact passed

/-- A step keeps everything within bounds. -/
theorem sound_step (tables : x.program.HandlesInTables) (next : x.step c = some d)
    (h : c.Sound x floor) : d.Sound x floor := by
  obtain ⟨grounded, guards, control⟩ := h
  obtain ⟨m | o | fault, e, _ | ⟨f, frames⟩⟩ := c
  all_goals
    cases next
  · exact sound_start tables m control grounded guards
  · exact sound_start tables m control grounded guards
  · exact sound_resume tables f o grounded guards control
  · cases f with
    | guard errorType start rest outer =>
      obtain ⟨restored, inside⟩ := grounded.restore
      exact ⟨restored, inside, control⟩
    | protect pattern =>
      exact ⟨grounded.pop, fun g among => guards g (List.mem_of_mem_tail among), control⟩
    | _ => exact ⟨grounded.pop, guards, control⟩

/-- What a sound configuration leads to is sound. -/
theorem sound_of_leadsTo (tables : x.program.HandlesInTables) (leads : x.LeadsTo c d)
    (h : c.Sound x floor) : d.Sound x floor := by
  induction leads with
  | refl => exact h
  | tail _ next ih => exact sound_step tables next ih

end Session

end CombinatorGrammar
