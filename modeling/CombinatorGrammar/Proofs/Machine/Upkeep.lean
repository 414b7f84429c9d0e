import CombinatorGrammar.Proofs.Machine.Simulation

/-!
# What the engine keeps up

The levels of nesting, the rules in progress and the guards of the engine are just what the frames
say: they are changed where a frame is pushed, and changed back where it is popped, by an outcome or
by a fault. So wherever the same frames are left again, these three are what they were before, and
the depth counts the rules that are in progress, those set aside by attempts of guards included.
-/

namespace CombinatorGrammar

/-- What the engine holds beside the state. -/
structure Place where
  nesting : Nesting
  active : List (RuleRef × Nat)
  guards : List Matcher

/-- The engine with its state left out. -/
def Engine.place (e : Engine) : Place := ⟨e.nesting, e.active, e.guards⟩

namespace Frame

/-- The frame leaves everything but the state as it is. -/
def IsPlain : Frame → Prop
  | .rule _ _ => False
  | .guard _ _ _ _ => False
  | .protect _ => False
  | _ => True

/-- The rules in progress, each a frame that waits for the body of the rule. -/
def inProgress : List Frame → Nat
  | [] => 0
  | .rule _ _ :: frames => inProgress frames + 1
  | _ :: frames => inProgress frames

/-- How many rules in progress are set aside by attempts of guards. -/
def setAside : List Frame → Nat
  | [] => 0
  | .guard _ _ _ outer :: frames => outer.active.length + setAside frames
  | _ :: frames => setAside frames

end Frame

/-- `Within base frames p`: where `base` is the place below all frames, `p` is the place above. -/
inductive Within (base : Place) : List Frame → Place → Prop
  | nil : Within base [] base
  | rule {frames : List Frame} {p : Place} {nesting : Nesting} {ref : RuleRef} {position : Nat} :
      Within base frames p → p.nesting.enter? = some nesting → (ref, position) ∉ p.active →
      Within base (.rule ref position :: frames) ⟨nesting, (ref, position) :: p.active, p.guards⟩
  | guard {frames : List Frame} {p : Place} {errorType : NodeRef} {start : Mark}
      {rest : List Matcher} {outer : Aside} :
      Within base frames p → outer.active = p.active → outer.guards = p.guards →
      Within base (.guard errorType start rest outer :: frames) ⟨p.nesting, [], []⟩
  | protect {frames : List Frame} {p : Place} {guard : Matcher} :
      Within base frames p →
      Within base (.protect guard :: frames) ⟨p.nesting, p.active, guard :: p.guards⟩
  | plain {frames : List Frame} {p : Place} {f : Frame} :
      f.IsPlain → Within base frames p → Within base (f :: frames) p

namespace Within

variable {base p q : Place} {frames : List Frame} {f : Frame} {e : Engine}

/-- The frames determine the place. -/
theorem unique (h : Within base frames p) (h' : Within base frames q) : p = q := by
  induction h generalizing q with
  | nil =>
    cases h'
    rfl
  | rule _ entered _ ih =>
    cases h' with
    | rule below entered' =>
      obtain rfl := ih below
      obtain rfl := Option.some.inj (entered.symm.trans entered')
      rfl
    | plain none => exact none.elim
  | guard _ _ _ ih =>
    cases h' with
    | guard below _ _ => rw [ih below]
    | plain none => exact none.elim
  | protect _ ih =>
    cases h' with
    | protect below => rw [ih below]
    | plain none => exact none.elim
  | plain plain _ ih =>
    cases h' with
    | plain _ below => exact ih below
    | _ => exact plain.elim

/-- The depth counts the rules in progress, among them those that are set aside. -/
theorem counts (h : Within base frames p) :
    p.nesting.depth = base.nesting.depth + Frame.inProgress frames ∧
      p.active.length + Frame.setAside frames = base.active.length + Frame.inProgress frames := by
  induction h with
  | nil => exact ⟨rfl, rfl⟩
  | rule _ entered _ ih =>
    have deeper := Nesting.depth_of_enter? entered
    simp only [Frame.inProgress, Frame.setAside, List.length_cons]
    omega
  | guard _ active _ ih =>
    simp only [Frame.inProgress, Frame.setAside, List.length_nil, active]
    omega
  | protect _ ih => exact ih
  | @plain _ _ f plain _ ih =>
    cases f <;> first | exact ih | exact plain.elim

/-- No rule is in progress twice at one position. -/
theorem nodup (h : Within base frames p) (new : base.active.Nodup) : p.active.Nodup := by
  induction h with
  | nil => exact new
  | rule _ _ other ih => exact List.nodup_cons.mpr ⟨other, ih⟩
  | guard => exact List.nodup_nil
  | protect _ ih | plain _ _ ih => exact ih

/-- What the frame undoes is what it stands for. -/
theorem close (h : Within base (f :: frames) e.place) : Within base frames (f.close e).place := by
  obtain ⟨s, nesting, active, guards⟩ := e
  generalize same : Engine.place ⟨s, nesting, active, guards⟩ = p at h
  cases h with
  | rule below entered =>
    cases same
    rw [Frame.close, Session.leave_entered entered]
    exact below
  | guard below active guards =>
    cases same
    rw [Frame.close, Engine.restore, active, guards]
    exact below
  | protect below =>
    cases same
    exact below
  | plain plain below =>
    cases same
    cases f <;> first | exact below | exact plain.elim

end Within

namespace Session

variable {x : Session} {base : Place} {c d : Configuration} {e : Engine} {frames : List Frame}
  {s : State}

/-- The engine is in the place that the frames of the configuration tell. -/
def Upkept (base : Place) (c : Configuration) : Prop := Within base c.frames c.engine.place

/-- What a step has computed leaves the place as it is. -/
theorem upkept_ofStep (r : Step) (h : Within base frames e.place) :
    Upkept base (.ofStep e frames r) := by
  rcases r with fault | ⟨o, s⟩ <;> exact h

/-- Entering a rule enters a level and puts the rule in progress. -/
theorem upkept_enterRule {ref : RuleRef} (h : Within base frames e.place) :
    Upkept base (x.enterRule ref e frames) := by
  simp only [enterRule]
  split
  · exact h
  · next new =>
    have other : (ref, e.state.position) ∉ e.active := by simpa using new
    split
    · rw [List.erase_cons_head]
      exact h
    · next nesting entered =>
      split
      · exact .rule h entered other
      · exact upkept_ofStep _ (.rule h entered other)

/-- Going on with the items of a sequence leaves the place as it is. -/
theorem upkept_nextItem {start : Mark} {committed : Bool} {values : List Value}
    (ms : List Matcher) (h : Within base frames e.place) :
    Upkept base (nextItem start committed values ms e frames) := by
  induction ms generalizing committed with
  | nil => exact h
  | cons m ms ih =>
    rw [nextItem]
    split
    · exact ih
    · exact .plain trivial h

/-- Going on with the alternatives of a choice leaves the place as it is. -/
theorem upkept_nextAlternative {recovers : Bool} {start : Mark} {best committed : Option Failure}
    (ms : List Matcher) (h : Within base frames e.place) :
    Upkept base (nextAlternative recovers start best committed ms e frames) := by
  induction ms with
  | nil => cases committed <;> exact h
  | cons m ms ih =>
    rw [nextAlternative]
    split
    · exact ih
    · exact .plain trivial h

/-- Going on with a turn of a list leaves the place as it is. -/
theorem upkept_nextTurn {l : ListRun} {items : List Value} (h : Within base frames e.place) :
    Upkept base (nextTurn l items e frames) := by
  simp only [nextTurn]
  split
  · split <;> exact .plain trivial h
  · exact .plain trivial h

/-- Going on with the guards of a skip sets aside what they must not see, or puts it back. -/
theorem upkept_nextGuard {errorType : NodeRef} {start : Mark} {rest : List Matcher} {outer : Aside}
    (ms : List Matcher) (h : Within base (.guard errorType start rest outer :: frames) e.place) :
    Upkept base (x.nextGuard errorType outer ms e frames) := by
  cases ms with
  | nil =>
    rw [nextGuard, takeToken]
    exact upkept_ofStep _ (e := e.restore outer) h.close
  | cons m ms =>
    rw [nextGuard, Upkept]
    generalize e.place = p at h ⊢
    cases h with
    | guard below active guards => exact .guard below active guards
    | plain none => exact none.elim

/-- Beginning a matcher leaves the place that the frames tell. -/
theorem upkept_start (m : Matcher) (h : Within base frames e.place) :
    Upkept base (x.start m e frames) := by
  cases m with
  | token kind text keep => exact upkept_ofStep _ h
  | rule ref => exact upkept_enterRule h
  | seq items => exact upkept_nextItem _ h
  | choice alternatives => exact upkept_nextAlternative _ h
  | list | sepList => exact upkept_nextTurn h
  | opt | group | predicate | node | enum => exact .plain trivial h
  | skip errorType =>
    rw [start]
    split
    · exact upkept_ofStep _ h
    · have attempted : Within base (.guard errorType e.state.mark [] e.aside :: frames)
          e.clear.place := .guard h rfl rfl
      exact upkept_nextGuard _ attempted
  | protect m guard => exact .protect h
  | cut | null => exact h

/-- Going on with a frame leaves the place that the other frames tell. -/
theorem upkept_resume (f : Frame) (o : Outcome) (h : Within base (f :: frames) e.place) :
    Upkept base (x.resume f o e frames) := by
  have closed := h.close
  cases f with
  | rule | protect => exact closed
  | guard errorType start rest outer =>
    have rewound : Within base (.guard errorType start rest outer :: frames)
        (e.rewind start).place := h
    rw [resume]
    split
    · exact upkept_ofStep _ rewound.close
    · exact upkept_nextGuard _ rewound
  | items start committed values rest =>
    cases o with
    | success more => exact upkept_nextItem _ closed
    | soft f => cases committed <;> exact closed
    | hard f => exact closed
  | alternatives recovers start best committed rest =>
    cases o with
    | success values => exact closed
    | soft f => exact upkept_nextAlternative _ closed
    | hard f =>
      cases recovers with
      | true => exact upkept_nextAlternative _ closed
      | false => exact closed
  | separator l items turn =>
    cases o with
    | success values => exact .plain trivial closed
    | soft f => exact upkept_ofStep _ closed
    | hard f => exact closed
  | element l items turn =>
    cases o with
    | success values =>
      rw [resume]
      split
      · exact upkept_ofStep _ closed
      · exact upkept_nextTurn closed
    | soft f => exact upkept_ofStep _ closed
    | hard f => exact closed
  | predicate ref start =>
    cases o with
    | success values =>
      simp only [resume]
      split
      · exact closed
      · exact upkept_ofStep _ closed
    | soft f => exact closed
    | hard f => exact closed
  | opt | group | node | enum => cases o <;> exact closed

/-- A step keeps the engine in its place. -/
theorem upkept_step (next : x.step c = some d) (h : Upkept base c) : Upkept base d := by
  obtain ⟨m | o | fault, e, _ | ⟨f, frames⟩⟩ := c
  all_goals
    cases next
  · exact upkept_start m h
  · exact upkept_start m h
  · exact upkept_resume f o h
  · exact Within.close h

/-- Whatever a configuration leads to, the place is the one that its frames tell. -/
theorem upkept_of_leadsTo (leads : x.LeadsTo c d) (h : Upkept base c) : Upkept base d := by
  induction leads with
  | refl => exact h
  | tail _ next ih => exact upkept_step next ih

/-- Where the same frames are left again, the engine is in the same place. -/
theorem place_eq_of_frames_eq {maxDepth position : Nat} {ref : RuleRef}
    (before : x.LeadsTo (.ofRule maxDepth ref position) c)
    (after : x.LeadsTo (.ofRule maxDepth ref position) d) (same : d.frames = c.frames) :
    d.engine.place = c.engine.place := by
  have begun : Upkept (Engine.place (.initial maxDepth position)) (.ofRule maxDepth ref position) :=
    .nil
  have kept := upkept_of_leadsTo after begun
  rw [Upkept, same] at kept
  exact kept.unique (upkept_of_leadsTo before begun)

/-- Everywhere in a run the depth counts the rules in progress, among them those that are set aside,
and no rule is in progress twice at one position. -/
theorem depth_eq {maxDepth position : Nat} {ref : RuleRef}
    (leads : x.LeadsTo (.ofRule maxDepth ref position) c) :
    c.engine.nesting.depth = Frame.inProgress c.frames ∧
      c.engine.active.length + Frame.setAside c.frames = Frame.inProgress c.frames ∧
      c.engine.active.Nodup := by
  have kept : Within (Engine.place (.initial maxDepth position)) c.frames c.engine.place :=
    upkept_of_leadsTo leads .nil
  obtain ⟨depth, active⟩ := kept.counts
  refine ⟨depth.trans (Nat.zero_add _), active.trans (Nat.zero_add _), kept.nodup List.nodup_nil⟩

end Session

end CombinatorGrammar
