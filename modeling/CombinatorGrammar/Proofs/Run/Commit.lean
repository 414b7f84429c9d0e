import CombinatorGrammar.Parse.Basic
import CombinatorGrammar.Proofs.Program.Resolution
import CombinatorGrammar.Proofs.Run.HardEnds
import CombinatorGrammar.Proofs.Run.Transaction

/-!
# A cut commits

Where an item fails softly behind a cut of its sequence, nothing else is tried: the run ends with
just the failure of the item, where the item began. It is so for the whole run without recovery.
With recovery it is so up to the alternative of a choice that recovers, or up to the attempt of a
guard, in which this happens.
-/

namespace CombinatorGrammar

namespace Session

variable {x : Session} {b c part w u : Begun} {rest : Task} {o : Outcome} {s s₁ : State}
  {f : Failure} {m : Matcher} {h : List Begun}

section Commits

/-- The sequence opens with the item that fails. -/
theorem Commits.exists_first (commits : x.Commits c m f s) : x.First c (c.item m) := by
  obtain ⟨remaining, depth, job, cx, s₀⟩ := c
  obtain ⟨⟨ms, behind⟩, item, _⟩ := commits
  cases behind
  exact .opens (.item item)

/-- The first part of what commits is the item that fails. -/
theorem Commits.first (commits : x.Commits c m f s) (first : x.First c part) : part = c.item m := by
  refine first.unique commits.exists_first fun _ _ _ list => ?_
  obtain ⟨ms, behind⟩ := commits.behind
  rw [behind] at list
  cases list

/-- The rest of the sequence fails behind the cut, just as the item fails. -/
theorem Commits.ends (commits : x.Commits c m f s) : c.Ends x (.hard f) s := by
  obtain ⟨remaining, depth, job, cx, s₀⟩ := c
  obtain ⟨⟨ms, behind⟩, item, fails⟩ := commits
  cases behind
  exact .items_commit item fails

/-- Behind the item that fails nothing is next. -/
theorem Commits.not_resumes {t : Task} (commits : x.Commits c m f s)
    (ends : (c.within t).Ends x o s₁) : ¬ x.Resumes c.task t o s₁ rest := by
  intro next
  obtain rfl := congrArg Begun.task (commits.first (.opens next.opens))
  obtain ⟨rfl, _⟩ := next.part_unique ends commits.fails
  obtain ⟨remaining, depth, job, cx, s₀⟩ := c
  obtain ⟨⟨ms, behind⟩, _, _⟩ := commits
  cases behind
  cases next

/-- The item that fails leaves the position where it began. -/
theorem Commits.position_eq (commits : x.Commits c m f s) :
    s.position = c.task.state.position := by
  have run : x.Runs _ (.matcher m) _ _ _ _ := commits.fails
  have unmoved : c.task.state.Unmoved s := run.settles (x.callsSettle _ _)
  exact unmoved.position_eq

end Commits

section Histories

variable {before after : List Begun}

/-- How far the failure of an item reaches in a history that has `before` and `after` around the
sequence `c`, behind a cut of which the item fails. -/
inductive Reaches (x : Session) (b c : Begun) (m : Matcher) (f : Failure) (s : State) :
    List Begun → List Begun → Prop
  /-- The item is the last that is tried, and the whole run fails just as the item does. -/
  | whole {before own : List Begun} :
      b.Ends x (.hard f) s → x.History (c.item m) own → Reaches x b c m f s before own
  /-- The item is the last that is tried in an alternative of a choice that recovers, or in the
  attempt of a guard, which fails just as the item does. -/
  | stopped {outer inner own rest : List Begun} {w u : Begun} :
      Stops w u → u.Ends x (.hard f) s → x.History u (inner ++ c :: own) →
      x.History (c.item m) own → Reaches x b c m f s (outer ++ w :: inner) (own ++ rest)

/-- What is stopped within a part of a run is stopped within the run. -/
theorem Reaches.within (reaches : x.Reaches part c m f s before after) (b : Begun)
    (outer rest : List Begun)
    (whole : ∀ own, part.Ends x (.hard f) s → x.History (c.item m) own → after = own →
      x.Reaches b c m f s (outer ++ before) (own ++ rest)) :
    x.Reaches b c m f s (outer ++ before) (after ++ rest) := by
  cases reaches with
  | whole ends own => exact whole _ ends own rfl
  | @stopped outer' _ own _ _ _ stops ends history item =>
    rw [← List.append_assoc outer outer', List.append_assoc own]
    exact .stopped stops ends history item

/-- A place in two histories put together is in the first one or in the second one. -/
theorem split_append {first later : List Begun} (split : first ++ later = before ++ c :: after) :
    (∃ rest, first = before ++ c :: rest ∧ after = rest ++ later) ∨
      ∃ inner, before = first ++ inner ∧ later = inner ++ c :: after := by
  rcases List.append_eq_append_iff.mp split with ⟨inner, rfl, rfl⟩ | ⟨rest, rfl, same⟩
  · exact Or.inr ⟨inner, rfl, rfl⟩
  · cases rest with
    | nil => exact Or.inr ⟨[], by simp, same.symm⟩
    | cons next rest =>
      obtain ⟨rfl, rfl⟩ := List.cons.inj same
      exact Or.inl ⟨rest, rfl, rfl⟩

/-- A failure that the run stops in its first part reaches the end of that part. -/
theorem Stops.reaches {own : List Begun} (stops : Stops b part) (ends : part.Ends x (.hard f) s)
    (history : x.History part (before ++ c :: own)) (item : x.History (c.item m) own)
    (rest : List Begun) : x.Reaches b c m f s (b :: before) (own ++ rest) := by
  rw [← List.nil_append (b :: before)]
  exact .stopped stops ends history item

/-- Wherever in a run an item fails softly behind a cut of its sequence, nothing else is tried up to
where this failure is stopped or the run ends. -/
theorem History.reaches (history : x.History b h) (split : h = before ++ c :: after)
    (commits : x.Commits c m f s) : x.Reaches b c m f s before after := by
  induction history generalizing before after with
  | alone nothing =>
    cases before with
    | nil =>
      obtain ⟨rfl, rfl⟩ := List.cons.inj split
      exact absurd commits.exists_first (nothing _)
    | cons b' before =>
      have none := (List.cons.inj split).2
      cases before <;> cases none
  | @part b part _ _ _ first history ended nothing ih =>
    cases before with
    | nil =>
      obtain ⟨rfl, rfl⟩ := List.cons.inj split
      exact .whole commits.ends (commits.first first ▸ history)
    | cons b' before =>
      obtain ⟨rfl, rfl⟩ := List.cons.inj split
      have reaches := (ih rfl).within b [b] [] fun own ends item same => ?_
      · rwa [List.append_nil] at reaches
      · subst same
        rcases first.ends ends with ends' | stops
        · rw [List.append_nil]
          exact .whole ends' item
        · exact stops.reaches ends history item []
  | @resumed b part rest h₁ h₂ _ _ history ended next later ih ih' =>
    cases before with
    | nil =>
      obtain ⟨rfl, rfl⟩ := List.cons.inj split
      exact absurd next (commits.not_resumes ended)
    | cons b' before =>
      obtain ⟨rfl, tail⟩ := List.cons.inj split
      rcases split_append tail with ⟨after, rfl, rfl⟩ | ⟨inner, rfl, rfl⟩
      · refine (ih rfl).within b [b] h₂ fun own ends item same => ?_
        subst same
        -- something is next behind this part, so the failure is stopped
        obtain ⟨rfl, rfl⟩ := next.part_unique ended ends
        exact next.stops.reaches ends history item h₂
      · have reaches := (ih' rfl).within b (b :: h₁) [] fun own ends item _ => ?_
        · rwa [List.append_nil] at reaches
        · rw [List.append_nil]
          exact .whole (next.ends ended ends) item

/-- A run that fails behind a cut has tried last an item that failed softly behind a cut of its
sequence, just as the run does, or a choice that gave up. -/
theorem History.origin (history : x.History b h) (ends : b.Ends x (.hard f) s) :
    (∃ before c m own, h = before ++ c :: own ∧ x.Commits c m f s ∧ x.History (c.item m) own) ∨
      ∃ before c, h = before ++ [c] ∧ GivesUp c f := by
  -- what is behind other tasks is behind them in the whole history
  have behind {h : List Begun} (outer : List Begun)
      (origin : (∃ before c m own, h = before ++ c :: own ∧ x.Commits c m f s ∧
        x.History (c.item m) own) ∨ ∃ before c, h = before ++ [c] ∧ GivesUp c f) :
      (∃ before c m own, outer ++ h = before ++ c :: own ∧ x.Commits c m f s ∧
        x.History (c.item m) own) ∨ ∃ before c, outer ++ h = before ++ [c] ∧ GivesUp c f := by
    rcases origin with ⟨before, c, m, own, rfl, commits, item⟩ | ⟨before, c, rfl, gives⟩
    · exact Or.inl ⟨outer ++ before, c, m, own, (List.append_assoc ..).symm, commits, item⟩
    · exact Or.inr ⟨outer ++ before, c, (List.append_assoc ..).symm, gives⟩
  induction history with
  | @alone b nothing =>
    rcases exists_hardEnd ends with gives | ⟨part, first, _⟩
    · exact Or.inr ⟨[], b, rfl, gives⟩
    · exact absurd first (nothing part)
  | @part b _ h _ _ first history ended nothing ih =>
    cases first.hardEnd ends with
    | commits commits =>
      exact Or.inl ⟨[], b, _, h, rfl, commits, commits.first first ▸ history⟩
    | part ends => exact behind [b] (ih ends)
    | later ends next =>
      obtain ⟨rfl, rfl⟩ := next.part_unique ends ended
      exact absurd next (nothing _)
  | @resumed b _ _ h₁ _ _ _ history ended next later ih ih' =>
    cases (First.opens next.opens).hardEnd ends with
    | commits commits => exact absurd next (commits.not_resumes ended)
    | part ends nothing =>
      obtain ⟨rfl, rfl⟩ := next.part_unique ended ends
      exact absurd next (nothing _)
    | later ends next' failed =>
      obtain ⟨rfl, rfl⟩ := next.part_unique ended ends
      obtain rfl := next.unique next'
      exact behind (b :: h₁) (ih' failed)

end Histories

section Strict

/-- A choice that does not recover and has not done so, or any other task but attempts of guards. -/
def Plain (t : Task) : Prop :=
  match t.job with
  | .alternatives recovers _ _ committed _ => recovers = false ∧ committed = none
  | .probe _ => False
  | _ => True

/-- Without recovery, the first part of a plain task is plain. -/
theorem First.plain (strict : x.recovery = false) (first : x.First b part)
    (plain : Plain b.task) : Plain part.task := by
  obtain ⟨remaining, depth, t⟩ := b
  cases first with
  | opens opened =>
    cases opened with
    | choice => exact ⟨by rw [strict, Bool.and_false], rfl⟩
    | skip recovers =>
      rw [strict] at recovers
      cases recovers
    | alternatives_passed => exact plain
    | guard => exact plain.elim
    | _ => trivial
  | enters => trivial

/-- What a plain task goes on with is plain. -/
theorem Resumes.plain {t part : Task} (next : x.Resumes t part o s rest) (plain : Plain t) :
    Plain rest := by
  cases next with
  | alternatives_soft => exact plain
  | alternatives_recover => cases plain.1
  | probe => exact plain.elim
  | _ => trivial

/-- Without recovery no choice of the history recovers, and no guard is attempted. -/
theorem History.plain (strict : x.recovery = false) (history : x.History b h)
    (plain : Plain b.task) : ∀ c ∈ h, Plain c.task := by
  induction history with
  | alone => exact List.forall_mem_singleton.mpr plain
  | part first _ _ _ ih => exact List.forall_mem_cons.mpr ⟨plain, ih (first.plain strict plain)⟩
  | resumed _ _ next _ ih ih' =>
    refine List.forall_mem_cons.mpr ⟨plain, fun c among => ?_⟩
    rcases List.mem_append.mp among with among | among
    · exact ih ((First.opens next.opens).plain strict plain) c among
    · exact ih' (next.plain plain) c among

/-- A plain task is not stopped by anything. -/
theorem Plain.not_stops (plain : Plain w.task) : ¬ Stops w u := by
  intro stops
  cases stops with
  | alternative same =>
    rw [Plain, same] at plain
    cases plain.1
  | guard same =>
    rw [Plain, same] at plain
    exact plain

/-- A plain task does not give up. -/
theorem Plain.not_givesUp (plain : Plain c.task) : ¬ GivesUp c f := by
  rintro ⟨recovers, start, best, same⟩
  rw [Plain, same] at plain
  cases plain.2

/-- Without recovery a failure behind a cut reaches the end of the run. -/
theorem History.whole {before after : List Begun} (strict : x.recovery = false)
    (plain : Plain b.task) (history : x.History b h) (split : h = before ++ c :: after)
    (commits : x.Commits c m f s) : b.Ends x (.hard f) s ∧ x.History (c.item m) after := by
  cases history.reaches split commits with
  | whole ends item => exact ⟨ends, item⟩
  | @stopped _ _ _ _ w _ stops =>
    have among : w ∈ h := by simp [split]
    exact absurd stops (history.plain strict plain w among).not_stops

/-- Without recovery a run that fails behind a cut has come to an item that failed so. -/
theorem History.exists_commits (strict : x.recovery = false) (plain : Plain b.task)
    (history : x.History b h) (ends : b.Ends x (.hard f) s) :
    ∃ c ∈ h, ∃ m, x.Commits c m f s := by
  have plain := history.plain strict plain
  rcases history.origin ends with ⟨before, c, m, own, rfl, commits, _⟩ | ⟨before, c, rfl, gives⟩
  · exact ⟨c, List.mem_append_right _ (List.mem_cons_self ..), m, commits⟩
  · have among : c ∈ before ++ [c] := List.mem_append_right _ (List.mem_singleton_self _)
    exact absurd gives (plain c among).not_givesUp

end Strict

end Session

namespace RuleAttempt

/-- The result is a failure behind a cut. -/
def IsCommitted (attempt : RuleAttempt) : Prop :=
  ∃ e, attempt.result = .error e ∧ e.committed = true

/-- The result is the failure, as one behind a cut, and the attempt ends at the position. -/
def FailsAs (attempt : RuleAttempt) (x : Session) (f : Failure) (position : Nat) : Prop :=
  attempt.result = .error ⟨f.position, true, x.describeExpected f⟩ ∧ attempt.position = position

end RuleAttempt

namespace Program

variable {p : Program} {names : Interner} {tokens : TokenStream} {config : ParseConfig}
  {ref : RuleRef} {start : Nat} {attempt : RuleAttempt}

/-- An attempt that is not stopped is the run of its rule. -/
theorem exists_ends_of_attempt
    (ran : p.attempt names tokens config ref start = .ok attempt) :
    ∃ o s, (Begun.ofRule config.maxDepth ref (min start tokens.lastPosition)).Ends
      (p.session names tokens config) o s := by
  simp only [Program.attempt] at ran
  split at ran
  · cases ran
  · next o s called => exact ⟨o, s, .rule called⟩

/-- The result of an attempt whose run fails behind a cut. -/
theorem failsAs_of_ends {f : Failure} {s : State}
    (ran : p.attempt names tokens config ref start = .ok attempt)
    (ends : (Begun.ofRule config.maxDepth ref (min start tokens.lastPosition)).Ends
      (p.session names tokens config) (.hard f) s) :
    attempt.FailsAs (p.session names tokens config) f s.position := by
  simp only [Program.attempt] at ran
  split at ran
  · cases ran
  · next o s' called =>
    obtain ⟨rfl, rfl⟩ := Session.Runs.matcher_unique (.rule called) ends
    obtain rfl := Except.ok.inj ran
    exact ⟨rfl, rfl⟩

/-- The run of a committed attempt fails behind a cut. -/
theorem ends_of_isCommitted (ran : p.attempt names tokens config ref start = .ok attempt)
    (committed : attempt.IsCommitted) :
    ∃ f s, (Begun.ofRule config.maxDepth ref (min start tokens.lastPosition)).Ends
      (p.session names tokens config) (.hard f) s := by
  obtain ⟨e, failed, behind⟩ := committed
  simp only [Program.attempt] at ran
  split at ran
  · cases ran
  · next o s called =>
    obtain rfl := Except.ok.inj ran
    cases o with
    | success values => cases failed
    | soft f =>
      obtain rfl := Except.error.inj failed
      cases behind
    | hard f => exact ⟨f, s, .rule called⟩

/-- A cut commits. Without recovery an attempt is committed exactly when, somewhere in its history,
an item fails softly behind a cut of its sequence; the history ends with that of this item, and the
attempt fails just as the item does, where the item began.

With recovery this holds of the attempt, or else of an alternative of a choice that recovers or of
the attempt of a guard, in which the item is tried: it ends with the item and fails just as the item
does, where the item began. And whatever fails behind a cut has so ended with such an item, or with
a choice that has recovered from the failure and gives up. -/
theorem cut_commits (ran : p.attempt names tokens config ref start = .ok attempt) :
    let x := p.session names tokens config
    let root := Begun.ofRule config.maxDepth ref (min start tokens.lastPosition)
    (∃ h, x.History root h) ∧ ∀ h, x.History root h →
      (config.recovery = false →
        (attempt.IsCommitted ↔ ∃ c ∈ h, ∃ m f s, x.Commits c m f s) ∧
        ∀ before c after m f s, h = before ++ c :: after → x.Commits c m f s →
          x.History (c.item m) after ∧ attempt.FailsAs x f c.task.state.position) ∧
      (∀ before c after m f s, h = before ++ c :: after → x.Commits c m f s →
        (x.History (c.item m) after ∧ attempt.FailsAs x f c.task.state.position) ∨
        ∃ outer w u inner own rest, before = outer ++ w :: inner ∧ after = own ++ rest ∧
          Session.Stops w u ∧ x.History u (inner ++ c :: own) ∧ x.History (c.item m) own ∧
          u.Ends x (.hard f) s ∧ s.position = c.task.state.position) ∧
      ∀ u f s history, x.History u history → u.Ends x (.hard f) s →
        (∃ before c m own, history = before ++ c :: own ∧ x.Commits c m f s ∧
          x.History (c.item m) own) ∨
        ∃ before c, history = before ++ [c] ∧ Session.GivesUp c f := by
  intro x root
  have fails {c m f s} (commits : x.Commits c m f s) (ends : root.Ends x (.hard f) s) :
      attempt.FailsAs x f c.task.state.position :=
    commits.position_eq ▸ failsAs_of_ends ran ends
  obtain ⟨o, s, ends⟩ := exists_ends_of_attempt ran
  refine ⟨Session.exists_history ends, fun h history => ⟨fun strict => ?_, ?_, ?_⟩⟩
  · have plain : Session.Plain root.task := trivial
    have whole : ∀ before c after m f s, h = before ++ c :: after → x.Commits c m f s →
        x.History (c.item m) after ∧ attempt.FailsAs x f c.task.state.position := by
      intro before c after m f s split commits
      obtain ⟨ends, item⟩ := history.whole strict plain split commits
      exact ⟨item, fails commits ends⟩
    refine ⟨⟨fun committed => ?_, ?_⟩, whole⟩
    · obtain ⟨f, s, ends⟩ := ends_of_isCommitted ran committed
      obtain ⟨c, among, m, commits⟩ := history.exists_commits strict plain ends
      exact ⟨c, among, m, f, s, commits⟩
    · rintro ⟨c, among, m, f, s, commits⟩
      obtain ⟨before, after, split⟩ := List.append_of_mem among
      obtain ⟨_, failed, _⟩ := whole before c after m f s split commits
      exact ⟨_, failed, rfl⟩
  · intro before c after m f s split commits
    cases history.reaches split commits with
    | whole ends item => exact Or.inl ⟨item, fails commits ends⟩
    | stopped stops ends inner item =>
      exact Or.inr ⟨_, _, _, _, _, _, rfl, rfl, stops, inner, item, ends, commits.position_eq⟩
  · exact fun _ _ _ _ history ends => history.origin ends

/-- The position at which an attempt of the entry rule without recovery fails behind a cut. -/
def committedAt? (p : Program) (tokens : TokenStream) : Option Nat :=
  match p.attempt .initial tokens ⟨16, false⟩ p.entry 0 with
  | .ok ⟨.error e, position, _⟩ => if e.committed then some position else none
  | _ => none

/-- An attempt that the check reports on was made, and is committed at the position. -/
theorem attempt_of_committedAt? {position : Nat} (h : p.committedAt? tokens = some position) :
    ∃ attempt, p.attempt .initial tokens ⟨16, false⟩ p.entry 0 = .ok attempt ∧
      attempt.IsCommitted ∧ attempt.position = position := by
  unfold committedAt? at h
  split at h
  · next e position' diagnostics ran =>
    split at h
    · next committed =>
      exact ⟨_, ran, ⟨e, rfl, committed⟩, Option.some.inj h⟩
    · cases h
  · cases h

end Program

/-- Behind the cut there is no second token of the right kind: the attempt is committed to the
failure of the token match at its position. -/
theorem cut_commits_letters :
    ∃ g : Grammar, ∃ p names, g.resolve .initial = .ok (p, names) ∧
      ∃ attempt, p.attempt .initial (tokensOf [2, 2]) ⟨16, false⟩ p.entry 0 = .ok attempt ∧
        attempt.position = 1 ∧ ∃ h c m f s,
          (p.session .initial (tokensOf [2, 2]) ⟨16, false⟩).History (.ofRule 16 p.entry 0) h ∧
          c ∈ h ∧ (p.session .initial (tokensOf [2, 2]) ⟨16, false⟩).Commits c m f s ∧
          attempt.FailsAs (p.session .initial (tokensOf [2, 2]) ⟨16, false⟩) f 1 := by
  have passes : Grammar.passes letters []
      [("main", .opt (.seq [.lit "a", .cut, .lit "b"]))]
      (fun p => decide (p.committedAt? (tokensOf [2, 2]) = some 1)) = true := by
    decide +kernel
  obtain ⟨g, p, names, _, _, resolved, held⟩ := Grammar.exists_of_passes passes
  obtain ⟨attempt, ran, committed, position⟩ :=
    Program.attempt_of_committedAt? (of_decide_eq_true held)
  obtain ⟨⟨h, history⟩, all⟩ := Program.cut_commits ran
  obtain ⟨exactly, whole⟩ := (all h history).1 rfl
  obtain ⟨c, among, m, f, s, commits⟩ := exactly.mp committed
  obtain ⟨before, after, split⟩ := List.append_of_mem among
  have fails := (whole before c after m f s split commits).2
  have place : c.task.state.position = 1 := fails.2.symm.trans position
  exact ⟨g, p, names, resolved, attempt, ran, position, h, c, m, f, s, history, among, commits,
    place ▸ fails⟩

/-- A skip in a region that protects a cut with a token match behind it: where the token is of
another kind, the token match fails softly behind the cut. -/
theorem Session.commits_of_guard {x : Session} {ref : RuleRef} {name : String} {type : NodeRef}
    {kind : TokenKind} {maxDepth position : Nat} {h : List Begun} (recovers : x.recovery = true)
    (found : x.program.rule? ref =
      some ⟨name, .protect (.skip type) (.seq [.cut, .token kind none false])⟩)
    (inside : x.atEnd (.initial position) = false)
    (other : (x.tokens.token position).kind ≠ kind)
    (history : x.History (.ofRule (maxDepth + 1) ref position) h) :
    ∃ c ∈ h, ∃ m f s, x.Commits c m f s := by
  obtain ⟨_, body, h₁⟩ := history.first (.enters found rfl) (fun _ _ _ none => nomatch none)
  obtain ⟨_, region, h₂⟩ := body.first (.opens .protect) (fun _ _ _ none => nomatch none)
  obtain ⟨_, skip, h₃⟩ :=
    region.first (.opens (.skip recovers inside)) (fun _ _ _ none => nomatch none)
  obtain ⟨_, guard, h₄⟩ := skip.first (.opens .guard) (fun _ _ _ none => nomatch none)
  obtain ⟨_, items, h₅⟩ := guard.first (.opens .seq) (fun _ _ _ none => nomatch none)
  obtain ⟨_, behind, h₆⟩ :=
    items.first (.opens (.items_cut rfl)) (fun _ _ _ none => nomatch none)
  have among := h₁ _ (h₂ _ (h₃ _ (h₄ _ (h₅ _ (h₆ _ behind.mem_self)))))
  exact ⟨_, among, .token kind none false, _, _, ⟨_, rfl⟩, rfl,
    .token_fails fun matched => other matched.1⟩

/-- The kind of token that the entry rule protects, if it is a skip in a region that protects a cut
with a token match behind it. -/
def Program.guardKind? (p : Program) : Option TokenKind :=
  match p.rule? p.entry with
  | some ⟨_, .protect (.skip _) (.seq [.cut, .token kind none false])⟩ => some kind
  | _ => none

/-- A guard that the check finds is that of the entry, a skip of a region behind a cut. -/
theorem Program.rule_of_guardKind? {p : Program} {kind : TokenKind}
    (h : p.guardKind? = some kind) :
    ∃ name type, p.rule? p.entry =
      some ⟨name, .protect (.skip type) (.seq [.cut, .token kind none false])⟩ := by
  unfold Program.guardKind? at h
  split at h
  · next found =>
    obtain rfl := Option.some.inj h
    exact ⟨_, _, found⟩
  · cases h

/-- Whether no part of the program is a choice. -/
def Program.isChoiceFree (p : Program) : Bool :=
  p.parts.all fun
    | .choice _ => false
    | _ => true

/-- In a program that passes the check, no part is a choice. -/
theorem Program.choice_not_mem_parts {p : Program} (h : p.isChoiceFree = true)
    (alternatives : List Matcher) : .choice alternatives ∉ p.parts := by
  intro among
  cases List.all_eq_true.mp h _ among

/-- Whether an attempt of the entry rule with recovery succeeds. -/
def Program.recovers (p : Program) (tokens : TokenStream) : Bool :=
  match p.attempt .initial tokens ⟨16, true⟩ p.entry 0 with
  | .ok ⟨.ok _, _, _⟩ => true
  | _ => false

/-- An attempt that the check reports on was made, and it succeeded. -/
theorem Program.attempt_of_recovers {p : Program} {tokens : TokenStream}
    (h : p.recovers tokens = true) :
    ∃ attempt values, p.attempt .initial tokens ⟨16, true⟩ p.entry 0 = .ok attempt ∧
      attempt.result = .ok values := by
  unfold recovers at h
  split at h
  · next values _ _ ran => exact ⟨_, values, ran, rfl⟩
  · cases h

/-- A guard that fails behind a cut: there is no choice, but the failure is stopped, the token is
skipped and the attempt succeeds. -/
theorem not_committed_of_guard :
    ∃ g : Grammar, ∃ p names, g.resolve .initial = .ok (p, names) ∧
      (∀ alternatives, .choice alternatives ∉ p.parts) ∧
      ∃ attempt values h c m f s,
        p.attempt .initial (tokensOf [3]) ⟨16, true⟩ p.entry 0 = .ok attempt ∧
        attempt.result = .ok values ∧
        (p.session .initial (tokensOf [3]) ⟨16, true⟩).History (.ofRule 16 p.entry 0) h ∧
        c ∈ h ∧ (p.session .initial (tokensOf [3]) ⟨16, true⟩).Commits c m f s := by
  have passes : Grammar.passes letters [.node "Err" none false true]
      [("main", .protect (.skip "Err") (.seq [.cut, .lit "a"]))]
      (fun p => decide (p.guardKind? = some ⟨2⟩) && p.isChoiceFree && p.recovers (tokensOf [3])) =
        true := by
    decide +kernel
  obtain ⟨g, p, names, _, _, resolved, held⟩ := Grammar.exists_of_passes passes
  simp only [Bool.and_eq_true, decide_eq_true_eq] at held
  obtain ⟨⟨guard, plain⟩, succeeds⟩ := held
  obtain ⟨name, type, found⟩ := Program.rule_of_guardKind? guard
  obtain ⟨attempt, values, ran, result⟩ := Program.attempt_of_recovers succeeds
  obtain ⟨o, s, ends⟩ := Program.exists_ends_of_attempt ran
  obtain ⟨h, history⟩ := Session.exists_history ends
  have history' : (p.session .initial (tokensOf [3]) ⟨16, true⟩).History
    (.ofRule 16 p.entry 0) h := history
  have other : ((tokensOf [3]).token 0).kind ≠ ⟨2⟩ := by decide
  obtain ⟨c, among, m, f, s, commits⟩ :=
    Session.commits_of_guard rfl found rfl other history'
  exact ⟨g, p, names, resolved, Program.choice_not_mem_parts plain, attempt, values, h, c, m, f, s,
    ran, result, history', among, commits⟩

end CombinatorGrammar
