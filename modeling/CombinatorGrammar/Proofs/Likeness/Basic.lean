import CombinatorGrammar.Parse.Run
import CombinatorGrammar.Proofs.Program.Parts
import CombinatorGrammar.Proofs.Run.FailureLog
import Mathlib.Data.List.Forall2

/-!
# Likeness

Two sessions may run one program on tokens that differ in the places where they stand and in the
numbers of their texts. Given how the names and the spans of one session correspond to those of the
other, this module says when tokens, values, diagnostics and states of the two are alike, and that
what is done to a state keeps two states alike. Failures are alike only if they are the same: what
they expect is named by the program.
-/

namespace CombinatorGrammar

/-- How the names and the spans of one session correspond to those of another. -/
structure Likeness where
  name : Name → Name → Prop
  span : Span → Span → Prop

section Likeness

variable (l : Likeness)

/-- The tokens are of one kind, and their texts and places correspond. -/
structure Token.Like (t u : Token) : Prop where
  kind_eq : u.kind = t.kind
  text : l.name t.text u.text
  span : l.span t.span u.span

/-- The values are built alike from tokens that are alike. -/
inductive Value.Like : Value → Value → Prop
  | token {t u : Token} : t.Like l u → Value.Like (.token t) (.token u)
  | node {type : NodeRef} {s s' : Span} {fields fields' : List Value} :
      l.span s s' → List.Forall₂ Value.Like fields fields' →
      Value.Like (.node type s fields) (.node type s' fields')
  | list {items items' : List Value} :
      List.Forall₂ Value.Like items items' → Value.Like (.list items) (.list items')
  | enum {type : EnumRef} {alternative : Nat} {s s' : Span} :
      l.span s s' → Value.Like (.enum type alternative s) (.enum type alternative s')
  | null : Value.Like .null .null
  | absent {type : NodeRef} : Value.Like (.absent type) (.absent type)

/-- The labels make one remark at places that correspond. -/
structure Label.Like (a b : Label) : Prop where
  span : l.span a.span b.span
  message_eq : b.message = a.message
  isPrimary_eq : b.isPrimary = a.isPrimary

/-- The diagnostics differ in the places of their labels at most. -/
structure Diagnostic.Like (d e : Diagnostic) : Prop where
  code_eq : e.code = d.code
  severity_eq : e.severity = d.severity
  message_eq : e.message = d.message
  labels : List.Forall₂ (Label.Like l) d.labels e.labels
  notes_eq : e.notes = d.notes

end Likeness

mutual

/-- Values that are alike are alike where likeness asks for less. -/
theorem Value.Like.imp {l l' : Likeness} (name : ∀ {n n' : Name}, l.name n n' → l'.name n n')
    (span : ∀ {s s' : Span}, l.span s s' → l'.span s s') :
    ∀ (v : Value) {w : Value}, v.Like l w → v.Like l' w
  | .token _, _, .token same => .token ⟨same.kind_eq, name same.text, span same.span⟩
  | .node _ _ fields, _, .node place parts =>
    .node (span place) (Value.Like.forall₂_imp name span fields parts)
  | .list items, _, .list parts => .list (Value.Like.forall₂_imp name span items parts)
  | .enum _ _ _, _, .enum place => .enum (span place)
  | .null, _, .null => .null
  | .absent _, _, .absent => .absent

theorem Value.Like.forall₂_imp {l l' : Likeness}
    (name : ∀ {n n' : Name}, l.name n n' → l'.name n n')
    (span : ∀ {s s' : Span}, l.span s s' → l'.span s s') :
    ∀ (vs : List Value) {ws : List Value},
      List.Forall₂ (Value.Like l) vs ws → List.Forall₂ (Value.Like l') vs ws
  | [], _, .nil => .nil
  | v :: vs, _, .cons first rest =>
    .cons (Value.Like.imp name span v first) (Value.Like.forall₂_imp name span vs rest)

end

/-- Some token match of the program asks for the text. -/
def Program.AsksFor (p : Program) (text : Name) : Prop :=
  ∃ kind keep, .token kind (some text) keep ∈ p.parts

/-- The texts that the failure expects are texts that the program asks for. -/
def Failure.Of (p : Program) (f : Failure) : Prop :=
  ∀ kind text, .token kind (some text) ∈ f.expected → p.AsksFor text

namespace Failure

variable {p : Program} {f g : Failure}

/-- A failure that expects nothing is one of every program. -/
theorem of_plain (position : Nat) : (plain position).Of p := fun _ _ none => nomatch none

/-- A failure at a predicate names no text, so it is one of every program. -/
theorem of_predicate (position : Nat) (ref : PredicateRef) :
    Failure.Of p ⟨position, [.predicate ref]⟩ := by
  intro kind text among
  cases List.mem_singleton.mp among

/-- A failure at a token match of the program is one of the program. -/
theorem of_token {kind : TokenKind} {text : Option Name} {keep : Bool} (position : Nat)
    (part : .token kind text keep ∈ p.parts) :
    Failure.Of p ⟨position, [.token kind text]⟩ := by
  intro kind' text' among
  cases List.mem_singleton.mp among
  exact ⟨_, _, part⟩

/-- What two failures of a program expect together is of the program. -/
theorem Of.merge (first : f.Of p) (second : g.Of p) : (f.merge g).Of p := by
  rw [Failure.merge]
  split
  · exact second
  · split
    · exact fun kind text among => (mem_collect among).elim (first kind text) (second kind text)
    · exact first

/-- The further of two failures of a program is of the program. -/
theorem Of.further (first : f.Of p) (second : g.Of p) : (f.further g).Of p := by
  rw [Failure.further]
  split
  · exact second
  · exact first

end Failure

variable (l : Likeness) (p : Program)

/-- The states are at one position, with diagnostics that are alike and one furthest failure. -/
structure State.Like (s t : State) : Prop where
  position_eq : t.position = s.position
  pending : List.Forall₂ (Diagnostic.Like l) s.pending t.pending
  furthest_eq : t.furthest = s.furthest
  furthest_of : ∀ f ∈ s.furthest, f.Of p

/-- The sessions run one program on tokens that are alike. A text that the program asks for has one
name in both, which corresponds to itself alone, and no predicate tells values apart that are
alike. -/
structure Session.Like (x y : Session) : Prop where
  program_eq : y.program = x.program
  recovery_eq : y.recovery = x.recovery
  lastPosition_eq : y.tokens.lastPosition = x.tokens.lastPosition
  token : ∀ position, (x.tokens.token position).Like l (y.tokens.token position)
  text_eq : ∀ {n n' : Name}, l.name n n' → y.names.text n' = x.names.text n
  asked_text : ∀ {n : Name}, x.program.AsksFor n → y.names.text n = x.names.text n
  asked_iff : ∀ {n m m' : Name}, x.program.AsksFor n → l.name m m' → (m = n ↔ m' = n)
  merge : ∀ {s s' t t' : Span}, l.span s s' → l.span t t' → l.span (s.merge t) (s'.merge t')
  point : ∀ {s s' : Span}, l.span s s' → l.span (.point s.start) (.point s'.start)
  check_eq : ∀ q ∈ x.program.predicates, ∀ {v w : Value}, v.Like l w →
    q.check x.program.schema y.names w = q.check x.program.schema x.names v

variable {l p}

/-- Values that are alike fill a field alike. -/
theorem Value.Like.fitNull {v w : Value} (h : v.Like l w) (kind : FieldKind) :
    (Value.fitNull kind v).Like l (Value.fitNull kind w) := by
  cases h with
  | null =>
    cases kind with
    | node type => exact .absent
    | list kind => exact .list .nil
    | token | enum => exact .null
  | token h => cases kind <;> exact .token h
  | node span fields => cases kind <;> exact .node span fields
  | list items => cases kind <;> exact .list items
  | enum span => cases kind <;> exact .enum span
  | absent => cases kind <;> exact .absent

/-- Values that are alike fill the fields of a node alike. -/
theorem Value.like_zipWith_fitNull {values values' : List Value}
    (h : List.Forall₂ (Value.Like l) values values') (layout : List FieldKind) :
    List.Forall₂ (Value.Like l) (List.zipWith Value.fitNull layout values)
      (List.zipWith Value.fitNull layout values') := by
  induction h generalizing layout with
  | nil => rw [List.zipWith_nil_right]; exact .nil
  | cons first _ ih =>
    cases layout with
    | nil => exact .nil
    | cons kind layout => exact .cons (first.fitNull kind) (ih layout)

/-- One remark about spans that correspond is made alike. -/
theorem Diagnostic.like_atSpan {s s' : Span} (h : l.span s s') (code : Code)
    (message label : String) (notes : List String) :
    Diagnostic.Like l (.atSpan code message s label notes)
      (.atSpan code message s' label notes) :=
  ⟨rfl, rfl, rfl, .cons ⟨h, rfl, rfl⟩ .nil, rfl⟩

namespace State.Like

variable {s t : State}

/-- Sessions that begin at one position begin alike. -/
theorem initial (position : Nat) : State.Like l p (.initial position) (.initial position) :=
  ⟨rfl, .nil, rfl, fun _ none => nomatch none⟩

/-- States that are alike have one mark. -/
theorem mark_eq (h : s.Like l p t) : t.mark = s.mark := by
  rw [State.mark, State.mark, h.position_eq, h.pending.length_eq]

/-- States that are alike go back to one mark alike. -/
theorem rewind (h : s.Like l p t) (m : Mark) : (s.rewind m).Like l p (t.rewind m) := by
  refine ⟨rfl, ?_, h.furthest_eq, h.furthest_of⟩
  rw [State.rewind, State.rewind, ← h.pending.length_eq]
  exact List.forall₂_drop _ h.pending

/-- Reports that are alike keep states alike. -/
theorem report {d e : Diagnostic} (h : s.Like l p t) (same : d.Like l e) :
    (s.report d).Like l p (t.report e) :=
  ⟨h.position_eq, .cons same h.pending, h.furthest_eq, h.furthest_of⟩

/-- One failure of the program is recorded alike. -/
theorem record {f : Failure} (h : s.Like l p t) (of : f.Of p) :
    (s.record f).Like l p (t.record f) := by
  refine ⟨h.position_eq, h.pending, ?_, ?_⟩
  · rw [State.record, State.record, h.furthest_eq]
  · rintro _ ⟨⟩
    cases found : s.furthest with
    | none => exact of
    | some furthest => exact (h.furthest_of furthest found).merge of

/-- Runs that set the furthest failure aside set aside the same one. -/
theorem withoutFurthest (h : s.Like l p t) :
    State.Like l p { s with furthest := none } { t with furthest := none } :=
  ⟨h.position_eq, h.pending, rfl, fun _ none => nomatch none⟩

/-- The furthest failure of before is put back. -/
theorem withFurthest {s₀ t₀ : State} (h : s.Like l p t) (before : s₀.Like l p t₀) :
    State.Like l p { s with furthest := s₀.furthest } { t with furthest := t₀.furthest } :=
  ⟨h.position_eq, h.pending, before.furthest_eq, before.furthest_of⟩

end State.Like

namespace Session.Like

variable {x y : Session} {s t s₁ t₁ : State}

/-- The current tokens of states that are alike are alike. -/
theorem current (h : x.Like l y) (states : s.Like l p t) :
    (x.current s).Like l (y.current t) := by
  rw [Session.current, Session.current, states.position_eq]
  exact h.token s.position

/-- States that are alike are both at the end, or neither is. -/
theorem atEnd_eq (h : x.Like l y) (states : s.Like l p t) : y.atEnd t = x.atEnd s := by
  rw [atEnd, atEnd, (h.current states).kind_eq]

/-- States that are alike advance alike. -/
theorem advance (h : x.Like l y) (states : s.Like l p t) :
    (x.advance s).Like l p (y.advance t) := by
  rw [Session.advance, Session.advance, h.atEnd_eq states]
  split
  · exact states
  · exact ⟨congrArg (· + 1) states.position_eq, states.pending, states.furthest_eq,
      states.furthest_of⟩

/-- The spans between two positions correspond. -/
theorem spanOf (h : x.Like l y) (start stop : Nat) :
    l.span (x.tokens.spanOf start stop) (y.tokens.spanOf start stop) := by
  rw [TokenStream.spanOf, TokenStream.spanOf]
  split
  · exact h.merge (h.token _).span (h.token _).span
  · exact h.point (h.token _).span

/-- The spans since states that are alike correspond. -/
theorem spanSince (h : x.Like l y) (before : s.Like l p t) (behind : s₁.Like l p t₁) :
    l.span (x.spanSince s s₁) (y.spanSince t t₁) := by
  rw [Session.spanSince, Session.spanSince, before.position_eq, behind.position_eq]
  exact h.spanOf _ _

/-- Tokens that are alike are described in one way. -/
theorem describeFound_eq (h : x.Like l y) {a b : Token} (tokens : a.Like l b) :
    y.describeFound b = x.describeFound a := by
  simp only [describeFound, Program.describeFound, h.program_eq, tokens.kind_eq,
    h.text_eq tokens.text]

/-- What a failure of the program expects is described in one way. -/
theorem describeExpected_eq (h : x.Like l y) {f : Failure} (of : f.Of x.program) :
    y.describeExpected f = x.describeExpected f := by
  rw [describeExpected, describeExpected, Failure.describe, Failure.describe]
  refine congrArg List.eraseDups (List.map_congr_left fun e among => ?_)
  rw [h.program_eq]
  cases e with
  | token kind text =>
    change x.program.describeToken y.names kind text = x.program.describeToken x.names kind text
    cases text with
    | none => rfl
    | some text => simp only [Program.describeToken, h.asked_text (of kind text among)]
  | predicate ref => rfl

/-- A failure of the program that is recovered from is reported alike. -/
theorem reportRecovered (h : x.Like l y) {f : Failure} (of : f.Of x.program)
    (states : s.Like l p t) :
    (x.reportRecovered f s).Like l p (y.reportRecovered f t) := by
  have tokens := h.token f.position
  simp only [Session.reportRecovered, h.describeExpected_eq of, h.describeFound_eq tokens]
  exact states.report (Diagnostic.like_atSpan tokens.span ..)

end Session.Like

end CombinatorGrammar
