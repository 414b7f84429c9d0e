import CombinatorGrammar.Proofs.Derivation.Leaves
import CombinatorGrammar.Proofs.Likeness.Texts
import CombinatorGrammar.Proofs.Recovery.Reports

/-!
# Spans are tight and nested

The span of a node or of an enum value reaches from the start of the first to the end of the last
token that was taken while it was built; if none was, it is the point at which the next one starts.
Over tokens that stand one behind the other, whatever has a span within a node lies inside the span
of the node, and of two values next to each other the first ends before the second starts. Values of
empty extent are left out of account: a node without tokens may stand at a point behind the end of
the node that it belongs to.
-/

namespace CombinatorGrammar

/-- The span in a list, unless it is empty. -/
def Span.extent (s : Span) : List Span := if s.isEmpty then [] else [s]

/-- A span has an extent, itself, unless it is a point. -/
theorem Span.mem_extent {s e : Span} : e ∈ s.extent ↔ e = s ∧ s.start ≠ s.stop := by
  simp only [extent, isEmpty, beq_iff_eq]
  split <;> simp_all

namespace TokenStream

/-- The tokens have spans that are not empty, each behind the one before, and the termination token
is a point behind them all. -/
structure Spaced (s : TokenStream) : Prop where
  nonempty : ∀ t ∈ s.body.toList, t.span.start < t.span.stop
  apart : s.toList.Pairwise fun a b => a.span.stop ≤ b.span.start
  point : s.last.span.start = s.last.span.stop

/-- From the start of the token at one position to the end of the last token before another, or the
point at which the first starts if the second is not behind it. -/
def tightSpan (s : TokenStream) (start stop : Nat) : Span :=
  if start < stop then ⟨(s.token start).span.start, (s.token (stop - 1)).span.stop⟩
  else .point (s.token start).span.start

/-- The span lies among the tokens from one position up to another, of which there are some. -/
def Encloses (s : TokenStream) (start stop : Nat) (e : Span) : Prop :=
  start < stop ∧ (s.token start).span.start ≤ e.start ∧ e.stop ≤ (s.token (stop - 1)).span.stop

/-- Behind the last token there is only the last token again. -/
theorem token_of_le {s : TokenStream} {position : Nat} (beyond : s.lastPosition ≤ position) :
    s.token position = s.last := by
  rw [token, Array.getD_eq_getD_getElem?, Array.getElem?_eq_none beyond, Option.getD_none]

/-- The tight span of one token is its own. -/
theorem tightSpan_succ (s : TokenStream) (position : Nat) :
    s.tightSpan position (position + 1) = (s.token position).span := by
  rw [tightSpan, if_pos (Nat.lt_succ_self position), Nat.add_sub_cancel]

/-- The tight span is empty if there are no tokens, and otherwise it lies among them. -/
theorem encloses_of_mem_extent {s : TokenStream} {i j : Nat} {e : Span}
    (among : e ∈ (s.tightSpan i j).extent) : s.Encloses i j e := by
  obtain ⟨rfl, nonempty⟩ := Span.mem_extent.mp among
  rw [tightSpan] at nonempty ⊢
  split at nonempty
  · next before =>
    rw [if_pos before]
    exact ⟨before, Nat.le_refl _, Nat.le_refl _⟩
  · exact absurd rfl nonempty

/-- What lies among tokens lies inside their tight span. -/
theorem inside_tightSpan {s : TokenStream} {i j : Nat} {e : Span} (inside : s.Encloses i j e) :
    (s.tightSpan i j).start ≤ e.start ∧ e.stop ≤ (s.tightSpan i j).stop := by
  rw [tightSpan, if_pos inside.1]
  exact inside.2

namespace Spaced

variable {s : TokenStream} {i j : Nat}

/-- A token does not end before it starts. -/
theorem start_le_stop (h : s.Spaced) (i : Nat) :
    (s.token i).span.start ≤ (s.token i).span.stop := by
  have among : s.token i ∈ s.toList := List.mem_of_getElem? (s.getElem?_toList_min i)
  rw [toList, List.mem_append, List.mem_singleton] at among
  rcases among with inside | last
  · exact Nat.le_of_lt (h.nonempty _ inside)
  · rw [last]
    exact Nat.le_of_eq h.point

/-- A token ends before every later one starts. -/
theorem stop_le_start (h : s.Spaced) (before : i < j) :
    (s.token i).span.stop ≤ (s.token j).span.start := by
  by_cases inside : i < s.lastPosition
  · obtain ⟨first, same⟩ := List.getElem?_eq_some_iff.mp (s.getElem?_toList_min i)
    obtain ⟨second, same'⟩ := List.getElem?_eq_some_iff.mp (s.getElem?_toList_min j)
    rw [← same, ← same']
    exact List.pairwise_iff_getElem.mp h.apart _ _ first second (by omega)
  -- both are the termination token
  · rw [token_of_le (Nat.le_of_not_lt inside), token_of_le (by omega)]
    exact Nat.le_of_eq h.point.symm

/-- Later tokens start later, or at the same place. -/
theorem start_le_start (h : s.Spaced) (le : i ≤ j) :
    (s.token i).span.start ≤ (s.token j).span.start := by
  rcases Nat.eq_or_lt_of_le le with rfl | before
  · exact Nat.le_refl _
  · exact Nat.le_trans (h.start_le_stop i) (h.stop_le_start before)

/-- Later tokens end later, or at the same place. -/
theorem stop_le_stop (h : s.Spaced) (le : i ≤ j) :
    (s.token i).span.stop ≤ (s.token j).span.stop := by
  rcases Nat.eq_or_lt_of_le le with rfl | before
  · exact Nat.le_refl _
  · exact Nat.le_trans (h.stop_le_start before) (h.start_le_stop j)

/-- Among spaced tokens, the span that a node is given is the tight one. -/
theorem spanOf_eq_tightSpan (h : s.Spaced) (le : i ≤ j) : s.spanOf i j = s.tightSpan i j := by
  rw [spanOf, tightSpan]
  split
  · next before =>
    have behind : i ≤ j - 1 := Nat.le_sub_one_of_lt before
    rw [Span.merge, Nat.min_eq_left (h.start_le_start behind),
      Nat.max_eq_right (h.stop_le_stop behind)]
  · next none => rw [Nat.le_antisymm le (Nat.le_of_not_lt none)]

/-- What lies among some of the tokens lies among more of them. -/
theorem encloses_mono (h : s.Spaced) {i' j' : Nat} {e : Span} (inside : s.Encloses i j e)
    (earlier : i' ≤ i) (later : j ≤ j') : s.Encloses i' j' e := by
  obtain ⟨some, behind, before⟩ := inside
  have first := h.start_le_start earlier
  have last := h.stop_le_stop (Nat.sub_le_sub_right later 1)
  exact ⟨by omega, Nat.le_trans first behind, Nat.le_trans before last⟩

/-- What lies among earlier tokens ends before what lies among later ones starts. -/
theorem stop_le_start_of_encloses (h : s.Spaced) {k : Nat} {e f : Span}
    (first : s.Encloses i j e) (second : s.Encloses j k f) : e.stop ≤ f.start := by
  obtain ⟨some, _, before⟩ := first
  obtain ⟨_, behind, _⟩ := second
  calc e.stop ≤ (s.token (j - 1)).span.stop := before
    _ ≤ (s.token j).span.start := h.stop_le_start (by omega)
    _ ≤ f.start := behind

end Spaced

end TokenStream

namespace Value

mutual

/-- The spans in a value that are not empty: its own and those of the nodes, tokens and enum values
in it at any depth, termination tokens apart. -/
def extents : Value → List Span
  | .token t => if t.kind.isTermination then [] else t.span.extent
  | .node _ span fields => span.extent ++ extentsOf fields
  | .list items => extentsOf items
  | .enum _ _ span => span.extent
  | .null => []
  | .absent _ => []

/-- The spans in several values that are not empty. -/
def extentsOf : List Value → List Span
  | [] => []
  | v :: vs => v.extents ++ extentsOf vs

end

/-- Whatever has a span in one of the values ends before what has one in a later value starts. -/
def InOrder (vs : List Value) : Prop :=
  vs.Pairwise fun a b => ∀ e ∈ a.extents, ∀ f ∈ b.extents, e.stop ≤ f.start

mutual

/-- In every node of the value, at any depth, whatever has a span lies inside the span of the node,
and the fields are in order; so are the items of every list. -/
def Nested : Value → Prop
  | .node _ span fields =>
    (∀ e ∈ extentsOf fields, span.start ≤ e.start ∧ e.stop ≤ span.stop) ∧
      InOrder fields ∧ NestedAll fields
  | .list items => InOrder items ∧ NestedAll items
  | _ => True

/-- Each of the values is nested. -/
def NestedAll : List Value → Prop
  | [] => True
  | v :: vs => v.Nested ∧ NestedAll vs

end

variable {v : Value} {vs : List Value}

/-- The extents of several values are those of each, one after the other. -/
theorem extentsOf_eq_flatten (vs : List Value) : extentsOf vs = (vs.map extents).flatten := by
  induction vs with
  | nil => rfl
  | cons v vs ih => rw [extentsOf, ih, List.map_cons, List.flatten_cons]

/-- An extent of one of several values is an extent of them. -/
theorem mem_extentsOf {e : Span} (among : v ∈ vs) (inside : e ∈ v.extents) : e ∈ extentsOf vs := by
  rw [extentsOf_eq_flatten]
  exact List.mem_flatten_of_mem (List.mem_map_of_mem among) inside

theorem extentsOf_singleton (v : Value) : extentsOf [v] = v.extents := by
  rw [extentsOf, extentsOf, List.append_nil]

/-- The extents of one list of values come before those of the next. -/
theorem extentsOf_append (vs ws : List Value) :
    extentsOf (vs ++ ws) = extentsOf vs ++ extentsOf ws := by
  simp only [extentsOf_eq_flatten, List.map_append, List.flatten_append]

/-- Filling a field adds and loses no extents. -/
theorem extents_fitNull (kind : FieldKind) (v : Value) : (fitNull kind v).extents = v.extents := by
  cases kind <;> cases v <;> rfl

/-- The fields of a node have no extents but those of the values that it is built from. -/
theorem extentsOf_zipWith_fitNull (layout : List FieldKind) (vs : List Value) :
    (extentsOf (List.zipWith fitNull layout vs)).Sublist (extentsOf vs) := by
  rw [extentsOf_eq_flatten, extentsOf_eq_flatten]
  exact (map_zipWith_sublist extents_fitNull layout vs).flatten

/-- One value alone is in order. -/
theorem InOrder.singleton (v : Value) : InOrder [v] := List.pairwise_singleton ..

/-- Filling the fields of a node leaves its values in order. -/
theorem InOrder.zipWith_fitNull (h : InOrder vs) (layout : List FieldKind) :
    InOrder (List.zipWith fitNull layout vs) := by
  have ordered := (List.pairwise_map (f := extents)
    (R := fun es fs => ∀ e ∈ es, ∀ f ∈ fs, e.stop ≤ f.start)).mpr h
  exact List.pairwise_map.mp (ordered.sublist (map_zipWith_sublist extents_fitNull layout vs))

/-- Values are nested if each of them is. -/
theorem nestedAll_iff : NestedAll vs ↔ ∀ v ∈ vs, v.Nested := by
  induction vs with
  | nil => exact iff_of_true trivial (List.forall_mem_nil _)
  | cons v vs ih => rw [NestedAll, ih, List.forall_mem_cons]

/-- Filling a field leaves a value nested. -/
theorem Nested.fitNull (h : v.Nested) (kind : FieldKind) : (Value.fitNull kind v).Nested := by
  unfold Value.fitNull
  split
  · trivial
  · exact ⟨List.Pairwise.nil, trivial⟩
  · exact h

end Value

namespace Sourced

mutual

/-- In the value, at any depth, the nodes and the enum values have the tight spans of the tokens
that were taken for them, and the error nodes the spans of the skipped tokens. -/
def Tight (tokens : TokenStream) : Sourced → Prop
  | node start stop _ span fields =>
    start ≤ stop ∧ span = tokens.tightSpan start stop ∧ TightAll tokens fields
  | enum start stop _ _ span => start ≤ stop ∧ span = tokens.tightSpan start stop
  | skipped position _ span => span = tokens.tightSpan position (position + 1)
  | list items => TightAll tokens items
  | _ => True

/-- Each of the values is tight. -/
def TightAll (tokens : TokenStream) : List Sourced → Prop
  | [] => True
  | v :: vs => v.Tight tokens ∧ TightAll tokens vs

end

variable {tokens : TokenStream} {v : Sourced} {vs : List Sourced}

/-- Values are tight if each of them is. -/
theorem tightAll_iff : TightAll tokens vs ↔ ∀ v ∈ vs, v.Tight tokens := by
  induction vs with
  | nil => exact iff_of_true trivial (List.forall_mem_nil _)
  | cons v vs ih => rw [TightAll, ih, List.forall_mem_cons]

/-- Filling a field leaves a value tight. -/
theorem Tight.fitNull (h : v.Tight tokens) (kind : FieldKind) :
    (Sourced.fitNull kind v).Tight tokens := by
  unfold Sourced.fitNull
  split
  · trivial
  · trivial
  · exact h

end Sourced

open Sourced (valuesOf)

/-- Between two positions, the values have their extents among the tokens there, and they are
tight, nested and in order. -/
structure Neat (tokens : TokenStream) (i j : Nat) (vs : List Sourced) : Prop where
  le : i ≤ j
  enclosed : ∀ e ∈ Value.extentsOf (valuesOf vs), tokens.Encloses i j e
  ordered : Value.InOrder (valuesOf vs)
  nested : ∀ v ∈ valuesOf vs, v.Nested
  tight : ∀ v ∈ vs, v.Tight tokens

namespace Neat

variable {tokens : TokenStream} {i j k : Nat} {v : Sourced} {vs ws : List Sourced}

/-- No values are neat anywhere. -/
theorem nil (le : i ≤ j) : Neat tokens i j [] where
  le := le
  enclosed := List.forall_mem_nil _
  ordered := .nil
  nested := List.forall_mem_nil _
  tight := List.forall_mem_nil _

/-- A single value is neat between two positions if all of it is between them. -/
theorem single (le : i ≤ j) (enclosed : ∀ e ∈ v.value.extents, tokens.Encloses i j e)
    (nested : v.value.Nested) (tight : v.Tight tokens) : Neat tokens i j [v] where
  le := le
  enclosed e among := by
    rw [valuesOf, valuesOf, Value.extentsOf_singleton] at among
    exact enclosed e among
  ordered := Value.InOrder.singleton v.value
  nested := List.forall_mem_singleton.mpr nested
  tight := List.forall_mem_singleton.mpr tight

/-- A value without extent, at a position. -/
theorem point (none : v.value.extents = []) (nested : v.value.Nested) (tight : v.Tight tokens) :
    Neat tokens i i [v] := by
  refine .single (Nat.le_refl i) (fun e among => ?_) nested tight
  rw [none] at among
  cases among

/-- A value whose only extent is that of the token at its position. -/
theorem of_token (nested : v.value.Nested) (tight : v.Tight tokens)
    (only : v.value.extents ⊆ (tokens.token i).span.extent) : Neat tokens i (i + 1) [v] := by
  refine .single (Nat.le_succ i) (fun e among => ?_) nested tight
  have own := only among
  rw [← tokens.tightSpan_succ] at own
  exact TokenStream.encloses_of_mem_extent own

/-- What was taken from earlier tokens stands before what was taken from later ones. -/
theorem append (spaced : tokens.Spaced) (h : Neat tokens i j vs) (h' : Neat tokens j k ws) :
    Neat tokens i k (vs ++ ws) where
  le := Nat.le_trans h.le h'.le
  enclosed e among := by
    rw [Sourced.valuesOf_append, Value.extentsOf_append] at among
    rcases List.mem_append.mp among with first | second
    · exact spaced.encloses_mono (h.enclosed e first) (Nat.le_refl i) h'.le
    · exact spaced.encloses_mono (h'.enclosed e second) h.le (Nat.le_refl k)
  ordered := by
    rw [Sourced.valuesOf_append]
    refine List.pairwise_append.mpr ⟨h.ordered, h'.ordered, ?_⟩
    intro a first b second e inFirst f inSecond
    have before := h.enclosed e (Value.mem_extentsOf first inFirst)
    have behind := h'.enclosed f (Value.mem_extentsOf second inSecond)
    exact spaced.stop_le_start_of_encloses before behind
  nested := by
    rw [Sourced.valuesOf_append]
    exact List.forall_mem_append.mpr ⟨h.nested, h'.nested⟩
  tight := List.forall_mem_append.mpr ⟨h.tight, h'.tight⟩

/-- A list is as neat as its items. -/
theorem list (h : Neat tokens i j vs) : Neat tokens i j [.list vs] :=
  .single h.le h.enclosed ⟨h.ordered, Value.nestedAll_iff.mpr h.nested⟩
    (Sourced.tightAll_iff.mpr h.tight)

/-- What lies among the tokens of a node lies inside the span of the node. -/
theorem node (spaced : tokens.Spaced) (h : Neat tokens i j vs) (type : NodeRef)
    (layout : List FieldKind) :
    Neat tokens i j
      [.node i j type (tokens.spanOf i j) (List.zipWith Sourced.fitNull layout vs)] := by
  have fewer := (Value.extentsOf_zipWith_fitNull layout (valuesOf vs)).subset
  rw [spaced.spanOf_eq_tightSpan h.le]
  refine .single h.le ?_ ?_ ⟨h.le, rfl, Sourced.tightAll_iff.mpr ?_⟩
  · intro e among
    rw [Sourced.value, Sourced.valuesOf_zipWith_fitNull] at among
    rcases List.mem_append.mp among with own | inner
    · exact TokenStream.encloses_of_mem_extent own
    · exact h.enclosed e (fewer inner)
  · rw [Sourced.value, Sourced.valuesOf_zipWith_fitNull]
    refine ⟨fun e among => ?_, h.ordered.zipWith_fitNull layout, Value.nestedAll_iff.mpr ?_⟩
    · exact TokenStream.inside_tightSpan (h.enclosed e (fewer among))
    · exact forall_mem_zipWith (fun kind _ nested => nested.fitNull kind) layout h.nested
  · exact forall_mem_zipWith (fun kind _ tight => tight.fitNull kind) layout h.tight

/-- An enumeration value is neat: its span is that of the tokens it was made of. -/
theorem enum (spaced : tokens.Spaced) (le : i ≤ j) (type : EnumRef) (alternative : Nat) :
    Neat tokens i j [.enum i j type alternative (tokens.spanOf i j)] := by
  rw [spaced.spanOf_eq_tightSpan le]
  exact .single le (fun _ => TokenStream.encloses_of_mem_extent) trivial ⟨le, rfl⟩

end Neat

/-- A matcher that makes a node or an enum value yields one of its type with the given span. -/
def Matcher.Constructs (span : Span) (values : List Value) : Matcher → Prop
  | .node type _ _ => ∃ fields, values = [.node type span fields]
  | .enum type alternative _ => values = [.enum type alternative span]
  | .skip errorType => values = [.node errorType span []]
  | _ => True

namespace Session

variable {x : Session}

/-- However values are put together, they are neat. -/
theorem composes_neat (spaced : x.tokens.Spaced) : x.Composes (Neat x.tokens) where
  nil i := .nil (Nat.le_refl i)
  append first rest := first.append spaced rest
  drop h := .nil h.le
  token i := by
    rw [TokenStream.after]
    split
    · next ends => exact .point (by rw [Sourced.value, Value.extents, if_pos ends]) trivial trivial
    · next inside =>
      refine .of_token trivial trivial ?_
      rw [Sourced.value, Value.extents, if_neg inside]
      exact List.Subset.refl _
  skip i errorType _ := by
    refine .of_token ⟨?_, List.Pairwise.nil, trivial⟩ (x.tokens.tightSpan_succ i).symm ?_
    · intro e among
      cases among
    · rw [Sourced.value, Value.extents, Value.extentsOf, List.append_nil]
      exact List.Subset.refl _
  null i := .point rfl trivial trivial
  absent i type := .point rfl trivial trivial
  list h := h.list
  node type layout h := h.node spaced type layout
  enum type alternative h := .enum spaced h.le type alternative

/-- The values of a derivation are tight, nested and in order. -/
theorem Gives.neat (spaced : x.tokens.Spaced) {m : Matcher} {i j : Nat} {values : List Value}
    (h : x.Gives (.matcher m) i j values) :
    i ≤ j ∧ Value.InOrder values ∧ ∀ v ∈ values, v.Nested := by
  obtain ⟨vs, derived, rfl⟩ := h
  have neat : Neat x.tokens i j vs := derived.composes (composes_neat spaced)
  exact ⟨neat.le, neat.ordered, neat.nested⟩

/-- What a matcher gives is what it constructs at the tight span of the tokens it has matched. -/
theorem Gives.constructs (spaced : x.tokens.Spaced) {m : Matcher} {i j : Nat}
    {values : List Value} (h : x.Gives (.matcher m) i j values) :
    m.Constructs (x.tokens.tightSpan i j) values := by
  have le : i ≤ j := (h.neat spaced).1
  obtain ⟨vs, derived, rfl⟩ := h
  cases derived with
  | node => exact ⟨_, by rw [← spaced.spanOf_eq_tightSpan le]; rfl⟩
  | enum =>
    rw [← spaced.spanOf_eq_tightSpan le]
    rfl
  | skip =>
    rw [x.tokens.tightSpan_succ]
    rfl
  | _ => trivial

/-- The root of values that are in order and nested is nested. -/
theorem nested_rootOf {values : List Value} (ordered : Value.InOrder values)
    (nested : ∀ v ∈ values, v.Nested) : (rootOf values).Nested := by
  unfold rootOf
  split
  · exact List.forall_mem_singleton.mp nested
  · exact ⟨ordered, Value.nestedAll_iff.mpr nested⟩

end Session

/-- Over tokens that stand one behind the other, spans are tight and nested. Whatever node or enum
value is made, in the end kept or not, has the span from the start of the first to the end of the
last token that was taken for it, or else is the point at which the next one starts; and so has
every one of them in what a matcher yields. Whatever has a span within a node lies inside the span
of the node, and ends before what has one in a later value beside it starts. This is true of every
matcher that succeeds, in every context, and of the tree of a parse. -/
theorem Program.spans_tight_nested {p : Program} {names : Interner} {tokens : TokenStream}
    {config : ParseConfig} (spaced : tokens.Spaced) :
    let x := p.session names tokens config
    (∀ remaining depth m (cx : Context) s s' values,
      x.parser (x.call remaining depth) m (cx.scope x (x.call remaining depth)) s =
          .ok (.success values, s') →
        s.position ≤ s'.position ∧
        m.Constructs (tokens.tightSpan s.position s'.position) values ∧
        (∃ vs, x.Derives (.matcher m) s.position s'.position vs ∧ valuesOf vs = values) ∧
        (∀ vs, x.Derives (.matcher m) s.position s'.position vs → ∀ v ∈ vs, v.Tight tokens) ∧
        Value.InOrder values ∧ ∀ v ∈ values, v.Nested) ∧
    ∀ output root, p.parse names tokens config = .ok output → output.root = some root →
      root.Nested := by
  intro x
  refine ⟨fun remaining depth m cx s s' values run => ?_, fun output root ran found => ?_⟩
  · have gives : x.Gives (.matcher m) s.position s'.position values := Session.parser_derives run
    obtain ⟨le, ordered, nested⟩ := gives.neat spaced
    refine ⟨le, gives.constructs spaced, gives, fun vs derived => ?_, ordered, nested⟩
    have neat : Neat tokens _ _ vs := derived.composes (Session.composes_neat spaced)
    exact neat.tight
  · obtain ⟨o, s, called, rfl⟩ := exists_run_of_parse ran
    rcases x.finish_cases o s with ⟨values, rfl, _, answer⟩ | ⟨_, _, answer⟩
    · rw [answer] at found
      obtain rfl := Option.some.inj found
      obtain ⟨_, ordered, nested⟩ := (Session.call_derives called).neat spaced
      exact Session.nested_rootOf ordered nested
    · rw [answer] at found
      cases found

/-- The program of a node with a token, a list of an enum value and two further nodes, the second of
which may be without tokens. -/
def nodeOfAll : Program where
  vocabulary := .initial
  schema := .empty
  rules := #[⟨"main", .node ⟨0⟩ [.token, .list .token, .node ⟨1⟩, .node ⟨2⟩]
    (.seq [.token ⟨1⟩ none true, .group (.enum ⟨0⟩ 0 (.token ⟨2⟩ none false)),
      .node ⟨1⟩ [.token] (.token ⟨1⟩ none true),
      .node ⟨2⟩ [.token] (.opt (.token ⟨1⟩ none true))])⟩]
  signatures := #[]
  predicates := #[]
  entry := ⟨0⟩

theorem spaced_spacedTokens : spacedTokens.Spaced where
  nonempty := by decide
  apart := by decide
  point := rfl

/-- The second inner node took no token, and stands behind the end of the outer one. -/
theorem spans_tight_nested_nodeOfAll :
    spacedTokens.Spaced ∧ ∃ output root,
      nodeOfAll.parse .initial spacedTokens ⟨4, true⟩ = .ok output ∧ output.root = some root ∧
      root = .node ⟨0⟩ ⟨0, 5⟩ [.token ⟨⟨1⟩, .empty, ⟨0, 1⟩⟩, .list [.enum ⟨0⟩ 0 ⟨2, 3⟩],
        .node ⟨1⟩ ⟨4, 5⟩ [.token ⟨⟨1⟩, .empty, ⟨4, 5⟩⟩], .node ⟨2⟩ ⟨6, 6⟩ [.null]] ∧
      root.Nested := by
  have ran : ∃ output, nodeOfAll.parse .initial spacedTokens ⟨4, true⟩ = .ok output ∧
      output.root = some (.node ⟨0⟩ ⟨0, 5⟩ [.token ⟨⟨1⟩, .empty, ⟨0, 1⟩⟩,
        .list [.enum ⟨0⟩ 0 ⟨2, 3⟩], .node ⟨1⟩ ⟨4, 5⟩ [.token ⟨⟨1⟩, .empty, ⟨4, 5⟩⟩],
        .node ⟨2⟩ ⟨6, 6⟩ [.null]]) :=
    ⟨_, rfl, rfl⟩
  obtain ⟨output, ran, found⟩ := ran
  exact ⟨spaced_spacedTokens, output, _, ran, found, rfl,
    (Program.spans_tight_nested spaced_spacedTokens).2 output _ ran found⟩

end CombinatorGrammar
