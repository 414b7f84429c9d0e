import CombinatorGrammar.Parse.Run

/-!
# What a program matches

The meaning of a program without recovery, as a relation between a matcher, a position among the
tokens and a verdict. Nothing is threaded and nothing is undone: a sequence concatenates, a choice
is ordered, a list iterates as long as it gets on. The number in the relation bounds how deeply
rules are nested; a verdict does not depend on it.
-/

namespace CombinatorGrammar

/-- Of three failures it does not matter which two are compared first. -/
theorem Failure.further_assoc (f g h : Failure) :
    (f.further g).further h = f.further (g.further h) := by
  by_cases first : f.position < g.position <;> by_cases second : g.position < h.position
  · simp [Failure.further, first, second, Nat.lt_trans first second]
  · simp [Failure.further, first, second]
  · simp [Failure.further, first, second]
  · have third : ¬ f.position < h.position := by omega
    simp [Failure.further, first, second, third]

/-- How a match ends. -/
inductive Verdict where
  /-- The tokens from the position up to `stop` were matched, with these values. -/
  | success (values : List Value) (stop : Nat)
  /-- There was no match. -/
  | soft (failure : Failure)
  /-- There was no match, and behind a cut: what failed stands at `stop`. -/
  | hard (failure : Failure) (stop : Nat)

namespace Verdict

/-- Whether there was a match. -/
def isSuccess : Verdict → Bool
  | success _ _ => true
  | _ => false

/-- Whether something else may be tried. -/
def isSoft : Verdict → Bool
  | soft _ => true
  | _ => false

/-- The verdict with other values, which may depend on where the match ended. -/
def map (f : List Value → Nat → List Value) : Verdict → Verdict
  | success values stop => success (f values stop) stop
  | other => other

/-- The verdict of a match that some values come before. -/
def prepend (values : List Value) (r : Verdict) : Verdict := r.map fun more _ => values ++ more

/-- Success at the start, with the given values, in place of a soft failure. -/
def orElse (values : List Value) (start : Nat) : Verdict → Verdict
  | soft _ => success values start
  | other => other

/-- Behind a cut, a soft failure is hard. -/
def commit (committed : Bool) (start : Nat) : Verdict → Verdict
  | soft f => if committed then hard f start else soft f
  | other => other

/-- The verdict of a choice with one more alternative in front, which failed softly. -/
def orFurther (f : Failure) : Verdict → Verdict
  | soft g => soft (f.further g)
  | other => other

/-- A soft failure in place of a success whose values are not accepted. -/
def check (accepts : List Value → Bool) (f : Failure) : Verdict → Verdict
  | success values stop => if accepts values then success values stop else soft f
  | other => other

/-- Where a match ended. -/
def stop? : Verdict → Option Nat
  | success _ stop => some stop
  | _ => none

/-- Whether a list stops at the verdict: its element failed softly or consumed nothing. -/
def stops (start : Nat) : Verdict → Bool
  | success _ stop => !decide (start < stop)
  | soft _ => true
  | hard _ _ => false

/-- Why a list has no element, if its first element ended so. -/
def lack (start : Nat) : Verdict → Failure
  | soft f => f
  | _ => .plain start

/-- The verdict of a list whose first element stopped it. -/
def ofNone (repetition : Repetition) (start : Nat) (r : Verdict) : Verdict :=
  match repetition with
  | .oneOrMore => soft (r.lack start)
  | .zeroOrMore => success [.list []] start

/-- A mapped verdict succeeds only if the verdict does. -/
theorem exists_of_map {f : List Value → Nat → List Value} {r : Verdict}
    {values : List Value} {stop : Nat} (h : r.map f = .success values stop) :
    ∃ more, r = .success more stop ∧ values = f more stop := by
  cases r with
  | success more j =>
    cases h
    exact ⟨more, rfl, rfl⟩
  | soft g | hard g j => cases h

/-- What maps successes leaves failures as they are. -/
theorem map_of_fails {r : Verdict} (f : List Value → Nat → List Value)
    (fails : r.isSuccess = false) : r.map f = r := by
  cases r with
  | success values stop => cases fails
  | soft f | hard f stop => rfl

/-- What checks successes leaves failures as they are. -/
theorem check_of_fails {r : Verdict} (accepts : List Value → Bool) (f : Failure)
    (fails : r.isSuccess = false) : r.check accepts f = r := by
  cases r with
  | success values stop => cases fails
  | soft f | hard f stop => rfl

/-- Of two failures known before, the further one is what counts. -/
theorem orFurther_orFurther (f g : Failure) (r : Verdict) :
    (r.orFurther g).orFurther f = r.orFurther (f.further g) := by
  cases r with
  | soft h => exact congrArg soft (Failure.further_assoc f g h).symm
  | success values stop | hard h stop => rfl

@[simp] theorem stop?_map (f : List Value → Nat → List Value) (r : Verdict) :
    (r.map f).stop? = r.stop? := by
  cases r <;> rfl

@[simp] theorem stop?_prepend (values : List Value) (r : Verdict) :
    (r.prepend values).stop? = r.stop? :=
  stop?_map _ r

/-- An optional stops where its operand does, or where it began. -/
@[simp] theorem stop?_orElse (values : List Value) (start : Nat) (r : Verdict) :
    (r.orElse values start).stop? = if r.isSoft then some start else r.stop? := by
  cases r <;> rfl

/-- To commit does not change where a verdict stops. -/
@[simp] theorem stop?_commit (committed : Bool) (start : Nat) (r : Verdict) :
    (r.commit committed start).stop? = r.stop? := by
  cases r <;> cases committed <;> rfl

@[simp] theorem stop?_orFurther (f : Failure) (r : Verdict) : (r.orFurther f).stop? = r.stop? := by
  cases r <;> rfl

/-- A check stops nowhere but where its operand does. -/
theorem stop?_check (accepts : List Value → Bool) (f : Failure) (r : Verdict) :
    ∀ stop ∈ (r.check accepts f).stop?, stop ∈ r.stop? := by
  intro stop among
  cases r with
  | success values j =>
    rw [check] at among
    split at among
    · exact among
    · cases among
  | soft g | hard g j => exact among

/-- A list without elements stops where it began. -/
theorem stop?_ofNone (repetition : Repetition) (start : Nat) (r : Verdict) :
    ∀ stop ∈ (ofNone repetition start r).stop?, stop = start := by
  cases repetition with
  | oneOrMore => exact fun _ none => nomatch none
  | zeroOrMore => exact fun _ among => (Option.some.inj among).symm

end Verdict

/-- What is matched. -/
inductive Form where
  | matcher (m : Matcher)
  /-- The remaining items of a sequence, behind one of its own cuts or not. -/
  | items (committed : Bool) (ms : List Matcher)
  /-- The remaining alternatives of a choice, of which there is one. -/
  | alternatives (ms : List Matcher)
  /-- A list, with or without separators. -/
  | iterations (repetition : Repetition) (element : Matcher) (separator : Option Matcher)
  /-- An iteration of a list but the first. -/
  | next (element : Matcher) (separator : Option Matcher)
  /-- All iterations of a list but the first. -/
  | rest (element : Matcher) (separator : Option Matcher)

/-- The position behind a token; the termination token is never passed. -/
def TokenStream.after (tokens : TokenStream) (position : Nat) : Nat :=
  if (tokens.token position).kind.isTermination then position else position + 1

namespace Program

/-- Whether values satisfy a predicate: the first of them does. -/
def accepts (p : Program) (names : Interner) (ref : PredicateRef) (values : List Value) : Bool :=
  (p.predicate? ref).any fun q => values.head?.any fun value => q.check p.schema names value

/-- `p.Matches names tokens n form i r`: with rules nested at most `n` deep, the form has the
verdict `r` at the position `i`. -/
inductive Matches (p : Program) (names : Interner) (tokens : TokenStream) :
    Nat → Form → Nat → Verdict → Prop
  | token {n i : Nat} {kind : TokenKind} {text : Option Name} {keep : Bool} :
      (tokens.token i).kind = kind ∧ text.all (· = (tokens.token i).text) →
      Matches p names tokens n (.matcher (.token kind text keep)) i
        (.success (if keep then [.token (tokens.token i)] else []) (tokens.after i))
  | token_fails {n i : Nat} {kind : TokenKind} {text : Option Name} {keep : Bool} :
      ¬ ((tokens.token i).kind = kind ∧ text.all (· = (tokens.token i).text)) →
      Matches p names tokens n (.matcher (.token kind text keep)) i (.soft ⟨i, [.token kind text]⟩)
  | rule {n i : Nat} {ref : RuleRef} {rule : Rule} {r : Verdict} :
      p.rule? ref = some rule → Matches p names tokens n (.matcher rule.body) i r →
      Matches p names tokens (n + 1) (.matcher (.rule ref)) i r
  | rule_missing {n i : Nat} {ref : RuleRef} :
      p.rule? ref = none →
      Matches p names tokens (n + 1) (.matcher (.rule ref)) i (.soft (.plain i))
  | seq {n i : Nat} {items : List Matcher} {r : Verdict} :
      Matches p names tokens n (.items false items) i r →
      Matches p names tokens n (.matcher (.seq items)) i r
  | choice {n i : Nat} {alternatives : List Matcher} {r : Verdict} :
      Matches p names tokens n (.alternatives alternatives) i r →
      Matches p names tokens n (.matcher (.choice alternatives)) i r
  | choice_empty {n i : Nat} :
      Matches p names tokens n (.matcher (.choice [])) i (.soft (.plain i))
  | opt {n i : Nat} {m : Matcher} {r : Verdict} :
      Matches p names tokens n (.matcher m) i r →
      Matches p names tokens n (.matcher (.opt m)) i
        (r.orElse (List.replicate (p.arity m) .null) i)
  | group {n i : Nat} {m : Matcher} {r : Verdict} :
      Matches p names tokens n (.matcher m) i r →
      Matches p names tokens n (.matcher (.group m)) i
        ((r.map fun values _ => [.list values]).orElse [.list []] i)
  | list {n i : Nat} {repetition : Repetition} {element : Matcher} {r : Verdict} :
      Matches p names tokens n (.iterations repetition element none) i r →
      Matches p names tokens n (.matcher (.list repetition element)) i r
  | sepList {n i : Nat} {repetition : Repetition} {element separator : Matcher} {r : Verdict} :
      Matches p names tokens n (.iterations repetition element (some separator)) i r →
      Matches p names tokens n (.matcher (.sepList repetition element separator)) i r
  | cut {n i : Nat} : Matches p names tokens n (.matcher .cut) i (.success [] i)
  | predicate {n i : Nat} {ref : PredicateRef} {m : Matcher} {r : Verdict} :
      Matches p names tokens n (.matcher m) i r →
      Matches p names tokens n (.matcher (.predicate ref m)) i
        (r.check (p.accepts names ref) ⟨i, [.predicate ref]⟩)
  | skip {n i : Nat} {errorType : NodeRef} :
      Matches p names tokens n (.matcher (.skip errorType)) i (.soft (.plain i))
  | protect {n i : Nat} {m guard : Matcher} {r : Verdict} :
      Matches p names tokens n (.matcher m) i r →
      Matches p names tokens n (.matcher (.protect m guard)) i r
  | null {n i : Nat} {type : NodeRef} :
      Matches p names tokens n (.matcher (.null type)) i (.success [.absent type] i)
  | node {n i : Nat} {type : NodeRef} {layout : List FieldKind} {m : Matcher} {r : Verdict} :
      Matches p names tokens n (.matcher m) i r →
      Matches p names tokens n (.matcher (.node type layout m)) i (r.map fun values stop =>
        [.node type (tokens.spanOf i stop) (List.zipWith Value.fitNull layout values)])
  | enum {n i : Nat} {type : EnumRef} {alternative : Nat} {m : Matcher} {r : Verdict} :
      Matches p names tokens n (.matcher m) i r →
      Matches p names tokens n (.matcher (.enum type alternative m)) i
        (r.map fun _ stop => [.enum type alternative (tokens.spanOf i stop)])
  -- the items of a sequence
  | items_nil {n i : Nat} {committed : Bool} :
      Matches p names tokens n (.items committed []) i (.success [] i)
  | items_cut {n i : Nat} {committed : Bool} {m : Matcher} {ms : List Matcher} {r : Verdict} :
      m.isCut = true → Matches p names tokens n (.items true ms) i r →
      Matches p names tokens n (.items committed (m :: ms)) i r
  | items_next {n i j : Nat} {committed : Bool} {m : Matcher} {ms : List Matcher}
      {values : List Value} {r : Verdict} :
      m.isCut = false → Matches p names tokens n (.matcher m) i (.success values j) →
      Matches p names tokens n (.items committed ms) j r →
      Matches p names tokens n (.items committed (m :: ms)) i (r.prepend values)
  | items_fail {n i : Nat} {committed : Bool} {m : Matcher} {ms : List Matcher} {r : Verdict} :
      m.isCut = false → Matches p names tokens n (.matcher m) i r → r.isSuccess = false →
      Matches p names tokens n (.items committed (m :: ms)) i (r.commit committed i)
  -- the alternatives of a choice
  | alternatives_decide {n i : Nat} {m : Matcher} {ms : List Matcher} {r : Verdict} :
      Matches p names tokens n (.matcher m) i r → r.isSoft = false →
      Matches p names tokens n (.alternatives (m :: ms)) i r
  | alternatives_last {n i : Nat} {m : Matcher} {f : Failure} :
      Matches p names tokens n (.matcher m) i (.soft f) →
      Matches p names tokens n (.alternatives [m]) i (.soft f)
  | alternatives_next {n i : Nat} {m : Matcher} {ms : List Matcher} {f : Failure} {r : Verdict} :
      Matches p names tokens n (.matcher m) i (.soft f) →
      Matches p names tokens n (.alternatives ms) i r →
      Matches p names tokens n (.alternatives (m :: ms)) i (r.orFurther f)
  -- the iterations of a list
  | iterations_none {n i : Nat} {repetition : Repetition} {element : Matcher}
      {separator : Option Matcher} {r : Verdict} :
      Matches p names tokens n (.matcher element) i r → r.stops i = true →
      Matches p names tokens n (.iterations repetition element separator) i
        (.ofNone repetition i r)
  | iterations_some {n i j : Nat} {repetition : Repetition} {element : Matcher}
      {separator : Option Matcher} {values : List Value} {r : Verdict} :
      Matches p names tokens n (.matcher element) i (.success values j) → i < j →
      Matches p names tokens n (.rest element separator) j r →
      Matches p names tokens n (.iterations repetition element separator) i
        ((r.prepend values).map fun items _ => [.list items])
  | iterations_hard {n i stop : Nat} {repetition : Repetition} {element : Matcher}
      {separator : Option Matcher} {f : Failure} :
      Matches p names tokens n (.matcher element) i (.hard f stop) →
      Matches p names tokens n (.iterations repetition element separator) i (.hard f stop)
  | next_unseparated {n i : Nat} {element : Matcher} {r : Verdict} :
      Matches p names tokens n (.matcher element) i r →
      Matches p names tokens n (.next element none) i r
  | next_separated {n i j : Nat} {element separator : Matcher} {values : List Value}
      {r : Verdict} :
      Matches p names tokens n (.matcher separator) i (.success values j) →
      Matches p names tokens n (.matcher element) j r →
      Matches p names tokens n (.next element (some separator)) i r
  | next_fails {n i : Nat} {element separator : Matcher} {r : Verdict} :
      Matches p names tokens n (.matcher separator) i r → r.isSuccess = false →
      Matches p names tokens n (.next element (some separator)) i r
  | rest_none {n i : Nat} {element : Matcher} {separator : Option Matcher} {r : Verdict} :
      Matches p names tokens n (.next element separator) i r → r.stops i = true →
      Matches p names tokens n (.rest element separator) i (.success [] i)
  | rest_some {n i j : Nat} {element : Matcher} {separator : Option Matcher}
      {values : List Value} {r : Verdict} :
      Matches p names tokens n (.next element separator) i (.success values j) → i < j →
      Matches p names tokens n (.rest element separator) j r →
      Matches p names tokens n (.rest element separator) i (r.prepend values)
  | rest_hard {n i stop : Nat} {element : Matcher} {separator : Option Matcher} {f : Failure} :
      Matches p names tokens n (.next element separator) i (.hard f stop) →
      Matches p names tokens n (.rest element separator) i (.hard f stop)

namespace Matches

variable {p : Program} {names : Interner} {tokens : TokenStream} {n k i : Nat} {form : Form}
  {r r' : Verdict}

/-- Deeper nesting allows for all that shallower nesting does. -/
theorem mono (h : p.Matches names tokens n form i r) (le : n ≤ k) :
    p.Matches names tokens k form i r := by
  induction h generalizing k with
  | rule found _ ih =>
    obtain ⟨k, rfl⟩ : ∃ k', k = k' + 1 := ⟨k - 1, by omega⟩
    exact .rule found (ih (by omega))
  | rule_missing missing =>
    obtain ⟨k, rfl⟩ : ∃ k', k = k' + 1 := ⟨k - 1, by omega⟩
    exact .rule_missing missing
  | token matched => exact .token matched
  | token_fails mismatched => exact .token_fails mismatched
  | seq _ ih => exact .seq (ih le)
  | choice _ ih => exact .choice (ih le)
  | choice_empty => exact .choice_empty
  | opt _ ih => exact .opt (ih le)
  | group _ ih => exact .group (ih le)
  | list _ ih => exact .list (ih le)
  | sepList _ ih => exact .sepList (ih le)
  | cut => exact .cut
  | predicate _ ih => exact .predicate (ih le)
  | skip => exact .skip
  | protect _ ih => exact .protect (ih le)
  | null => exact .null
  | node _ ih => exact .node (ih le)
  | enum _ ih => exact .enum (ih le)
  | items_nil => exact .items_nil
  | items_cut cut _ ih => exact .items_cut cut (ih le)
  | items_next cut _ _ ihm ihms => exact .items_next cut (ihm le) (ihms le)
  | items_fail cut _ fails ih => exact .items_fail cut (ih le) fails
  | alternatives_decide _ decides ih => exact .alternatives_decide (ih le) decides
  | alternatives_last _ ih => exact .alternatives_last (ih le)
  | alternatives_next _ _ ihm ihms => exact .alternatives_next (ihm le) (ihms le)
  | iterations_none _ stops ih => exact .iterations_none (ih le) stops
  | iterations_some _ moves _ ihe ihr => exact .iterations_some (ihe le) moves (ihr le)
  | iterations_hard _ ih => exact .iterations_hard (ih le)
  | next_unseparated _ ih => exact .next_unseparated (ih le)
  | next_separated _ _ ihs ihe => exact .next_separated (ihs le) (ihe le)
  | next_fails _ fails ih => exact .next_fails (ih le) fails
  | rest_none _ stops ih => exact .rest_none (ih le) stops
  | rest_some _ moves _ ihn ihr => exact .rest_some (ihn le) moves (ihr le)
  | rest_hard _ ih => exact .rest_hard (ih le)

/-- A form has one verdict at a position. -/
theorem unique (h : p.Matches names tokens n form i r) (h' : p.Matches names tokens k form i r') :
    r = r' := by
  induction h generalizing k r' with
  | token matched =>
    cases h' with
    | token => rfl
    | token_fails mismatched => exact absurd matched mismatched
  | token_fails mismatched =>
    cases h' with
    | token matched => exact absurd matched mismatched
    | token_fails => rfl
  | rule found _ ih =>
    cases h' with
    | rule found' h' =>
      obtain rfl := Option.some.inj (found.symm.trans found')
      exact ih h'
    | rule_missing missing => rw [missing] at found; cases found
  | rule_missing missing =>
    cases h' with
    | rule found _ => rw [missing] at found; cases found
    | rule_missing => rfl
  | seq _ ih => cases h' with | seq h' => exact ih h'
  | choice h ih =>
    cases h' with
    | choice h' => exact ih h'
    | choice_empty => cases h
  | choice_empty =>
    cases h' with
    | choice h' => cases h'
    | choice_empty => rfl
  | opt _ ih => cases h' with | opt h' => rw [ih h']
  | group _ ih => cases h' with | group h' => rw [ih h']
  | list _ ih => cases h' with | list h' => exact ih h'
  | sepList _ ih => cases h' with | sepList h' => exact ih h'
  | cut => cases h'; rfl
  | predicate _ ih => cases h' with | predicate h' => rw [ih h']
  | skip => cases h'; rfl
  | protect _ ih => cases h' with | protect h' => exact ih h'
  | null => cases h'; rfl
  | node _ ih => cases h' with | node h' => rw [ih h']
  | enum _ ih => cases h' with | enum h' => rw [ih h']
  | items_nil => cases h'; rfl
  | items_cut cut _ ih =>
    cases h' with
    | items_cut _ h' => exact ih h'
    | items_next other | items_fail other => rw [cut] at other; cases other
  | items_next cut _ _ ihm ihms =>
    cases h' with
    | items_cut other => rw [cut] at other; cases other
    | items_next _ hm hms =>
      cases ihm hm
      rw [ihms hms]
    | items_fail _ hm fails => cases ihm hm; cases fails
  | items_fail cut _ fails ih =>
    cases h' with
    | items_cut other => rw [cut] at other; cases other
    | items_next _ hm _ => cases ih hm; cases fails
    | items_fail _ hm _ => rw [ih hm]
  | alternatives_decide _ decides ih =>
    cases h' with
    | alternatives_decide hm _ => exact ih hm
    | alternatives_last hm => exact ih hm
    | alternatives_next hm _ => cases ih hm; cases decides
  | alternatives_last _ ih =>
    cases h' with
    | alternatives_decide hm _ => exact ih hm
    | alternatives_last hm => exact ih hm
    | alternatives_next _ hms => cases hms
  | alternatives_next _ h ihm ihms =>
    cases h' with
    | alternatives_decide hm decides => cases ihm hm; cases decides
    | alternatives_last _ => cases h
    | alternatives_next hm hms =>
      cases ihm hm
      rw [ihms hms]
  | iterations_none _ stops ih =>
    cases h' with
    | iterations_none h' _ => rw [ih h']
    | iterations_some h' moves _ => cases ih h'; simp [Verdict.stops, moves] at stops
    | iterations_hard h' => cases ih h'; cases stops
  | iterations_some _ moves _ ihe ihr =>
    cases h' with
    | iterations_none h' stops => cases ihe h'; simp [Verdict.stops, moves] at stops
    | iterations_some h' _ hr =>
      cases ihe h'
      rw [ihr hr]
    | iterations_hard h' => cases ihe h'
  | iterations_hard _ ih =>
    cases h' with
    | iterations_none h' stops => cases ih h'; cases stops
    | iterations_some h' _ _ => cases ih h'
    | iterations_hard h' => exact ih h'
  | next_unseparated _ ih => cases h' with | next_unseparated h' => exact ih h'
  | next_separated _ _ ihs ihe =>
    cases h' with
    | next_separated hs he =>
      cases ihs hs
      exact ihe he
    | next_fails hs fails => cases ihs hs; cases fails
  | next_fails _ fails ih =>
    cases h' with
    | next_separated hs _ => cases ih hs; cases fails
    | next_fails hs _ => exact ih hs
  | rest_none _ stops ih =>
    cases h' with
    | rest_none _ _ => rfl
    | rest_some h' moves _ => cases ih h'; simp [Verdict.stops, moves] at stops
    | rest_hard h' => cases ih h'; cases stops
  | rest_some _ moves _ ihn ihr =>
    cases h' with
    | rest_none h' stops => cases ihn h'; simp [Verdict.stops, moves] at stops
    | rest_some h' _ hr =>
      cases ihn h'
      rw [ihr hr]
    | rest_hard h' => cases ihn h'
  | rest_hard _ ih =>
    cases h' with
    | rest_none h' stops => cases ih h'; cases stops
    | rest_some h' _ _ => cases ih h'
    | rest_hard h' => exact ih h'

/-- A match ends among the tokens, if it begins there. -/
theorem stop_le (h : p.Matches names tokens n form i r) :
    ∀ stop ∈ r.stop?, stop ≤ max i tokens.lastPosition := by
  induction h with
  | @token _ i =>
    rintro stop ⟨⟩
    unfold TokenStream.after
    split
    · exact Nat.le_max_left _ _
    · next inside =>
      rw [TokenStream.isTermination_token] at inside
      omega
  | opt _ ih | group _ ih =>
    intro stop among
    simp only [Verdict.stop?_orElse, Verdict.stop?_map] at among
    split at among
    · cases among
      exact Nat.le_max_left _ _
    · exact ih stop among
  | cut | null | items_nil | rest_none =>
    rintro stop ⟨⟩
    exact Nat.le_max_left _ _
  | predicate _ ih => exact fun stop among => ih stop (Verdict.stop?_check _ _ _ stop among)
  | items_next _ _ _ ihm ihms | rest_some _ _ _ ihm ihms | iterations_some _ _ _ ihm ihms =>
    intro stop among
    have first := ihm _ rfl
    have later := ihms stop (by simpa using among)
    omega
  | items_fail _ _ _ ih => exact fun stop among => ih stop (by simpa using among)
  | alternatives_next _ _ _ ih | node _ ih | enum _ ih =>
    exact fun stop among => ih stop (by simpa using among)
  | iterations_none =>
    intro stop among
    rw [Verdict.stop?_ofNone _ _ _ stop among]
    exact Nat.le_max_left _ _
  | next_separated _ _ ihs ihe =>
    intro stop among
    have first := ihs _ rfl
    have later := ihe stop among
    omega
  | rule _ _ ih | seq _ ih | choice _ ih | list _ ih | sepList _ ih | protect _ ih
  | items_cut _ _ ih | alternatives_decide _ _ ih | next_unseparated _ ih | next_fails _ _ ih =>
    exact ih
  | token_fails | rule_missing | choice_empty | skip | alternatives_last | iterations_hard
  | rest_hard => exact fun _ none => nomatch none

end Matches

end Program

end CombinatorGrammar
