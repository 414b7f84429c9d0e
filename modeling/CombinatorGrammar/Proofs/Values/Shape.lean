import CombinatorGrammar.Program.Signature
import CombinatorGrammar.Proofs.Schema.Inheritance
import CombinatorGrammar.Tree.Value
import Mathlib.Data.List.Forall2

/-!
# Values of a shape

A shape stands for a set of values, and a null is in all of them. A join stands for at least the
values of both sides, and a shape that fits a kind of field stands for values that such a field
may hold once nulls have been put in the form that it asks for.
-/

namespace CombinatorGrammar

variable {schema : Schema}

/-- The value has the shape. -/
inductive Value.Conforms (schema : Schema) : Shape → Value → Prop
  | token (t : Token) : Conforms schema .token (.token t)
  | node {type sup : NodeRef} {span : Span} {fields : List Value} :
      schema.isSubtype type sup = true → Conforms schema (.node sup) (.node type span fields)
  | absent {type sup : NodeRef} :
      schema.isSubtype type sup = true → Conforms schema (.node sup) (.absent type)
  | enum (type : EnumRef) (alternative : Nat) (span : Span) :
      Conforms schema (.enum type) (.enum type alternative span)
  | list {element : Shape} {items : List Value} :
      (∀ v ∈ items, Conforms schema element v) → Conforms schema (.list element) (.list items)
  | null (shape : Shape) : Conforms schema shape .null
  | any (v : Value) : Conforms schema .any v

namespace Value.Conforms

theorem eq_null {v : Value} (h : v.Conforms schema .null) : v = .null := by
  cases h
  rfl

/-- A node conforms to the supertypes of what it conforms to. -/
theorem of_isSubtype {v : Value} {sub sup : NodeRef} (h : v.Conforms schema (.node sub))
    (derives : schema.isSubtype sub sup = true) : v.Conforms schema (.node sup) := by
  cases h with
  | node below => exact .node (Schema.isSubtype_trans below derives)
  | absent below => exact .absent (Schema.isSubtype_trans below derives)
  | null => exact .null _

end Value.Conforms

/-- The value may stand in a field of the kind: a null only where the field asks for a token or an
enum value, or inside a list. -/
inductive Value.Fits (schema : Schema) : FieldKind → Value → Prop
  | token (t : Token) : Fits schema .token (.token t)
  | token_null : Fits schema .token .null
  | node {type sup : NodeRef} {span : Span} {fields : List Value} :
      schema.isSubtype type sup = true → Fits schema (.node sup) (.node type span fields)
  | absent {type sup : NodeRef} :
      schema.isSubtype type sup = true → Fits schema (.node sup) (.absent type)
  | enum (type : EnumRef) (alternative : Nat) (span : Span) :
      Fits schema (.enum type) (.enum type alternative span)
  | enum_null (type : EnumRef) : Fits schema (.enum type) .null
  | list {kind : FieldKind} {items : List Value} :
      (∀ v ∈ items, v ≠ .null → Fits schema kind v) → Fits schema (.list kind) (.list items)

/-- A value that is null or stands in a field already stands there in the form that it asks for. -/
theorem Value.fits_fitNull {kind : FieldKind} {v : Value} (h : v = .null ∨ v.Fits schema kind) :
    (Value.fitNull kind v).Fits schema kind := by
  rcases h with rfl | fits
  · cases kind with
    | token => exact .token_null
    | node type => exact .absent (Schema.isSubtype_refl schema type)
    | enum type => exact .enum_null type
    | list kind => exact .list (List.forall_mem_nil _)
  · cases fits with
    | token t => exact .token t
    | token_null => exact .token_null
    | node below => exact .node below
    | absent below => exact .absent below
    | enum type alternative span => exact .enum type alternative span
    | enum_null type => exact .enum_null type
    | list items => exact .list items

namespace Shape

/-- Whether something is known of every part of the value. -/
def definite : Shape → Bool
  | any => false
  | list element => element.definite
  | _ => true

/-- Values of either side are values of the join. -/
theorem conforms_join {v : Value} (a b : Shape)
    (h : v.Conforms schema a ∨ v.Conforms schema b) : v.Conforms schema (a.join schema b) := by
  fun_induction join schema a b generalizing v with
  | case1 => exact h.elim id id
  | case2 other =>
    rcases h with h | h
    · rw [h.eq_null]
      exact .null _
    · exact h
  | case3 other =>
    rcases h with h | h
    · exact h
    · rw [h.eq_null]
      exact .null _
  | case4 type => exact h.elim id id
  | case5 a b =>
    cases found : schema.commonAncestor? a b with
    | none => exact .any v
    | some sup =>
      obtain ⟨left, right⟩ := Schema.isSubtype_of_commonAncestor? found
      exact h.elim (·.of_isSubtype left) (·.of_isSubtype right)
  | case6 type => exact h.elim id id
  | case7 => exact .any v
  | case8 a b ih =>
    rcases h with h | h
    · cases h with
      | list items => exact .list fun v among => ih (Or.inl (items v among))
      | null => exact .null _
    · cases h with
      | list items => exact .list fun v among => ih (Or.inr (items v among))
      | null => exact .null _
  | case9 => exact .any v

/-- A value of a definite shape that fits a kind of field may stand in such a field, or is null. -/
theorem fits_sound {shape : Shape} {kind : FieldKind} {v : Value}
    (known : shape.definite = true) (allowed : shape.fits schema kind = true)
    (h : v.Conforms schema shape) : v = .null ∨ v.Fits schema kind := by
  fun_induction fits schema shape kind generalizing v with
  | case1 => cases known
  | case2 => exact Or.inl h.eq_null
  | case3 =>
    cases h with
    | token t => exact Or.inr (.token t)
    | null => exact Or.inl rfl
  | case4 sub sup =>
    cases h with
    | node below => exact Or.inr (.node (Schema.isSubtype_trans below allowed))
    | absent below => exact Or.inr (.absent (Schema.isSubtype_trans below allowed))
    | null => exact Or.inl rfl
  | case5 a b =>
    obtain rfl := eq_of_beq allowed
    cases h with
    | enum _ alternative span => exact Or.inr (.enum a alternative span)
    | null => exact Or.inl rfl
  | case6 element kind ih =>
    cases h with
    | list items =>
      exact Or.inr (.list fun v among other =>
        (ih known allowed (items v among)).resolve_left other)
    | null => exact Or.inl rfl
  | case7 => cases allowed

end Shape

/-- The values have the shapes of the signature, one each. -/
def Signature.Conforms (schema : Schema) (s : Signature) (values : List Value) : Prop :=
  List.Forall₂ (Value.Conforms schema) s values

namespace Signature

variable {s t : Signature} {values more : List Value}

/-- There is one value for each shape. -/
theorem Conforms.length_eq (h : s.Conforms schema values) : values.length = s.length :=
  (List.Forall₂.length_eq h).symm

/-- Values one after the other conform to the shapes one after the other. -/
theorem Conforms.append (h : s.Conforms schema values) (h' : t.Conforms schema more) :
    Signature.Conforms schema (s ++ t) (values ++ more) :=
  List.rel_append h h'

/-- Nulls conform to every signature of their number. -/
theorem Conforms.replicate_null (s : Signature) :
    s.Conforms schema (List.replicate s.length .null) := by
  induction s with
  | nil => exact .nil
  | cons shape s ih => exact .cons (.null shape) ih

/-- Values of either signature are values of the two joined place by place. -/
theorem conforms_zipWith_join (even : s.length = t.length)
    (h : s.Conforms schema values ∨ t.Conforms schema values) :
    Signature.Conforms schema (List.zipWith (Shape.join schema) s t) values := by
  induction values generalizing s t with
  | nil =>
    rcases h with h | h
    · cases h
      exact .nil
    · cases h
      rw [List.zipWith_nil_right]
      exact .nil
  | cons v values ih =>
    match s, t, even with
    | [], [], _ => rcases h with h | h <;> cases h
    | a :: s, b :: t, even =>
      have even : s.length = t.length := Nat.succ.inj even
      rcases h with h | h
      · cases h with
        | cons here rest =>
          exact .cons (Shape.conforms_join a b (Or.inl here)) (ih even (Or.inl rest))
      · cases h with
        | cons here rest =>
          exact .cons (Shape.conforms_join a b (Or.inr here)) (ih even (Or.inr rest))

/-- Values of the first or of any other signature are values of all of them joined. -/
theorem conforms_foldl_join {others : List Signature}
    (even : ∀ t ∈ others, t.length = s.length)
    (h : s.Conforms schema values ∨ ∃ t ∈ others, t.Conforms schema values) :
    Signature.Conforms schema
      (others.foldl (fun joined t => List.zipWith (Shape.join schema) joined t) s) values := by
  induction others generalizing s with
  | nil =>
    rcases h with h | ⟨t, none, _⟩
    · exact h
    · cases none
  | cons t others ih =>
    obtain ⟨here, rest⟩ := List.forall_mem_cons.mp even
    have kept : (List.zipWith (Shape.join schema) s t).length = s.length := by simp [here]
    refine ih (fun u among => (rest u among).trans kept.symm) ?_
    rcases h with h | ⟨u, among, h⟩
    · exact Or.inl (conforms_zipWith_join here.symm (Or.inl h))
    · rcases List.mem_cons.mp among with rfl | later
      · exact Or.inl (conforms_zipWith_join here.symm (Or.inr h))
      · exact Or.inr ⟨u, later, h⟩

/-- Values of any alternative are values of a choice whose known alternatives have one length. -/
theorem conforms_alternatives {known : List (Option Signature)} {joined : Signature}
    (found : alternatives schema known = some joined)
    (even : ∀ t, some t ∈ known → t.length = joined.length) (among : some s ∈ known)
    (h : s.Conforms schema values) : joined.Conforms schema values := by
  have listed : ∀ t, t ∈ known.filterMap id ↔ some t ∈ known := by simp
  rw [alternatives] at found
  split at found
  · cases found
  · next first others same =>
    rw [same] at listed
    have length : joined.length = first.length := (even first ((listed first).mp (by simp))).symm
    obtain rfl := Option.some.inj found
    refine conforms_foldl_join (fun t member => ?_) ?_
    · simpa using (List.mem_filter.mp member).2
    · rcases List.mem_cons.mp ((listed s).mpr among) with rfl | later
      · exact Or.inl h
      · refine Or.inr ⟨s, List.mem_filter.mpr ⟨later, ?_⟩, h⟩
        simpa using (even s among).trans length

/-- Values of any shape of a signature are values of all its shapes joined. -/
theorem conforms_groupElement (h : s.Conforms schema values) :
    ∀ v ∈ values, v.Conforms schema (groupElement schema (some s)) := by
  have onward : ∀ start : Shape, ∀ v, v.Conforms schema start ∨ v ∈ values →
      v.Conforms schema (s.foldl (Shape.join schema) start) := by
    induction h with
    | nil => exact fun start v h => h.elim id (fun none => nomatch none)
    | @cons shape v s values here _ ih =>
      intro start u h
      refine ih _ u ?_
      rcases h with h | among
      · exact Or.inl (Shape.conforms_join _ _ (Or.inl h))
      · rcases List.mem_cons.mp among with rfl | later
        · exact Or.inl (Shape.conforms_join _ _ (Or.inr here))
        · exact Or.inr later
  exact fun v among => onward .null v (Or.inr among)

/-- Values of an element's signature are values of the shape of the list's elements. -/
theorem conforms_listElement (h : s.Conforms schema values) :
    ∀ v ∈ values, v.Conforms schema (listElement (some s)) := by
  intro v among
  unfold listElement
  split
  · next none => cases none
  · next shape one =>
    obtain rfl := Option.some.inj one
    cases h with
    | cons here rest =>
      cases rest
      rwa [List.mem_singleton.mp among]
  · exact .any v

end Signature

end CombinatorGrammar
