import CombinatorGrammar.Program.Listing
import CombinatorGrammar.Proofs.Program.Parts

/-!
# Reading listings back

In a listing the operands of a matcher come before its own instruction. So the listing can be read
from its beginning with a stack of matchers: each instruction takes its operands from the stack and
puts its matcher there. Nothing is lost in a listing: reading it back gives the matchers that were
listed, so matchers with one listing are the same.
-/

namespace CombinatorGrammar

namespace Instruction

/-- The number of operands of the instruction. -/
def operandCount : Instruction → Nat
  | seq items => items.length
  | choice alternatives _ => alternatives.length
  | opt _ | group _ | list _ _ none | predicate _ _ | node _ _ _ | enum _ _ _ => 1
  | list _ _ (some _) | protect _ _ => 2
  | _ => 0

/-- The matcher of the instruction with the given operands. -/
def matcher : Instruction → List Matcher → Matcher
  | token kind text keep, _ => .token kind text keep
  | rule ref, _ => .rule ref
  | seq _, items => .seq items
  | choice _ _, alternatives => .choice alternatives
  | opt _, [m] => .opt m
  | group _, [m] => .group m
  | list repetition _ _, [element] => .list repetition element
  | list repetition _ _, [element, separator] => .sepList repetition element separator
  | predicate ref _, [m] => .predicate ref m
  | skip errorType, _ => .skip errorType
  | protect _ _, [m, guard] => .protect m guard
  | null type, _ => .null type
  | node type layout _, [m] => .node type layout m
  | enum type alternative _, [m] => .enum type alternative m
  | _, _ => .cut

/-- Take the operands of the instruction from the stack, the last one first, and put its matcher
there. -/
def push (stack : List Matcher) (i : Instruction) : List Matcher :=
  i.matcher (stack.take i.operandCount).reverse :: stack.drop i.operandCount

/-- The stack after reading instructions in turn. -/
def readAll (instructions : List Instruction) (stack : List Matcher) : List Matcher :=
  instructions.foldl push stack

/-- Instructions are read one after the other. -/
theorem readAll_append (first second : List Instruction) (stack : List Matcher) :
    readAll (first ++ second) stack = readAll second (readAll first stack) :=
  List.foldl_append

end Instruction

namespace Matcher

/-- The instruction of a matcher whose operands are listed from `base` on. -/
def instruction (base : Nat) : Matcher → Instruction
  | token kind text keep => .token kind text keep
  | rule ref => .rule ref
  | seq items => .seq (handles base items)
  | choice alternatives => .choice (handles base alternatives) (recovers alternatives)
  | opt m => .opt (m.handle base)
  | group m => .group (m.handle base)
  | list repetition element => .list repetition (element.handle base) none
  | sepList repetition element separator =>
    .list repetition (element.handle base) (some (separator.handle (base + element.size)))
  | cut => .cut
  | predicate ref m => .predicate ref (m.handle base)
  | skip errorType => .skip errorType
  | protect m guard => .protect (m.handle base) (guard.handle (base + m.size))
  | null type => .null type
  | node type layout m => .node type layout (m.handle base)
  | enum type alternative m => .enum type alternative (m.handle base)

/-- The operands are listed before the matcher itself. -/
theorem listing_eq (base : Nat) (m : Matcher) :
    m.listing base = listingOfAll base m.operands ++ [(m.instruction base, m)] := by
  cases m <;> simp only [listing, operands, instruction, listingOfAll, List.append_nil,
    List.nil_append]

/-- There is one handle for each matcher. -/
theorem length_handles (base : Nat) (ms : List Matcher) : (handles base ms).length = ms.length := by
  induction ms generalizing base with
  | nil => rfl
  | cons m ms ih => rw [handles, List.length_cons, List.length_cons, ih]

/-- An instruction says how many operands its matcher has. -/
theorem operandCount_instruction (base : Nat) (m : Matcher) :
    (m.instruction base).operandCount = m.operands.length := by
  cases m with
  | seq ms | choice ms => exact length_handles base ms
  | _ => rfl

/-- An instruction with the operands of its matcher makes the matcher again. -/
theorem matcher_instruction (base : Nat) (m : Matcher) :
    (m.instruction base).matcher m.operands = m := by
  cases m <;> rfl

/-- The instruction of a matcher replaces its operands on the stack. -/
theorem push_instruction (base : Nat) (m : Matcher) (stack : List Matcher) :
    Instruction.push (m.operands.reverse ++ stack) (m.instruction base) = m :: stack := by
  have count : (m.instruction base).operandCount = m.operands.reverse.length := by
    rw [operandCount_instruction, List.length_reverse]
  rw [Instruction.push, count, List.take_left, List.drop_left, List.reverse_reverse,
    matcher_instruction]

/-- The instructions of several matchers that start at `base`. -/
def instructionsOfAll (base : Nat) (ms : List Matcher) : List Instruction :=
  (listingOfAll base ms).map Prod.fst

/-- Reading the instructions of several matchers leaves these on the stack, the last one on top. -/
theorem readAll_instructionsOfAll {ms : List Matcher}
    (each : ∀ m ∈ ms, ∀ base stack,
      Instruction.readAll ((m.listing base).map Prod.fst) stack = m :: stack)
    (base : Nat) (stack : List Matcher) :
    Instruction.readAll (instructionsOfAll base ms) stack = ms.reverse ++ stack := by
  induction ms generalizing base stack with
  | nil => rfl
  | cons m ms ih =>
    obtain ⟨first, others⟩ := List.forall_mem_cons.mp each
    rw [instructionsOfAll, listingOfAll, List.map_append, Instruction.readAll_append, first,
      ← instructionsOfAll, ih others, List.reverse_cons, List.append_assoc, List.singleton_append]

/-- Reading the listing of a matcher puts it on the stack. -/
theorem readAll_listing (m : Matcher) (base : Nat) (stack : List Matcher) :
    Instruction.readAll ((m.listing base).map Prod.fst) stack = m :: stack := by
  induction m using operand_induction generalizing base stack with
  | step m ih =>
    rw [listing_eq, List.map_append, Instruction.readAll_append, ← instructionsOfAll,
      readAll_instructionsOfAll ih]
    exact push_instruction base m stack

/-- Matchers that are listed alike are the same. -/
theorem instructionsOfAll_injective (base : Nat) : Function.Injective (instructionsOfAll base) := by
  intro ms ns same
  have read (ms : List Matcher) :
      Instruction.readAll (instructionsOfAll base ms) [] = ms.reverse := by
    rw [readAll_instructionsOfAll fun m _ base stack => readAll_listing m base stack,
      List.append_nil]
  exact List.reverse_inj.mp ((read ms).symm.trans (same ▸ read ns))

end Matcher

end CombinatorGrammar
