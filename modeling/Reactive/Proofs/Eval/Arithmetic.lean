/-
Arithmetic on integers.

Sums, differences, products, negation and steps of integers are computed on
words of 64 bits, and the result is an integer again.  It is the exact result
reduced to the range of a word, so it is right as long as the exact result
lies in that range, and off by a multiple of `2 ^ 64` as soon as it does not.
Products reach the end of the range from operands that are small themselves.

* `IntOp.apply_eq` — the result is the exact one, reduced to a word;
* `IntOp.exact_iff` — it is the exact one only if that fits a word.
-/
import Mathlib.Algebra.Group.Int.Defs
import Mathlib.Algebra.Group.Nat.Defs
import Reactive.Eval.Interp

namespace Reactive

/-- An operation that makes an integer of integers. -/
inductive IntOp where
  | add | sub | mul | neg
  | step (op : StepOp)

namespace IntOp

/-- The exact result on two integers; negation and steps use the first one only. -/
def ideal : IntOp → Int → Int → Int
  | .add, i, j => i + j
  | .sub, i, j => i - j
  | .mul, i, j => i * j
  | .neg, i, _ => -i
  | .step .increment, i, _ => i + 1
  | .step .decrement, i, _ => i - 1

/-- The result on two values. -/
def apply : IntOp → Value → Value → Except EvalError Value
  | .add, a, b => BinaryOp.apply .add a b
  | .sub, a, b => BinaryOp.apply .sub a b
  | .mul, a, b => BinaryOp.apply .mul a b
  | .neg, a, _ => .ok (UnaryOp.apply .neg a)
  | .step op, a, _ => .ok (op.apply a).2

/-- The integers that a word of 64 bits holds. -/
def Fits (n : Int) : Prop := -2 ^ 63 ≤ n ∧ n < 2 ^ 63

theorem fits_toInt (i : Int64) : Fits i.toInt := ⟨i.le_toInt, i.toInt_lt⟩

/-- The result on two integers is the exact one, reduced to a word. -/
theorem apply_eq (op : IntOp) (i j : Int64) :
    op.apply (.number (.int i)) (.number (.int j)) = .ok (.int (op.ideal i.toInt j.toInt)) := by
  have hword (k : Int64) (n : Int) (h : k = Int64.ofInt n) :
      Except.ok (ε := EvalError) (Value.number (.int k)) = .ok (.int n) := by rw [h, Value.int]
  cases op with
  | add => exact hword (i + j) _ (by rw [ideal, Int64.ofInt_add, Int64.ofInt_toInt, Int64.ofInt_toInt])
  | sub => exact hword (i - j) _ (by rw [ideal, Int64.ofInt_sub, Int64.ofInt_toInt, Int64.ofInt_toInt])
  | mul => exact hword (i * j) _ (by rw [ideal, Int64.ofInt_mul, Int64.ofInt_toInt, Int64.ofInt_toInt])
  | neg => exact hword (-i) _ (by rw [ideal, Int64.ofInt_neg, Int64.ofInt_toInt])
  | step op =>
    cases op with
    | increment => exact hword (i + 1) _ (by rw [ideal, Int64.ofInt_add, Int64.ofInt_toInt]; rfl)
    | decrement => exact hword (i - 1) _ (by rw [ideal, Int64.ofInt_sub, Int64.ofInt_toInt]; rfl)

/-- **The result is right exactly if it fits a word.**  Otherwise an integer comes out all the
same, and it is off by a multiple of `2 ^ 64`. -/
theorem exact_iff (op : IntOp) (i j : Int64) : ∃ k : Int64,
    op.apply (.number (.int i)) (.number (.int j)) = .ok (.number (.int k)) ∧
      (k.toInt = op.ideal i.toInt j.toInt ↔ Fits (op.ideal i.toInt j.toInt)) ∧
      k.toInt = (op.ideal i.toInt j.toInt).bmod (2 ^ 64) := by
  refine ⟨Int64.ofInt (op.ideal i.toInt j.toInt), apply_eq op i j, ⟨fun h => ?_, fun h => ?_⟩,
    Int64.toInt_ofInt⟩
  · rw [← h]
    exact fits_toInt _
  · exact Int64.toInt_ofInt_of_le h.1 h.2

/-- A product of two integers far inside the range that a word is too short for. -/
example : mul.apply (.int (2 ^ 52)) (.int (2 ^ 12)) = .ok (.int 0) := rfl

/-- The least integer of a word has no negative there. -/
example : neg.apply (.int (-2 ^ 63)) .null = .ok (.int (-2 ^ 63)) := rfl

end IntOp

end Reactive
