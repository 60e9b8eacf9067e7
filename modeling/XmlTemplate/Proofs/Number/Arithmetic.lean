import Mathlib.Data.Rat.Cast.CharZero
import XmlTemplate.Expr.Evaluation
import XmlTemplate.Proofs.Number.Float

/-!
# Exact arithmetic

What the arithmetic operators do to 64-bit integers. Their values are exact: where the rational
value of an operator is an integer of 64 bits, the number is that integer. A float stands in only
for a value that no such integer has.
-/

namespace XmlTemplate

/-! ## Exact values of operators -/

/-- The exact value of a unary operator. -/
def UnaryOp.exactly? : UnaryOp → ℚ → Option ℚ
  | plus, x => some x
  | minus, x => some (-x)
  | not, _ => none

/-- The exact value of a binary operator. What is divided by zero gives zero; only integers have a
remainder, which is that of a division cut off towards zero. -/
def BinaryOp.exactly? : BinaryOp → ℚ → ℚ → Option ℚ
  | add, x, y => some (x + y)
  | sub, x, y => some (x - y)
  | mul, x, y => some (x * y)
  | div, x, y => some (if y = 0 then 0 else x / y)
  | mod, x, y =>
    if x.isInt ∧ y.isInt then some (if y = 0 then 0 else (x.num.tmod y.num : ℤ)) else none
  | _, _, _ => none

/-- Operators on numbers that give a number. -/
def UnaryOp.IsArithmetic (op : UnaryOp) : Prop := op ∈ [plus, minus]

def BinaryOp.IsArithmetic (op : BinaryOp) : Prop := op ∈ [add, sub, mul, div, mod]

instance (op : UnaryOp) : Decidable op.IsArithmetic := inferInstanceAs (Decidable (_ ∈ _))

instance (op : BinaryOp) : Decidable op.IsArithmetic := inferInstanceAs (Decidable (_ ∈ _))

namespace Number

/-! ## Numbers for exact values -/

/-- An integer stands for its own value only, a float for values that no integer of 64 bits has. -/
def StandsFor (q : ℚ) : Number → Prop
  | int i => (i.toInt : ℚ) = q
  | float _ => ∀ i : Int64, (i.toInt : ℚ) ≠ q

variable {a b : Int64}

theorem standsFor_exactOr (k : Int) (f : Float) : (exactOr k f).StandsFor k := by
  unfold exactOr
  split
  · rename_i i hi
    exact congrArg _ (toInt_of_int64? hi)
  · rename_i hnone
    intro i hi
    have hk : i.toInt = k := Int.cast_injective hi
    rw [← hk, int64?, if_pos ⟨i.minValue_le_toInt, i.toInt_le⟩] at hnone
    cases hnone

theorem standsFor_add : ((int a).add (int b)).StandsFor (a.toInt + b.toInt) :=
  mod_cast standsFor_exactOr (a.toInt + b.toInt) _

theorem standsFor_sub : ((int a).sub (int b)).StandsFor (a.toInt - b.toInt) :=
  mod_cast standsFor_exactOr (a.toInt - b.toInt) _

theorem standsFor_mul : ((int a).mul (int b)).StandsFor (a.toInt * b.toInt) :=
  mod_cast standsFor_exactOr (a.toInt * b.toInt) _

theorem standsFor_neg : (int a).neg.StandsFor (-a.toInt) :=
  mod_cast standsFor_exactOr (-a.toInt) _

theorem toInt_eq_zero_iff : (b.toInt : ℚ) = 0 ↔ b = 0 := by
  rw [Int.cast_eq_zero, ← Int64.toInt_zero, Int64.toInt_inj]

/-- A division with a rest has no integer for its value. -/
theorem standsFor_div :
    ((int a).div (int b)).StandsFor (if (b.toInt : ℚ) = 0 then 0 else a.toInt / b.toInt) := by
  by_cases hb : b = 0
  · simp [div, hb, StandsFor]
  · have hne : (b.toInt : ℚ) ≠ 0 := mt toInt_eq_zero_iff.1 hb
    rw [if_neg hne]
    simp only [div, isZero_int, if_neg hb]
    split
    · rename_i hrest
      have hquotient : (a.toInt / b.toInt : ℚ) = (a.toInt.tdiv b.toInt : ℤ) := by
        rw [div_eq_iff hne]
        exact_mod_cast (Int.tdiv_mul_cancel_of_tmod_eq_zero hrest).symm
      rw [hquotient]
      exact standsFor_exactOr _ _
    · rename_i hrest
      intro i hi
      refine hrest ?_
      have hproduct : i.toInt * b.toInt = a.toInt := by
        rw [eq_div_iff hne] at hi
        exact_mod_cast hi
      rw [← hproduct, Int.mul_tmod_left]

theorem standsFor_rem :
    ((int a).rem (int b)).StandsFor
      (if (b.toInt : ℚ) = 0 then 0 else (a.toInt.tmod b.toInt : ℤ)) := by
  by_cases hb : b = 0
  · simp [rem, toInt64, hb, StandsFor]
  · have hne : (b.toInt : ℚ) ≠ 0 := mt toInt_eq_zero_iff.1 hb
    have hrem : (int a).rem (int b) = int (Int64.ofInt (a.toInt.tmod b.toInt)) := if_neg hb
    rw [if_neg hne, hrem, StandsFor]
    have hsize := Int.natAbs_tmod a.toInt b.toInt
    have hless : a.toInt.natAbs % b.toInt.natAbs < b.toInt.natAbs :=
      Nat.mod_lt _ (Int.natAbs_pos.2 (mod_cast hne))
    have hlow := b.le_toInt
    have hhigh := b.toInt_lt
    rw [Int64.toInt_ofInt_of_le (by omega) (by omega)]

end Number

/-! ## Values of operators -/

theorem UnaryOp.apply_int {op : UnaryOp} (h : op.IsArithmetic) (a : Int64) :
    ∃ n q, op.apply (.int a) = .ofNumber n ∧ op.exactly? a.toInt = some q ∧ n.StandsFor q := by
  cases op with
  | plus => exact ⟨.int a, _, rfl, rfl, rfl⟩
  | minus => exact ⟨_, _, rfl, rfl, Number.standsFor_neg⟩
  | not => exact absurd h (by decide)

theorem BinaryOp.combine?_int {op : BinaryOp} (h : op.IsArithmetic) (a b : Int64) :
    ∃ n q, op.combine? (.int a) (.int b) = some (.ofNumber n) ∧
      op.exactly? a.toInt b.toInt = some q ∧ n.StandsFor q := by
  cases op with
  | add => exact ⟨_, _, rfl, rfl, Number.standsFor_add⟩
  | sub => exact ⟨_, _, rfl, rfl, Number.standsFor_sub⟩
  | mul => exact ⟨_, _, rfl, rfl, Number.standsFor_mul⟩
  | div => exact ⟨_, _, rfl, rfl, Number.standsFor_div⟩
  | mod => exact ⟨_, _, rfl, by simp [exactly?, Rat.isInt], Number.standsFor_rem⟩
  | _ => exact absurd h (by decide)

/-- Arithmetic on numbers gives a number. -/
theorem UnaryOp.exists_apply_ofNumber {op : UnaryOp} (h : op.IsArithmetic) (n : Number) :
    ∃ r, op.apply (.ofNumber n) = .ofNumber r := by
  cases op with
  | plus => exact ⟨_, rfl⟩
  | minus => exact ⟨_, rfl⟩
  | not => exact absurd h (by decide)

theorem BinaryOp.exists_combine?_ofNumber {op : BinaryOp} (h : op.IsArithmetic) (m n : Number) :
    ∃ r, op.combine? (.ofNumber m) (.ofNumber n) = some (.ofNumber r) := by
  cases op with
  | add =>
    have hnumeric (n : Number) : (Value.ofNumber n).isNumeric = true := by cases n <;> rfl
    exact ⟨_, by rw [BinaryOp.combine?, Value.add?, hnumeric, hnumeric]; rfl⟩
  | sub => exact ⟨_, rfl⟩
  | mul => exact ⟨_, rfl⟩
  | div => exact ⟨_, rfl⟩
  | mod => exact ⟨_, rfl⟩
  | _ => exact absurd h (by decide)

end XmlTemplate
