import Mathlib.Algebra.Group.Nat.Defs
import XmlTemplate.Number.Basic

/-!
# Floats that are zero or no number

Which results of rounding are zero, and which are not a number. Rounding keeps a mantissa that is
not zero away from zero as long as its exponent is not below the least one of the format, so the
float nearest to an integer is zero for the integer zero only. Packing loses neither zeros nor what
is not a number, and makes none.
-/

namespace XmlTemplate.Number

open Float.Model UnpackedFloat

/-! ## Packed and unpacked floats -/

/-- Zero of either sign. -/
def IsZero (u : UnpackedFloat) : Prop := ∃ s, u = .zero s

section

variable {b : BitVec Format.binary64.numBits}

/-- Exponents of ones are for what is infinite or no number, and zero is an exponent of zeros. -/
theorem unpack_cases (b : BitVec Format.binary64.numBits) :
    (unpackExponent b = -1#_ ∧ unpackMantissa b = 0#_ ∧
      ∃ s, UnpackedFloat.unpack Format.binary64 b = .infinity s) ∨
    (unpackExponent b = -1#_ ∧ unpackMantissa b ≠ 0#_ ∧
      UnpackedFloat.unpack Format.binary64 b = .notANumber) ∨
    (unpackExponent b = 0#_ ∧ unpackMantissa b = 0#_ ∧
      ∃ s, UnpackedFloat.unpack Format.binary64 b = .zero s) ∨
    ∃ s m e hm, UnpackedFloat.unpack Format.binary64 b = .finite s m e hm := by
  by_cases hones : unpackExponent b = -1#_
  · have hunpack : UnpackedFloat.unpack Format.binary64 b = _ := if_pos hones
    by_cases hmantissa : unpackMantissa b = 0#_
    · exact .inl ⟨hones, hmantissa, _, hunpack.trans (if_pos hmantissa)⟩
    · exact .inr (.inl ⟨hones, hmantissa, hunpack.trans (if_neg hmantissa)⟩)
  · have hunpack : UnpackedFloat.unpack Format.binary64 b = _ := if_neg hones
    by_cases hzeros : unpackExponent b = 0#_
    · have hunpack := hunpack.trans (if_pos hzeros)
      by_cases hmantissa : unpackMantissa b = 0#_
      · exact .inr (.inr (.inl ⟨hzeros, hmantissa, _, hunpack.trans (dif_pos hmantissa)⟩))
      · exact .inr (.inr (.inr ⟨_, _, _, _, hunpack.trans (dif_neg hmantissa)⟩))
    · exact .inr (.inr (.inr ⟨_, _, _, _, hunpack.trans (if_neg hzeros)⟩))

theorem unpack_eq_zero {s : Sign} (h : UnpackedFloat.unpack Format.binary64 b = .zero s) :
    unpackExponent b = 0#_ ∧ unpackMantissa b = 0#_ := by
  rcases unpack_cases b with ⟨-, -, _, hother⟩ | ⟨-, -, hother⟩ | ⟨hzeros, hmantissa, -⟩ |
    ⟨_, _, _, _, hother⟩
  case inr.inr.inl => exact ⟨hzeros, hmantissa⟩
  all_goals cases h.symm.trans hother

theorem unpack_eq_notANumber (h : UnpackedFloat.unpack Format.binary64 b = .notANumber) :
    unpackExponent b = (-1#_) ∧ unpackMantissa b ≠ 0#_ := by
  rcases unpack_cases b with ⟨-, -, _, hother⟩ | ⟨hones, hmantissa, -⟩ | ⟨-, -, _, hother⟩ |
    ⟨_, _, _, _, hother⟩
  case inr.inl => exact ⟨hones, hmantissa⟩
  all_goals cases h.symm.trans hother

end

theorem pack_finite (s : Sign) (m : Nat) (e : Int) (hm : 0 < m) :
    UnpackedFloat.pack Format.binary64 (.finite s m e hm) =
      if 2 ^ 11 ≤ (e + 1075).toNat + 1 then packedInfinity Format.binary64 s
      else if m.log2 + 1 = 53 then
        packComponents Format.binary64 s (BitVec.ofNat _ (e + 1075).toNat) (BitVec.ofNat _ m)
      else packComponents Format.binary64 s 0#_ (BitVec.ofNat _ m) := by
  have hbias : e + Format.binary64.exponentBias + Format.binary64.mantissaBitsWithoutImplicit =
      e + 1075 := by
    rw [Int.add_assoc]
    rfl
  rw [← hbias]
  rfl

/-- The three ways to pack a finite float: as infinite, as a normal float or as a subnormal one. -/
theorem pack_finite_cases (s : Sign) (m : Nat) (e : Int) (hm : 0 < m) :
    let b := UnpackedFloat.pack Format.binary64 (.finite s m e hm)
    (unpackExponent b = -1#11 ∧ unpackMantissa b = 0#52) ∨
    ((e + 1075).toNat + 1 < 2 ^ 11 ∧ unpackExponent b = BitVec.ofNat 11 (e + 1075).toNat) ∨
    (m.log2 ≠ 52 ∧ unpackExponent b = 0#11 ∧ unpackMantissa b = BitVec.ofNat 52 m) := by
  intro b
  have hb : b = _ := pack_finite s m e hm
  rw [hb]
  split
  · simp [packedInfinity]
  · split
    · refine .inr (.inl ⟨by omega, ?_⟩)
      simp
    · refine .inr (.inr ⟨by omega, ?_⟩)
      simp

/-- Only what is not a number is packed as such. -/
theorem unpack_pack_ne_notANumber {u : UnpackedFloat} (h : u ≠ .notANumber) :
    (Float.Model.pack u).unpack ≠ .notANumber := by
  intro hnan
  obtain ⟨hexponent, hmantissa⟩ := unpack_eq_notANumber hnan
  cases u with
  | notANumber => exact h rfl
  | infinity s =>
    change unpackMantissa (packedInfinity Format.binary64 s) ≠ 0#_ at hmantissa
    simp [packedInfinity] at hmantissa
  | zero s =>
    change unpackMantissa (packedZero Format.binary64 s) ≠ 0#_ at hmantissa
    simp [packedZero] at hmantissa
  | finite s m e hm =>
    rcases pack_finite_cases s m e hm with ⟨-, hzero⟩ | ⟨hsmall, hnormal⟩ | ⟨-, hzero, -⟩
    · exact hmantissa hzero
    · have hvalue := congrArg BitVec.toNat (hnormal.symm.trans hexponent)
      simp at hvalue
      omega
    · exact absurd (hzero.symm.trans hexponent) (by decide)

/-- A mantissa and an exponent in the bounds of the format do not make a zero. -/
theorem not_isZero_unpack_pack {s : Sign} {m : Nat} {e : Int} (hm : 0 < m) (hsmall : m < 2 ^ 53)
    (he : -1074 ≤ e) : ¬ IsZero (Float.Model.pack (.finite s m e hm)).unpack := by
  rintro ⟨sign, hzero⟩
  obtain ⟨hexponent, hmantissa⟩ := unpack_eq_zero hzero
  rcases pack_finite_cases s m e hm with ⟨hinfinite, -⟩ | ⟨hsmall, hnormal⟩ | ⟨hlog, -, hsubnormal⟩
  · exact absurd (hinfinite.symm.trans hexponent) (by decide)
  · have hvalue := congrArg BitVec.toNat (hnormal.symm.trans hexponent)
    simp at hvalue
    omega
  · have hlog' : m.log2 < 53 := (Nat.log2_lt (by omega)).2 hsmall
    have hlow : m < 2 ^ 52 := (Nat.log2_lt (by omega)).1 (by omega)
    have hvalue := congrArg BitVec.toNat (hsubnormal.symm.trans hmantissa)
    simp at hvalue
    omega

/-! ## Rounding -/

/-- Finite, with a mantissa and an exponent in the bounds of the format. -/
def IsBounded (u : UnpackedFloat) : Prop :=
  ∃ s m e h, u = .finite s m e h ∧ m < 2 ^ 53 ∧ -1074 ≤ e

theorem IsBounded.not_isZero {u : UnpackedFloat} (h : IsBounded u) :
    ¬ IsZero (Float.Model.pack u).unpack := by
  obtain ⟨s, m, e, hm, rfl, hsmall, he⟩ := h
  exact not_isZero_unpack_pack hm hsmall he

theorem mantissa_shiftRight (m : ExtendedMantissa) (n : Nat) :
    (m >>> n).mantissa = m.mantissa / 2 ^ n := by
  induction n with
  | zero => simp [HShiftRight.hShiftRight, Nat.repeat]
  | succ n ih =>
    have hstep : (m >>> (n + 1)).mantissa = (m >>> n).mantissa / 2 := rfl
    rw [hstep, ih, Nat.div_div_eq_div_mul, Nat.pow_succ]

theorem mantissa_ofMantissaAndAccuracy (m : Nat) (a : Accuracy) :
    (ExtendedMantissa.ofMantissaAndAccuracy m a).mantissa = m := by
  rcases a with _ | (_ | _ | _) <;> rfl

theorem le_roundedMantissa (m : ExtendedMantissa) : m.mantissa ≤ m.roundedMantissa := by
  unfold ExtendedMantissa.roundedMantissa
  rcases m.accuracy with _ | (_ | _ | _) <;> simp [Accuracy.roundToNearestEven]

theorem targetExponent_binary64 (total : Int) :
    Format.binary64.targetExponent total = max (total - 53) (-1074) := rfl

/-- A mantissa shifted to its target exponent has at most 53 bits, and one at least. -/
theorem shifted_bounds {m : Nat} (hm : 0 < m) {e : Int} (he : -1074 ≤ e) :
    let n := (Format.binary64.targetExponent (totalExponent m e) - e).toNat
    0 < m / 2 ^ n ∧ m / 2 ^ n < 2 ^ 53 := by
  intro n
  have hlow : 2 ^ m.log2 ≤ m := Nat.log2_self_le (by omega)
  have hhigh : m < 2 ^ (m.log2 + 1) := Nat.lt_log2_self
  have hn : n = m.log2 - 52 := by
    simp only [n, targetExponent_binary64, totalExponent]
    omega
  rw [hn]
  refine ⟨Nat.div_pos (Nat.le_trans (Nat.pow_le_pow_right (by decide) (by omega)) hlow)
    (Nat.two_pow_pos _), (Nat.div_lt_iff_lt_mul (Nat.two_pow_pos _)).2 ?_⟩
  calc m < 2 ^ (m.log2 + 1) := hhigh
    _ ≤ 2 ^ (53 + (m.log2 - 52)) := Nat.pow_le_pow_right (by decide) (by omega)
    _ = 2 ^ 53 * 2 ^ (m.log2 - 52) := Nat.pow_add ..

/-- The mantissa of a shift to the target exponent is in the bounds, and so is the exponent. -/
theorem shiftToTargetExponent_bounds {m : Nat} (hm : 0 < m) {e : Int} (he : -1074 ≤ e)
    (a : Accuracy) :
    0 < (shiftToTargetExponent Format.binary64 m e a).1.mantissa ∧
      (shiftToTargetExponent Format.binary64 m e a).1.mantissa < 2 ^ 53 ∧
        -1074 ≤ (shiftToTargetExponent Format.binary64 m e a).2 := by
  have hbounds := shifted_bounds hm he
  simp only [shiftToTargetExponent, shiftToExponent, mantissa_shiftRight,
    mantissa_ofMantissaAndAccuracy]
  exact ⟨hbounds.1, hbounds.2, by omega⟩

theorem isBounded_roundWithAccuracy (s : Sign) {m : Nat} (hm : 0 < m) {e : Int} (he : -1074 ≤ e)
    (a : Accuracy) : IsBounded (roundWithAccuracy Format.binary64 s m e a) := by
  obtain ⟨hfirst, -, hexponent⟩ := shiftToTargetExponent_bounds hm he a
  unfold roundWithAccuracy
  -- Rounding up may take one bit more, which the second shift takes away.
  generalize shiftToTargetExponent Format.binary64 m e a = shifted at hfirst hexponent
  obtain ⟨hpos, hsmall, hfinal⟩ := shiftToTargetExponent_bounds
    (Nat.lt_of_lt_of_le hfirst (le_roundedMantissa shifted.1)) hexponent .exact
  exact ⟨s, _, _, hpos, dif_neg (Nat.ne_of_gt hpos), hsmall, hfinal⟩

/-- A number that is not zero is rounded to a float in the bounds. -/
theorem isBounded_normalize {m : Int} (hm : m ≠ 0) {e : Int} (he : -1074 ≤ e) (s : Sign) :
    IsBounded (UnpackedFloat.normalize Format.binary64 m e s) := by
  have hround (sign : Sign) {m : Nat} (hm : 0 < m) :
      IsBounded (UnpackedFloat.round Format.binary64 sign m e) := by
    refine isBounded_roundWithAccuracy sign ?_ ?_ .exact
    · simp only [Nat.shiftLeft_eq]
      exact Nat.mul_pos hm (Nat.two_pow_pos _)
    · simp only [targetExponent_binary64]
      omega
  unfold UnpackedFloat.normalize
  split
  · rename_i hneg
    exact hround .negative (by have := Int.compare_eq_lt.1 hneg; omega)
  · rename_i hzero
    exact absurd (Int.compare_eq_eq.1 hzero) hm
  · rename_i hpos
    exact hround .positive (by have := Int.compare_eq_gt.1 hpos; omega)

/-! ## Zeros -/

theorem unpack_zero : (0.0 : Float).toModel.unpack = .zero .positive := by rfl

theorem beq_zero_iff {f : Float} : (f == 0.0) = true ↔ IsZero f.toModel.unpack := by
  change (f.toModel.unpack.compare (0.0 : Float).toModel.unpack == some .eq) = true ↔ _
  rw [unpack_zero, IsZero]
  cases f.toModel.unpack with
  | zero s => exact ⟨fun _ => ⟨s, rfl⟩, fun _ => rfl⟩
  | notANumber => exact ⟨nofun, nofun⟩
  | infinity s | finite s => cases s <;> exact ⟨nofun, nofun⟩

/-- The float nearest to an integer is zero for zero only. -/
theorem isZero_nearestFloat {i : Int64} : IsZero (nearestFloat i).toModel.unpack ↔ i = 0 := by
  constructor
  · intro hzero
    refine Decidable.byContradiction fun hi => ?_
    have hvalue : i.toInt ≠ 0 := fun h => hi (Int64.toInt_inj.1 h)
    exact (isBounded_normalize hvalue (e := 0) (by decide) .positive).not_isZero hzero
  · rintro rfl
    exact ⟨.positive, rfl⟩

@[simp] theorem isZero_int {i : Int64} : (int i).isZero = true ↔ i = 0 := by
  rw [isZero, toFloat, beq_zero_iff, isZero_nearestFloat]

end XmlTemplate.Number
