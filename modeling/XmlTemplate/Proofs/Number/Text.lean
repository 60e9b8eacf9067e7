import XmlTemplate.Proofs.Number.Float
import XmlTemplate.Proofs.Number.Grammar
import XmlTemplate.Proofs.Value.Comparison

/-!
# Numbers and their texts

What is read from a text is never a float that is not a number, so it equals itself. What a float
prints is never empty, and it is `0` or `-0` if the float is zero.
-/

namespace XmlTemplate.Number

open Float.Model UnpackedFloat

/-! ## Floats that are read -/

/-- The float is a number, finite or not. -/
def IsNumber (f : Float) : Prop := f.toModel.unpack ≠ .notANumber

/-- Finite and not zero. -/
def isOrdinary : UnpackedFloat → Bool
  | .finite .. => true
  | _ => false

theorem isNumber_pack {u : UnpackedFloat} (h : u ≠ .notANumber) :
    IsNumber (.ofModel (Float.Model.pack u)) :=
  unpack_pack_ne_notANumber h

theorem isNumber_neg {f : Float} (h : IsNumber f) : IsNumber (-f) := by
  refine isNumber_pack (u := f.toModel.unpack.neg) ?_
  unfold IsNumber at h
  cases hu : f.toModel.unpack with
  | notANumber => exact absurd hu h
  | infinity s | zero s | finite s m e hm =>
    intro hnan
    cases hnan

theorem roundWithAccuracy_ne_notANumber (s : Sign) (m : Nat) (e : Int) (a : Accuracy) :
    roundWithAccuracy Format.binary64 s m e a ≠ .notANumber := by
  unfold roundWithAccuracy
  dsimp only
  generalize shiftToTargetExponent Format.binary64 _ _ .exact = shifted
  by_cases hzero : shifted.1.mantissa = 0
  · rw [dif_pos hzero]
    nofun
  · rw [dif_neg hzero]
    nofun

theorem normalize_ne_notANumber (m e : Int) (s : Sign) :
    UnpackedFloat.normalize Format.binary64 m e s ≠ .notANumber := by
  unfold UnpackedFloat.normalize
  split
  · exact roundWithAccuracy_ne_notANumber _ _ _ _
  · nofun
  · exact roundWithAccuracy_ne_notANumber _ _ _ _

theorem mul_ne_notANumber {u v : UnpackedFloat} (hu : u ≠ .notANumber) (hv : isOrdinary v) :
    UnpackedFloat.mul Format.binary64 u v ≠ .notANumber := by
  cases v with
  | finite t n f hn =>
    cases u with
    | notANumber => exact absurd rfl hu
    | infinity s => nofun
    | zero s => nofun
    | finite s m e hm => exact roundWithAccuracy_ne_notANumber _ _ _ _
  | _ => cases hv

theorem div_ne_notANumber {u v : UnpackedFloat} (hu : u ≠ .notANumber) (hv : isOrdinary v) :
    UnpackedFloat.div Format.binary64 u v ≠ .notANumber := by
  cases v with
  | finite t n f hn =>
    cases u with
    | notANumber => exact absurd rfl hu
    | infinity s => nofun
    | zero s => nofun
    | finite s m e hm => exact roundWithAccuracy_ne_notANumber _ _ _ _
  | _ => cases hv

theorem isOrdinary_powersOfTen : ∀ f ∈ Float.exactlyRepresentablePowersOfTen.toList,
    isOrdinary f.toModel.unpack = true := by
  decide +kernel

theorem ofScientific_ne_notANumber (m : Nat) (e : Int) :
    UnpackedFloat.ofScientific Format.binary64 m e ≠ .notANumber := by
  have hite {p : Prop} [Decidable p] {u v : UnpackedFloat} (hu : u ≠ .notANumber)
      (hv : v ≠ .notANumber) : (if p then u else v) ≠ .notANumber := by
    split
    · exact hu
    · exact hv
  unfold UnpackedFloat.ofScientific
  by_cases hzero : m = 0
  · rw [dif_pos hzero]
    nofun
  · rw [dif_neg hzero]
    exact hite nofun (hite nofun (hite (mul_ne_notANumber nofun rfl) (div_ne_notANumber nofun rfl)))

theorem isNumber_ofScientific (m : Nat) (s : Bool) (e : Nat) :
    IsNumber (Float.ofScientific m s e) := by
  unfold Float.ofScientific
  split
  · rename_i hfast
    have hsize : e < Float.exactlyRepresentablePowersOfTen.size := by
      simp only [Float.exactlyRepresentablePowersOfTen, List.size_toArray, List.length_cons,
        List.length_nil]
      omega
    have hpower := isOrdinary_powersOfTen Float.exactlyRepresentablePowersOfTen[e]
      (Array.getElem_mem_toList _)
    have hnumber : IsNumber m.toUInt64.toFloat := isNumber_pack (normalize_ne_notANumber _ _ _)
    dsimp only
    split
    · exact isNumber_pack (div_ne_notANumber hnumber hpower)
    · exact isNumber_pack (mul_ne_notANumber hnumber hpower)
  · exact isNumber_pack (ofScientific_ne_notANumber _ _)

theorem isNumber_toFloat (n : Numeral) : IsNumber n.toFloat := by
  have hdecimal (coefficient : Nat) (exponent : Int) :
      IsNumber (Decimal.toFloat coefficient exponent) := by
    simp only [Decimal.toFloat]
    split
    · exact isNumber_ofScientific _ _ _
    · split
      · have hinfinite : (1.0 / 0.0 : Float).toModel.unpack = .infinity .positive := by rfl
        exact fun h => nomatch hinfinite.symm.trans h
      · exact isNumber_ofScientific _ _ _
  simp only [Numeral.toFloat, Decimal.ofParts]
  split
  · exact isNumber_neg (hdecimal _ _)
  · exact hdecimal _ _

theorem compare_self_float {f : Float} (h : IsNumber f) : compareFloats f f = some .eq := by
  rw [compareFloats_eq]
  unfold IsNumber at h
  have hparts (m : Nat) (e : Int) : (Ord.compare e e).then (Ord.compare m m) = .eq := by simp
  rcases hu : f.toModel.unpack with (_ | _) | _ | _ | ⟨_ | _, m, e, _⟩
  · rfl
  · rfl
  · exact absurd hu h
  · rfl
  · exact congrArg (some ·.swap) (hparts m e)
  · exact congrArg some (hparts m e)

/-- A number that is read from a text equals itself. -/
theorem compare_self_of_parse? {s : String} {n : Number} (h : parse? s = some n) :
    n.compare n = some .eq := by
  obtain ⟨m, -, -, rfl⟩ := parse?_eq_some_iff.1 h
  unfold Numeral.toNumber
  split
  · split
    · simp [compare]
    · exact compare_self_float (isNumber_toFloat m)
  · exact compare_self_float (isNumber_toFloat m)

/-! ## Floats that are printed -/

theorem positional_ne_nil (digits : List Char) (exponent : Int) :
    Decimal.positional digits exponent ≠ [] := by
  have hwhole (size : Nat) :
      digits.take (size + 1) ++ List.replicate (size + 1 - digits.length) '0' ≠ [] := by
    cases digits <;> simp [List.replicate_succ]
  unfold Decimal.positional
  split
  · nofun
  · dsimp only
    split
    · exact hwhole _
    · simp

theorem scientificText_ne_nil (x : Decimal.Scientific) : scientificText x ≠ [] := by
  unfold scientificText
  dsimp only
  split <;> split <;> simp [positional_ne_nil]

/-- A float prints something. -/
theorem floatText_ne_empty (f : Float) : floatText f ≠ "" := by
  unfold floatText
  split
  · intro hempty
    exact scientificText_ne_nil _ (String.ofList_eq_empty_iff.1 hempty)
  · split
    · decide
    · split <;> decide

/-- A zero has neither mantissa nor exponent. -/
theorem ofFloat?_of_isZero {f : Float} (h : IsZero f.toModel.unpack) :
    Decimal.Binary.ofFloat? f = some ⟨Decimal.signBit f, 0, -1074⟩ := by
  obtain ⟨s, hs⟩ := h
  obtain ⟨hexponent, hmantissa⟩ := unpack_eq_zero hs
  have hbits : f.toBits.toNat = f.toModel.toBits.toNat := rfl
  have hfield : f.toModel.toBits.toNat / Nat.pow 2 52 % Nat.pow 2 11 = 0 := by
    simpa [unpackExponent, Nat.shiftRight_eq_div_pow] using congrArg BitVec.toNat hexponent
  have hfraction : f.toModel.toBits.toNat % Nat.pow 2 52 = 0 := by
    simpa [unpackMantissa] using congrArg BitVec.toNat hmantissa
  simp [Decimal.Binary.ofFloat?, hbits, hfield, hfraction]

/-- A zero prints as `0`, after a minus sign if it has that sign. -/
theorem floatText_of_isZero {f : Float} (h : IsZero f.toModel.unpack) :
    floatText f = "0" ∨ floatText f = "-0" := by
  have htext : ∀ negative, String.ofList (scientificText (Decimal.Scientific.round 13
      ⟨negative, 0, -1074⟩)) = if negative then "-0" else "0" := by
    decide +kernel
  simp only [floatText, ofFloat?_of_isZero h, htext]
  cases Decimal.signBit f
  · exact .inl rfl
  · exact .inr rfl

end XmlTemplate.Number
