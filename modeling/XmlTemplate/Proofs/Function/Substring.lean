import XmlTemplate.Function.BuiltIn

/-!
# Parts of texts

What `substr` cuts out of a text, on integers without bounds: it begins at the start, counted from
the end if it is negative, and ends where the length says. The two indices never cross and never
leave the text. The function comes to this part, but for a length that reaches beyond the largest
integer of 64 bits from where the part begins: its end is not computed then, although the text
ends long before.
-/

namespace XmlTemplate.Extent

/-- The index where a part of a text begins: the start within the text, or counted from its end. -/
def startIndex (size start : Int) : Int :=
  max 0 (min (if start < 0 then size + start else start) size)

/-- The index behind a part of a text that begins at `lower`. A negative length is counted from
the end of the text. -/
def stopIndex (size lower : Int) : Option Int → Int
  | none => size
  | some length => if length < 0 then max (size + length) lower else min (lower + length) size

/-- The characters from one index up to another one. -/
def part (lower upper : Int) (text : List Char) : List Char :=
  (text.take upper.toNat).drop lower.toNat

theorem startIndex_nonneg (size start : Int) : 0 ≤ startIndex size start := Int.le_max_left ..

variable {size : Int}

theorem startIndex_le (h : 0 ≤ size) (start : Int) : startIndex size start ≤ size := by
  unfold startIndex
  omega

theorem startIndex_le_stopIndex (h : 0 ≤ size) (start : Int) (length : Option Int) :
    startIndex size start ≤ stopIndex size (startIndex size start) length := by
  have hlower := startIndex_le h start
  cases length with
  | none => exact hlower
  | some length =>
    simp only [stopIndex]
    split <;> omega

theorem stopIndex_le (h : 0 ≤ size) (start : Int) (length : Option Int) :
    stopIndex size (startIndex size start) length ≤ size := by
  have hlower := startIndex_le h start
  cases length with
  | none => exact Int.le_refl _
  | some length =>
    simp only [stopIndex]
    split <;> omega

/-- The length reaches beyond the largest integer of 64 bits. -/
def Exceeds (lower : Int) (length : Option Int64) : Prop :=
  ∃ l, length = some l ∧ 0 ≤ l.toInt ∧ Int64.maxValue.toInt < lower + l.toInt

instance (lower : Int) (length : Option Int64) : Decidable (Exceeds lower length) :=
  match length with
  | none => isFalse (by simp [Exceeds])
  | some l => decidable_of_iff (0 ≤ l.toInt ∧ Int64.maxValue.toInt < lower + l.toInt)
      (by simp [Exceeds])

end XmlTemplate.Extent

namespace XmlTemplate.BuiltIn

open Extent

/-- Where the function begins is where the part begins. -/
theorem begin_eq_startIndex (size : Nat) (start : Int64) :
    (if start < 0 then max ((size : Int) + start.toInt) 0 else min start.toInt size) =
      startIndex size start.toInt := by
  have hsign : start < 0 ↔ start.toInt < 0 := Int64.lt_iff_toInt_lt
  simp only [startIndex, hsign]
  split <;> omega

/-- The characters that are left behind the first index are cut at the second. -/
theorem take_drop_eq_part (text : List Char) {lower upper : Int} (h : lower ≤ upper)
    (hlower : 0 ≤ lower) : (text.drop lower.toNat).take (upper - lower).toNat =
      part lower upper text := by
  rw [part, List.drop_take]
  congr 1
  omega

theorem substring?_eq (text : List Char) (start : Int64) (length : Option Int64) :
    substring? text start length =
      if Exceeds (startIndex text.length start.toInt) length then none
      else
        some (part (startIndex text.length start.toInt)
          (stopIndex text.length (startIndex text.length start.toInt) (length.map Int64.toInt))
          text) := by
  have hsize : (0 : Int) ≤ text.length := Int.natCast_nonneg _
  have hbegin := begin_eq_startIndex text.length start
  have hcut := take_drop_eq_part text
    (startIndex_le_stopIndex hsize start.toInt (length.map Int64.toInt)) (startIndex_nonneg _ _)
  simp only [substring?, hbegin]
  cases length with
  | none =>
    rw [if_neg (by simp [Exceeds])]
    exact congrArg some hcut
  | some l =>
    have hsign : l < 0 ↔ l.toInt < 0 := Int64.lt_iff_toInt_lt
    have hexceeds : Exceeds (startIndex text.length start.toInt) (some l) ↔
        0 ≤ l.toInt ∧ Int64.maxValue.toInt < startIndex text.length start.toInt + l.toInt := by
      simp [Exceeds]
    simp only [Option.map_some, stopIndex, hsign, hexceeds] at hcut ⊢
    by_cases hneg : l.toInt < 0
    · simp only [if_pos hneg, if_neg (fun h : 0 ≤ l.toInt ∧ _ => Int.not_lt.2 h.1 hneg)] at hcut ⊢
      exact congrArg some hcut
    · simp only [if_neg hneg] at hcut ⊢
      by_cases hreach : startIndex text.length start.toInt + l.toInt ≤ Int64.maxValue.toInt
      · rw [if_pos hreach, if_neg fun h => Int.not_lt.2 hreach h.2]
        exact congrArg some hcut
      · rw [if_neg hreach, if_pos ⟨Int.not_lt.1 hneg, Int.not_le.1 hreach⟩]
        rfl

/-- Given the text, the start and perhaps the length, the function cuts out a part. -/
theorem apply_substring (anchor : Anchor) (s : String) (start : Int64) (length : Option Int64) :
    substring.apply anchor (.string s :: .int start :: (length.map Value.int).toList) =
      (substring? s.toList start length).elim (.error .overflow)
        fun part => .ok (.string (String.ofList part)) := by
  generalize hargs : Value.string s :: .int start :: (length.map Value.int).toList = args
  have htext : anchor.text (arg args 0) = .ok s := hargs ▸ rfl
  have hstart : (arg args 1).toNumber.toInt64 = start := hargs ▸ rfl
  have hlength : (args[2]?).map (fun v => v.toNumber.toInt64) = length := by
    subst hargs
    cases length <;> rfl
  simp only [apply, htext, hstart, hlength, bind, Except.bind]
  cases substring? s.toList start length <;> rfl

/-- The part that `substr` cuts out lies within the text. The call comes to it, unless its end was
not computed because the length exceeds the integers of 64 bits from where the part begins. -/
theorem call_substring (anchor : Anchor) (s : String) (start : Int64) (length : Option Int64) :
    let size : Int := s.length
    let lower := startIndex size start.toInt
    let upper := stopIndex size lower (length.map Int64.toInt)
    0 ≤ lower ∧ lower ≤ upper ∧ upper ≤ size ∧
      substring.call anchor (.string s :: .int start :: (length.map Value.int).toList) =
        if Exceeds lower length then .error .overflow
        else .ok (.string (String.ofList (part lower upper s.toList))) := by
  have hsize : (0 : Int) ≤ s.length := Int.natCast_nonneg _
  refine ⟨startIndex_nonneg _ _, startIndex_le_stopIndex hsize _ _, stopIndex_le hsize _ _, ?_⟩
  have hresult := substring?_eq s.toList start length
  rw [String.length_toList] at hresult
  have henough : ¬ (Value.string s :: .int start :: (length.map Value.int).toList).length <
      substring.leastArguments := by
    simp [leastArguments]
  rw [call, if_neg henough, apply_substring, hresult]
  by_cases hexceeds : Exceeds (startIndex s.length start.toInt) length
  · simp only [if_pos hexceeds, Option.elim_none]
  · simp only [if_neg hexceeds, Option.elim_some]

/-- The text `abc` ends behind its third character, however long the part from its second one on
may be. -/
example : substring? "abc".toList 1 (some Int64.maxValue) = none ∧
    part 1 (stopIndex 3 1 (some Int64.maxValue.toInt)) "abc".toList = "bc".toList := by
  decide

end XmlTemplate.BuiltIn
