import Mathlib.Data.List.TakeWhile
import XmlTemplate.Proofs.Expr.Lexeme

/-!
# How far numerals are scanned

A scan takes a numeral off its text that can be written, and nothing else: the numeral and the rest
make up the text. Read in front of more text, a written numeral is not cut short; it goes on with
what the text adds to its last part, with the parts that follow, and with nothing if the text
starts with no character that goes on with a numeral.
-/

namespace XmlTemplate.Numeral

/-! ## Parts as they are written -/

def AreDigits (text : List Char) : Prop := ∀ c ∈ text, c.isDigit = true

def IsSign (sign : Option Char) : Prop := ∀ c, sign = some c → c = '+' ∨ c = '-'

def IsFraction (fraction : Option (List Char)) : Prop := ∀ digits, fraction = some digits →
  AreDigits digits

def IsExponent (exponent : Option (Char × Option Char × List Char)) : Prop :=
  ∀ mark sign digits, exponent = some (mark, sign, digits) →
    (mark = 'e' ∨ mark = 'E') ∧ IsSign sign ∧ digits ≠ [] ∧ AreDigits digits

/-- The parts are written as numerals have them, with a digit before or behind the point. -/
structure IsWritten (n : Numeral) : Prop where
  sign : IsSign n.sign
  whole : AreDigits n.whole
  fraction : IsFraction n.fraction
  exponent : IsExponent n.exponent
  hasDigit : n.whole = [] → ∃ digits, n.fraction = some digits ∧ digits ≠ []

def fractionText (fraction : Option (List Char)) : List Char :=
  (fraction.map ('.' :: ·)).getD []

def exponentText (exponent : Option (Char × Option Char × List Char)) : List Char :=
  (exponent.map fun (mark, sign, digits) => mark :: (sign.toList ++ digits)).getD []

@[simp] theorem fractionText_none : fractionText none = [] := rfl

@[simp] theorem fractionText_some (digits : List Char) :
    fractionText (some digits) = '.' :: digits := rfl

@[simp] theorem exponentText_none : exponentText none = [] := rfl

@[simp] theorem exponentText_some (mark : Char) (sign : Option Char) (digits : List Char) :
    exponentText (some (mark, sign, digits)) = mark :: (sign.toList ++ digits) := rfl

theorem text_eq (n : Numeral) : n.text =
    n.sign.toList ++ (n.whole ++ (fractionText n.fraction ++ exponentText n.exponent)) := by
  simp [text, fractionText, exponentText]

/-! ## What a scan takes -/

theorem areDigits_takeWhile (text : List Char) : AreDigits (text.takeWhile Char.isDigit) :=
  fun _ h => List.mem_takeWhile_imp h

theorem sign?_sound (text : List Char) :
    IsSign (sign? text).1 ∧ (sign? text).1.toList ++ (sign? text).2 = text := by
  unfold sign?
  split <;> simp [IsSign]

theorem fraction?_sound (hasWhole : Bool) (text : List Char) :
    IsFraction (fraction? hasWhole text).1 ∧
      fractionText (fraction? hasWhole text).1 ++ (fraction? hasWhole text).2 = text := by
  unfold fraction?
  split
  · dsimp only
    split
    · simp [IsFraction, areDigits_takeWhile]
    · simp [IsFraction]
  · simp [IsFraction]

/-- A point alone is no fraction where no digit stands before it. -/
theorem fraction?_ne_nil {text digits : List Char} (h : (fraction? false text).1 = some digits) :
    digits ≠ [] := by
  unfold fraction? at h
  split at h
  · dsimp only at h
    split at h
    · rename_i hdigits
      cases h
      simpa using hdigits
    · cases h
  · cases h

theorem exponent?_sound (text : List Char) :
    IsExponent (exponent? text).1 ∧
      exponentText (exponent? text).1 ++ (exponent? text).2 = text := by
  unfold exponent?
  split
  · simp [IsExponent]
  · rename_i mark rest
    have hsign := sign?_sound rest
    dsimp only
    split
    · rename_i h
      simp only [Bool.and_eq_true, Bool.or_eq_true, beq_iff_eq, Bool.not_eq_true',
        List.isEmpty_eq_false_iff] at h
      refine ⟨fun _ _ _ heq => ?_, ?_⟩
      · cases heq
        exact ⟨h.1, hsign.1, h.2, areDigits_takeWhile _⟩
      · simp [hsign.2]
    · simp [IsExponent]

/-- The numeral that is scanned can be written, and with the rest it makes up the text. -/
theorem scan?_sound {text rest : List Char} {n : Numeral} (h : scan? text = some (n, rest)) :
    n.IsWritten ∧ n.text ++ rest = text := by
  rcases hs : sign? text with ⟨sign, unsigned⟩
  rcases hf : fraction? (!(unsigned.takeWhile Char.isDigit).isEmpty)
    (unsigned.dropWhile Char.isDigit) with ⟨fraction, more⟩
  rcases he : exponent? more with ⟨exponent, behind⟩
  have hsign := sign?_sound text
  have hfraction := fraction?_sound (!(unsigned.takeWhile Char.isDigit).isEmpty)
    (unsigned.dropWhile Char.isDigit)
  have hexponent := exponent?_sound more
  simp only [scan?, hs, hf, he] at h hsign hfraction hexponent
  split at h
  · cases h
  · rename_i hdigit
    cases h
    refine ⟨⟨hsign.1, areDigits_takeWhile _, hfraction.1, hexponent.1,
      fun (hwhole : unsigned.takeWhile Char.isDigit = []) => ?_⟩, ?_⟩
    · cases fraction with
      | none => simp [hwhole] at hdigit
      | some digits =>
        rw [hwhole] at hf
        exact ⟨digits, rfl, fraction?_ne_nil (congrArg Prod.fst hf)⟩
    · rw [text_eq, List.append_assoc, List.append_assoc, List.append_assoc, hexponent.2,
        hfraction.2, List.takeWhile_append_dropWhile, hsign.2]

/-! ## Where a scan goes on -/

variable {n : Numeral}

theorem sign?_append {sign : Option Char} {rest : List Char} (h : IsSign sign)
    (hrest : sign = none → '+' ∉ rest.head? ∧ '-' ∉ rest.head?) :
    sign? (sign.toList ++ rest) = (sign, rest) := by
  cases sign with
  | none =>
    simp only [Option.toList_none, List.nil_append, sign?]
    split <;> simp_all
  | some c => rcases h c rfl with rfl | rfl <;> rfl

theorem sign_notMem_head {d : Char} (h : d.isDigit = true) (text : List Char) :
    '+' ∉ (d :: text).head? ∧ '-' ∉ (d :: text).head? := by
  refine ⟨?_, ?_⟩ <;>
  · rintro heq
    cases Option.some.inj heq
    exact absurd h (by decide)

theorem takeWhile_digits {digits : List Char} (h : AreDigits digits) (rest : List Char) :
    (digits ++ rest).takeWhile Char.isDigit = digits ++ rest.takeWhile Char.isDigit :=
  List.takeWhile_append_of_pos h

theorem dropWhile_digits {digits : List Char} (h : AreDigits digits) (rest : List Char) :
    (digits ++ rest).dropWhile Char.isDigit = rest.dropWhile Char.isDigit :=
  List.dropWhile_append_of_pos h

/-- What is read of a numeral that more text follows, and what is left of that text. -/
def extend (n : Numeral) (rest : List Char) : Numeral × List Char :=
  let digits := rest.takeWhile Char.isDigit
  let behind := rest.dropWhile Char.isDigit
  match n.exponent, n.fraction with
  | some (mark, sign, last), _ => ({ n with exponent := some (mark, sign, last ++ digits) }, behind)
  | none, some last =>
    let (exponent, behind) := exponent? behind
    ({ n with fraction := some (last ++ digits), exponent }, behind)
  | none, none =>
    let (fraction, behind) := fraction? true behind
    let (exponent, behind) := exponent? behind
    ({ n with whole := n.whole ++ digits, fraction, exponent }, behind)

theorem fraction?_append {digits : List Char} {hasWhole : Bool}
    (h : IsFraction (some digits)) (hdigit : hasWhole = false → digits ≠ []) (rest : List Char) :
    fraction? hasWhole (fractionText (some digits) ++ rest) =
      (some (digits ++ rest.takeWhile Char.isDigit), rest.dropWhile Char.isDigit) := by
  have hdigits := h digits rfl
  cases hasWhole <;>
    simp_all [fraction?, takeWhile_digits hdigits, dropWhile_digits hdigits]

theorem fraction?_of_ne {text : List Char} (h : '.' ∉ text.head?) (hasWhole : Bool) :
    fraction? hasWhole text = (none, text) := by
  unfold fraction?
  split
  · simp at h
  · rfl

theorem exponent?_append {mark : Char} {sign : Option Char} {digits : List Char}
    (h : IsExponent (some (mark, sign, digits))) (rest : List Char) :
    exponent? (exponentText (some (mark, sign, digits)) ++ rest) =
      (some (mark, sign, digits ++ rest.takeWhile Char.isDigit), rest.dropWhile Char.isDigit) := by
  obtain ⟨hmark, hsign, hne, hdigits⟩ := h _ _ _ rfl
  have hhead : sign = none → '+' ∉ (digits ++ rest).head? ∧ '-' ∉ (digits ++ rest).head? := by
    obtain ⟨d, more, rfl⟩ := List.exists_cons_of_ne_nil hne
    exact fun _ => sign_notMem_head (hdigits d List.mem_cons_self) _
  simp [exponent?, sign?_append hsign hhead, takeWhile_digits hdigits, dropWhile_digits hdigits,
    hmark, hne]

/-- The parts behind the sign start with none. -/
theorem IsWritten.unsigned (h : n.IsWritten) (rest : List Char) :
    '+' ∉ (n.whole ++ (fractionText n.fraction ++ rest)).head? ∧
      '-' ∉ (n.whole ++ (fractionText n.fraction ++ rest)).head? := by
  rcases hwhole : n.whole with _ | ⟨d, more⟩
  · obtain ⟨digits, hdigits, -⟩ := h.hasDigit hwhole
    simp [hdigits]
  · exact sign_notMem_head (h.whole d (by simp [hwhole])) _

/-- The letter of an exponent goes on with neither digits nor a point. -/
theorem IsExponent.mark {mark : Char} {sign : Option Char} {digits : List Char}
    (h : IsExponent (some (mark, sign, digits))) : mark.isDigit = false ∧ mark ≠ '.' := by
  rcases (h _ _ _ rfl).1 with rfl | rfl <;> decide

/-- A written numeral is read up to its end, and goes on with what follows it. -/
theorem scan?_append (h : n.IsWritten) (rest : List Char) :
    scan? (n.text ++ rest) = some (n.extend rest) := by
  have hsign : sign? (n.text ++ rest) =
      (n.sign, n.whole ++ (fractionText n.fraction ++ (exponentText n.exponent ++ rest))) := by
    rw [text_eq, List.append_assoc, List.append_assoc, List.append_assoc]
    exact sign?_append h.sign fun _ => h.unsigned _
  obtain ⟨sign, whole, fraction, exponent⟩ := n
  obtain ⟨-, hwhole, hfraction, hexponent, hdigit⟩ := h
  simp only [scan?, hsign, takeWhile_digits hwhole, dropWhile_digits hwhole]
  rcases fraction with _ | last
  · have hne : whole ≠ [] := fun h => by simpa using hdigit h
    rcases exponent with _ | ⟨mark, expSign, digits⟩
    · have hempty : (whole ++ rest.takeWhile Char.isDigit).isEmpty = false := by simp [hne]
      simp [extend, hempty]
    · have hmark := hexponent.mark
      have hread := exponent?_append hexponent rest
      simp only [exponentText_some, List.cons_append, List.append_assoc] at hread
      simp [extend, hne, hmark, fraction?_of_ne, hread]
  · have hread := @fraction?_append last (!whole.isEmpty) hfraction (by simpa using hdigit)
      (exponentText exponent ++ rest)
    simp only [fractionText_some, List.cons_append] at hread
    rcases exponent with _ | ⟨mark, expSign, digits⟩
    · simp_all [extend]
    · have hmark := hexponent.mark
      have hread' := exponent?_append hexponent rest
      simp only [exponentText_some, List.cons_append, List.append_assoc] at hread'
      simp_all [extend]

theorem fraction?_suffix (hasWhole : Bool) (text : List Char) :
    (fraction? hasWhole text).2 <:+ text := ⟨_, (fraction?_sound hasWhole text).2⟩

theorem exponent?_suffix (text : List Char) : (exponent? text).2 <:+ text :=
  ⟨_, (exponent?_sound text).2⟩

/-- Reading on leaves no more than there was. -/
theorem extend_suffix (n : Numeral) (rest : List Char) : (n.extend rest).2 <:+ rest := by
  have hdigits := List.dropWhile_suffix Char.isDigit (l := rest)
  unfold extend
  split
  · exact hdigits
  · exact (exponent?_suffix _).trans hdigits
  · exact (exponent?_suffix _).trans ((fraction?_suffix _ _).trans hdigits)

/-- Characters that go on with a numeral. -/
def continues (c : Char) : Bool := c.isDigit || c == '.' || c == 'e' || c == 'E'

/-- Reading on takes nothing off a text that does not go on with a numeral. -/
theorem extend_of_not_continues {rest : List Char} (h : rest.head?.any continues = false) :
    n.extend rest = (n, rest) := by
  obtain ⟨sign, whole, fraction, exponent⟩ := n
  rcases rest with _ | ⟨c, rest⟩
  · rcases exponent with _ | ⟨mark, expSign, digits⟩ <;> rcases fraction with _ | last <;>
      simp [extend, fraction?, exponent?]
  · simp only [List.head?_cons, Option.any_some, continues, Bool.or_eq_false_iff,
      beq_eq_false_iff_ne] at h
    rcases exponent with _ | ⟨mark, expSign, digits⟩ <;> rcases fraction with _ | last <;>
      simp [extend, fraction?_of_ne, exponent?, h]

end XmlTemplate.Numeral
