import Mathlib.Computability.RegularExpressions
import Mathlib.Tactic.IntervalCases
import XmlTemplate.Proofs.Number.Scan

/-!
# The grammar of numerals

Numerals are the texts that one regular expression matches. A scan takes the longest of them that
its text starts with: it takes nothing else, and it reads every one of them up to its end.
-/

namespace XmlTemplate.Numeral

open RegularExpression

/-- One of some characters. -/
def anyOf (cs : List Char) : RegularExpression Char := (cs.map char).sum

/-- Nothing, or what the expression matches. -/
def optional (r : RegularExpression Char) : RegularExpression Char := 1 + r

def digit : RegularExpression Char := anyOf ['0', '1', '2', '3', '4', '5', '6', '7', '8', '9']

/-- `D+` -/
def someDigits : RegularExpression Char := digit * star digit

/-- `[+-]?` -/
def optionalSign : RegularExpression Char := optional (anyOf ['+', '-'])

/-- `D+(.D*)?|.D+` -/
def mantissa : RegularExpression Char :=
  someDigits * optional (char '.' * star digit) + char '.' * someDigits

/-- `([eE][+-]?D+)?` -/
def optionalExponent : RegularExpression Char :=
  optional (anyOf ['e', 'E'] * (optionalSign * someDigits))

/-- `[+-]?(D+(.D*)?|.D+)([eE][+-]?D+)?` -/
def grammar : RegularExpression Char := optionalSign * (mantissa * optionalExponent)

variable {text : List Char}

theorem mem_char {c : Char} : text ∈ (char c).matches' ↔ text = [c] := by
  rw [matches'_char]
  exact Set.mem_singleton_iff

theorem mem_anyOf {cs : List Char} : text ∈ (anyOf cs).matches' ↔ ∃ c ∈ cs, text = [c] := by
  induction cs with
  | nil => simp [anyOf, Language.notMem_zero]
  | cons c cs ih =>
    have hcons : (anyOf (c :: cs)).matches' = (char c).matches' + (anyOf cs).matches' := rfl
    rw [hcons, Language.mem_add, mem_char, ih]
    simp

theorem mem_optional {r : RegularExpression Char} :
    text ∈ (optional r).matches' ↔ text = [] ∨ text ∈ r.matches' := by
  rw [optional, matches'_add, Language.mem_add, matches'_epsilon, Language.mem_one]

theorem mem_mul {r s : RegularExpression Char} :
    text ∈ (r * s).matches' ↔ ∃ a ∈ r.matches', ∃ b ∈ s.matches', a ++ b = text := by
  rw [matches'_mul, Language.mem_mul]

theorem isDigit_iff {c : Char} :
    c.isDigit = true ↔ c ∈ ['0', '1', '2', '3', '4', '5', '6', '7', '8', '9'] := by
  have hcode : c.isDigit = true ↔ 48 ≤ c.toNat ∧ c.toNat ≤ 57 := by
    simp [Char.isDigit, UInt32.le_iff_toNat_le]
  constructor
  · intro h
    obtain ⟨hlow, hhigh⟩ := hcode.1 h
    rw [← Char.ofNat_toNat c]
    generalize c.toNat = code at hlow hhigh ⊢
    interval_cases code <;> decide
  · intro h
    simp only [List.mem_cons, List.not_mem_nil, or_false] at h
    rcases h with rfl | rfl | rfl | rfl | rfl | rfl | rfl | rfl | rfl | rfl <;> rfl

theorem mem_star_digit : text ∈ (star digit).matches' ↔ AreDigits text := by
  rw [matches'_star, Language.mem_kstar]
  constructor
  · rintro ⟨pieces, rfl, hpieces⟩ c hc
    obtain ⟨piece, hpiece, hc⟩ := List.mem_flatten.1 hc
    obtain ⟨d, hd, rfl⟩ := mem_anyOf.1 (hpieces piece hpiece)
    rw [List.mem_singleton.1 hc]
    exact isDigit_iff.2 hd
  · intro h
    refine ⟨text.map fun c => [c], by simp [← List.flatMap_def], fun piece hpiece => ?_⟩
    obtain ⟨c, hc, rfl⟩ := List.mem_map.1 hpiece
    exact mem_anyOf.2 ⟨c, isDigit_iff.1 (h c hc), rfl⟩

theorem mem_someDigits : text ∈ someDigits.matches' ↔ text ≠ [] ∧ AreDigits text := by
  rw [someDigits, mem_mul]
  constructor
  · rintro ⟨a, ha, b, hb, rfl⟩
    obtain ⟨c, hc, rfl⟩ := mem_anyOf.1 ha
    exact ⟨by simp, by simpa [AreDigits, isDigit_iff.2 hc] using mem_star_digit.1 hb⟩
  · rintro ⟨hne, hdigits⟩
    obtain ⟨c, more, rfl⟩ := List.exists_cons_of_ne_nil hne
    refine ⟨[c], mem_anyOf.2 ⟨c, isDigit_iff.1 (hdigits c List.mem_cons_self), rfl⟩, more,
      mem_star_digit.2 fun d hd => hdigits d (List.mem_cons_of_mem _ hd), rfl⟩

theorem mem_optionalSign :
    text ∈ optionalSign.matches' ↔ ∃ sign, IsSign sign ∧ sign.toList = text := by
  rw [optionalSign, mem_optional, mem_anyOf]
  constructor
  · rintro (rfl | ⟨c, hc, rfl⟩)
    · exact ⟨none, nofun, rfl⟩
    · refine ⟨some c, fun d hd => ?_, rfl⟩
      cases hd
      simpa using hc
  · rintro ⟨_ | c, hsign, rfl⟩
    · exact .inl rfl
    · exact .inr ⟨c, by simpa using hsign c rfl, rfl⟩

theorem mem_mantissa : text ∈ mantissa.matches' ↔ ∃ whole fraction, AreDigits whole ∧
    IsFraction fraction ∧ (whole = [] → ∃ digits, fraction = some digits ∧ digits ≠ []) ∧
      whole ++ fractionText fraction = text := by
  rw [mantissa, matches'_add, Language.mem_add, mem_mul, mem_mul]
  constructor
  · rintro (⟨whole, hwhole, _, hfraction, rfl⟩ | ⟨_, hpoint, digits, hdigits, rfl⟩)
    · obtain ⟨hne, hwhole⟩ := mem_someDigits.1 hwhole
      rcases mem_optional.1 hfraction with rfl | hfraction
      · exact ⟨whole, none, hwhole, nofun, fun h => absurd h hne, rfl⟩
      · obtain ⟨_, hpoint, digits, hdigits, rfl⟩ := mem_mul.1 hfraction
        cases mem_char.1 hpoint
        refine ⟨whole, some digits, hwhole, fun _ heq => ?_, fun h => absurd h hne, rfl⟩
        cases heq
        exact mem_star_digit.1 hdigits
    · cases mem_char.1 hpoint
      obtain ⟨hne, hdigits⟩ := mem_someDigits.1 hdigits
      refine ⟨[], some digits, nofun, fun _ heq => ?_, fun _ => ⟨digits, rfl, hne⟩, rfl⟩
      cases heq
      exact hdigits
  · rintro ⟨whole, fraction, hwhole, hfraction, hdigit, rfl⟩
    by_cases hne : whole = []
    · obtain ⟨digits, rfl, hdigits⟩ := hdigit hne
      subst hne
      exact .inr ⟨_, mem_char.2 rfl, _, mem_someDigits.2 ⟨hdigits, hfraction _ rfl⟩, rfl⟩
    · refine .inl ⟨whole, mem_someDigits.2 ⟨hne, hwhole⟩, _, mem_optional.2 ?_, rfl⟩
      rcases fraction with _ | digits
      · exact .inl rfl
      · exact .inr (mem_mul.2 ⟨_, mem_char.2 rfl, _, mem_star_digit.2 (hfraction _ rfl), rfl⟩)

theorem mem_optionalExponent :
    text ∈ optionalExponent.matches' ↔ ∃ exponent, IsExponent exponent ∧
      exponentText exponent = text := by
  rw [optionalExponent, mem_optional, mem_mul]
  constructor
  · rintro (rfl | ⟨_, hmark, _, hrest, rfl⟩)
    · exact ⟨none, nofun, rfl⟩
    · obtain ⟨mark, hmem, rfl⟩ := mem_anyOf.1 hmark
      obtain ⟨_, h₁, digits, h₂, rfl⟩ := mem_mul.1 hrest
      obtain ⟨sign, hsign, rfl⟩ := mem_optionalSign.1 h₁
      obtain ⟨hne, hdigits⟩ := mem_someDigits.1 h₂
      refine ⟨some (mark, sign, digits), fun _ _ _ heq => ?_, rfl⟩
      cases heq
      exact ⟨by simpa using hmem, hsign, hne, hdigits⟩
  · rintro ⟨_ | ⟨mark, sign, digits⟩, hexponent, rfl⟩
    · exact .inl rfl
    · obtain ⟨hmark, hsign, hne, hdigits⟩ := hexponent _ _ _ rfl
      exact .inr ⟨_, mem_anyOf.2 ⟨mark, by simpa using hmark, rfl⟩, _, mem_mul.2
        ⟨_, mem_optionalSign.2 ⟨sign, hsign, rfl⟩, _, mem_someDigits.2 ⟨hne, hdigits⟩, rfl⟩, rfl⟩

/-- The grammar matches what a written numeral has as its text. -/
theorem mem_grammar : text ∈ grammar.matches' ↔ ∃ n : Numeral, n.IsWritten ∧ n.text = text := by
  rw [grammar, mem_mul]
  constructor
  · rintro ⟨_, h₁, _, hrest, rfl⟩
    obtain ⟨_, h₂, _, h₃, rfl⟩ := mem_mul.1 hrest
    obtain ⟨sign, hsign, rfl⟩ := mem_optionalSign.1 h₁
    obtain ⟨whole, fraction, hwhole, hfraction, hdigit, rfl⟩ := mem_mantissa.1 h₂
    obtain ⟨exponent, hexponent, rfl⟩ := mem_optionalExponent.1 h₃
    exact ⟨⟨sign, whole, fraction, exponent⟩, ⟨hsign, hwhole, hfraction, hexponent, hdigit⟩,
      by simp [text_eq]⟩
  · rintro ⟨n, h, rfl⟩
    refine ⟨_, mem_optionalSign.2 ⟨n.sign, h.sign, rfl⟩, _, mem_mul.2 ⟨_, mem_mantissa.2
      ⟨n.whole, n.fraction, h.whole, h.fraction, h.hasDigit, rfl⟩, _, mem_optionalExponent.2
        ⟨n.exponent, h.exponent, rfl⟩, rfl⟩, by simp [text_eq]⟩

/-! ## The longest numeral at the start -/

/-- A numeral on its own is scanned as it is written. -/
theorem scan?_text {n : Numeral} (h : n.IsWritten) : scan? n.text = some (n, []) := by
  rw [← List.append_nil n.text, scan?_append h, extend_of_not_continues rfl]

/-- The length is that of a numeral at the start, or zero. -/
theorem leadingLength_sound (text : List Char) : leadingLength text = 0 ∨
    ∃ p ∈ grammar.matches', p <+: text ∧ p.length = leadingLength text := by
  unfold leadingLength
  split
  · rename_i n rest hscan
    obtain ⟨hwritten, rfl⟩ := scan?_sound hscan
    exact .inr ⟨n.text, mem_grammar.2 ⟨n, hwritten, rfl⟩, List.prefix_append .., by simp⟩
  · exact .inl rfl

/-- No numeral at the start is longer. -/
theorem length_le_leadingLength {p : List Char} (h : p ∈ grammar.matches') (hp : p <+: text) :
    p.length ≤ leadingLength text := by
  obtain ⟨n, hwritten, rfl⟩ := mem_grammar.1 h
  obtain ⟨rest, rfl⟩ := hp
  have hrest := (extend_suffix n rest).length_le
  simp only [leadingLength, scan?_append hwritten rest, List.length_append]
  omega

example : ["1.", ".5", "+.", "1e", "1e+", "1e+2x", "-1.5E2.5"].map (leadingLength ·.toList)
    = [2, 2, 0, 1, 1, 4, 6] := by decide

/-- Characters that numerals are written with. -/
def alphabet : List Char :=
  ['+', '-', '.', 'e', 'E', '0', '1', '2', '3', '4', '5', '6', '7', '8', '9']

theorem IsSign.subset {sign : Option Char} (h : IsSign sign) : sign.toList ⊆ alphabet := by
  intro c hc
  rcases h c (by simpa using hc) with rfl | rfl <;> decide

theorem AreDigits.subset {digits : List Char} (h : AreDigits digits) : digits ⊆ alphabet :=
  fun c hc => List.mem_append_right ['+', '-', '.', 'e', 'E'] (isDigit_iff.1 (h c hc))

theorem IsFraction.subset {fraction : Option (List Char)} (h : IsFraction fraction) :
    fractionText fraction ⊆ alphabet := by
  rcases fraction with _ | digits
  · exact List.nil_subset _
  · exact List.cons_subset.2 ⟨by decide, (h digits rfl).subset⟩

theorem IsExponent.subset {exponent : Option (Char × Option Char × List Char)}
    (h : IsExponent exponent) : exponentText exponent ⊆ alphabet := by
  rcases exponent with _ | ⟨mark, sign, digits⟩
  · exact List.nil_subset _
  · obtain ⟨hmark, hsign, -, hdigits⟩ := h _ _ _ rfl
    refine List.cons_subset.2 ⟨?_, List.append_subset.2 ⟨hsign.subset, hdigits.subset⟩⟩
    rcases hmark with rfl | rfl <;> decide

theorem IsWritten.subset {n : Numeral} (h : n.IsWritten) : n.text ⊆ alphabet := by
  rw [text_eq]
  exact List.append_subset.2 ⟨h.sign.subset, List.append_subset.2 ⟨h.whole.subset,
    List.append_subset.2 ⟨h.fraction.subset, h.exponent.subset⟩⟩⟩

theorem IsWritten.text_ne_nil {n : Numeral} (h : n.IsWritten) : n.text ≠ [] := by
  rw [text_eq]
  rcases hwhole : n.whole with _ | ⟨c, whole⟩
  · obtain ⟨digits, hfraction, -⟩ := h.hasDigit hwhole
    simp [hfraction]
  · simp

theorem byteSize_of_subset (h : text ⊆ alphabet) : Text.byteSize text = text.length := by
  induction text with
  | nil => rfl
  | cons c text ih =>
    obtain ⟨hc, htext⟩ := List.cons_subset.1 h
    have hall : alphabet.all (fun c => c.utf8Size == 1) = true := by decide
    have hsize : c.utf8Size = 1 := beq_iff_eq.1 (List.all_eq_true.1 hall c hc)
    rw [Text.byteSize, hsize, ih htext, List.length_cons, Nat.add_comm]

end XmlTemplate.Numeral

namespace XmlTemplate

/-! ## Blanks around a text -/

namespace Text

variable {p : Char → Bool}

theorem exists_dropWhileEnd (p : Char → Bool) (text : List Char) :
    ∃ back, (∀ c ∈ back, p c = true) ∧ text = dropWhileEnd p text ++ back := by
  induction text with
  | nil => exact ⟨[], nofun, rfl⟩
  | cons c text ih =>
    obtain ⟨back, hback, htext⟩ := ih
    rw [dropWhileEnd]
    split
    · rename_i hnil
      rw [hnil, List.nil_append] at htext
      split
      · rename_i hc
        exact ⟨c :: back, by simpa [hc] using hback, by rw [List.nil_append, ← htext]⟩
      · exact ⟨back, hback, by rw [← htext]; rfl⟩
    · exact ⟨back, hback, by rw [List.cons_append, ← htext]⟩

theorem dropWhileEnd_of_forall {text : List Char} (h : ∀ c ∈ text, p c = false) :
    dropWhileEnd p text = text := by
  induction text with
  | nil => rfl
  | cons c text ih =>
    rw [dropWhileEnd, ih fun d hd => h d (List.mem_cons_of_mem _ hd)]
    split <;> simp_all

theorem trim_of_forall {text : List Char} (h : ∀ c ∈ text, p c = false) : trim p text = text := by
  have hstart : text.dropWhile p = text := by
    cases text with
    | nil => rfl
    | cons c text => exact List.dropWhile_cons_of_neg (by simp [h])
  rw [trim, hstart, dropWhileEnd_of_forall h]

end Text

/-! ## Texts that are numbers -/

namespace Number

open Numeral

/-- The text without the blanks around it. -/
def bare (s : String) : List Char := Text.trim isBlank s.toList

/-- Value of digits with an optional sign. -/
def signedValue : List Char → Int
  | '+' :: digits => Text.ofDigits digits
  | '-' :: digits => -(Text.ofDigits digits : Int)
  | digits => Text.ofDigits digits

/-- The text has no point and no exponent, and its value is in the range of 64 bits. -/
def IsInteger (text : List Char) : Prop :=
  ('.' ∉ text ∧ 'e' ∉ text ∧ 'E' ∉ text) ∧
    Int64.minValue.toInt ≤ signedValue text ∧ signedValue text ≤ Int64.maxValue.toInt

variable {s : String} {n : Number}

theorem parse?_eq_some_iff :
    parse? s = some n ↔ ∃ m : Numeral, m.IsWritten ∧ m.text = bare s ∧ m.toNumber = n := by
  unfold parse?
  constructor
  · intro h
    split at h
    · rename_i m hscan
      obtain ⟨hwritten, htext⟩ := scan?_sound hscan
      exact ⟨m, hwritten, by rw [bare, ← htext, List.append_nil], Option.some.inj h⟩
    · cases h
  · rintro ⟨m, hwritten, htext, rfl⟩
    rw [← bare, ← htext, scan?_text hwritten]

theorem isBlank_of_mem_alphabet {c : Char} (h : c ∈ alphabet) : isBlank c = false := by
  have hall : alphabet.all (fun c => !isBlank c) = true := by decide
  exact Bool.not_eq_true' _ ▸ List.all_eq_true.1 hall c h

theorem continues_of_isBlank {c : Char} (h : isBlank c = true) : continues c = false := by
  refine Bool.eq_false_iff.2 fun hcontinues => ?_
  have hmem : c ∈ alphabet := by
    simp only [continues, Bool.or_eq_true, beq_iff_eq] at hcontinues
    rcases hcontinues with ((hdigit | rfl) | rfl) | rfl
    · exact List.mem_append_right ['+', '-', '.', 'e', 'E'] (isDigit_iff.1 hdigit)
    all_goals decide
  rw [isBlank_of_mem_alphabet hmem] at h
  cases h

/-- What a text is read as when blanks may surround it is also what it starts with. -/
theorem leading_of_parse? (h : parse? s = some n) : leading s = n := by
  obtain ⟨m, hwritten, htext, rfl⟩ := parse?_eq_some_iff.1 h
  obtain ⟨back, hback, hs⟩ := Text.exists_dropWhileEnd isBlank (s.toList.dropWhile isBlank)
  have hend : back.head?.any continues = false := by
    rcases back with _ | ⟨c, back⟩
    · rfl
    · exact continues_of_isBlank (hback c List.mem_cons_self)
  have hscan : scan? (s.toList.dropWhile isBlank) = some (m, back) := by
    rw [hs, ← Text.trim, ← bare, ← htext, scan?_append hwritten, extend_of_not_continues hend]
  simp [leading, hscan]

/-! ## Integers -/

/-- A point or the letter of an exponent shows that there is such a part. -/
theorem marks_iff {m : Numeral} (h : m.IsWritten) :
    ('.' ∉ m.text ∧ 'e' ∉ m.text ∧ 'E' ∉ m.text) ↔ m.fraction = none ∧ m.exponent = none := by
  rw [text_eq]
  constructor
  · rintro ⟨hpoint, he, hE⟩
    constructor
    · rcases hfraction : m.fraction with _ | digits
      · rfl
      · simp [hfraction] at hpoint
    · rcases hexponent : m.exponent with _ | ⟨mark, sign, digits⟩
      · rfl
      · rcases (h.exponent _ _ _ hexponent).1 with rfl | rfl
        · simp [hexponent] at he
        · simp [hexponent] at hE
  · rintro ⟨hfraction, hexponent⟩
    have hmark (c : Char) (hc : c ∈ ['.', 'e', 'E']) : c ∉ m.sign.toList ++ m.whole := by
      intro hmem
      rcases List.mem_append.1 hmem with hsign | hwhole
      · rcases h.sign c (by simpa using hsign) with rfl | rfl <;> revert hc <;> decide
      · have hdigit := h.whole c hwhole
        have hnone : ['.', 'e', 'E'].all (fun c => !c.isDigit) = true := by decide
        have hnot := List.all_eq_true.1 hnone c hc
        simp [hdigit] at hnot
    simp only [hfraction, hexponent, fractionText_none, exponentText_none, List.append_nil]
    exact ⟨hmark _ (by decide), hmark _ (by decide), hmark _ (by decide)⟩

theorem signedValue_append {sign : Option Char} {digits : List Char} (hsign : IsSign sign)
    (hdigits : AreDigits digits) :
    signedValue (sign.toList ++ digits) = (Numeral.mk sign digits none none).toInt := by
  rcases sign with _ | c
  · rw [Option.toList_none, List.nil_append, signedValue.eq_def]
    split
    · exact absurd (hdigits '+' List.mem_cons_self) (by decide)
    · exact absurd (hdigits '-' List.mem_cons_self) (by decide)
    · rfl
  · rcases hsign c rfl with rfl | rfl <;> rfl

theorem int64?_eq_some_iff {k : Int} {i : Int64} : int64? k = some i ↔ i.toInt = k :=
  ⟨toInt_of_int64?, fun h => h ▸ int64?_toInt i⟩

theorem toNumber_eq_int_iff {m : Numeral} (h : m.IsWritten) {i : Int64} :
    m.toNumber = int i ↔ ('.' ∉ m.text ∧ 'e' ∉ m.text ∧ 'E' ∉ m.text) ∧
      i.toInt = signedValue m.text := by
  rw [marks_iff h]
  obtain ⟨sign, whole, fraction, exponent⟩ := m
  unfold toNumber
  rcases fraction with _ | digits
  · rcases exponent with _ | exponent
    · have hvalue := signedValue_append h.sign h.whole
      simp only [text_eq, fractionText_none, exponentText_none, List.append_nil, hvalue,
        ← int64?_eq_some_iff]
      cases int64? (Numeral.mk sign whole none none).toInt <;> simp
    · simp
  · simp

theorem exists_toInt_iff {k : Int} : (∃ i : Int64, i.toInt = k) ↔
    Int64.minValue.toInt ≤ k ∧ k ≤ Int64.maxValue.toInt := by
  simp only [← int64?_eq_some_iff, int64?]
  split <;> simp_all

/-- The decimal text of an integer as a numeral. -/
def decimal (i : Int64) : Numeral :=
  ⟨if i.toInt < 0 then some '-' else none, Text.digits i.toInt.natAbs, none, none⟩

theorem isWritten_decimal (i : Int64) : (decimal i).IsWritten where
  sign c hc := by
    simp only [decimal] at hc
    split at hc
    · exact .inr (Option.some.inj hc).symm
    · cases hc
  whole c hc := Token.isDigit_of_mem_digits hc
  fraction := nofun
  exponent := nofun
  hasDigit h := absurd h Nat.toDigits_ne_nil

theorem text_decimal (i : Int64) : (decimal i).text = (text (int i)).toList := by
  simp only [text_eq, decimal, text, intText, String.toList_ofList]
  split <;> simp

theorem toInt_decimal (i : Int64) : (decimal i).toInt = i.toInt := by
  simp only [Numeral.toInt, isNegative, decimal, Token.ofDigits_digits]
  by_cases h : i.toInt < 0
  · rw [if_pos h, if_pos (by rfl)]
    omega
  · rw [if_neg h, if_neg (by decide)]
    omega

/-- The decimal text of an integer reads as that integer. -/
theorem parse?_text_int (i : Int64) : parse? (text (int i)) = some (int i) := by
  refine parse?_eq_some_iff.2 ⟨decimal i, isWritten_decimal i, ?_, ?_⟩
  · rw [bare, ← text_decimal, Text.trim_of_forall]
    exact fun c hc => isBlank_of_mem_alphabet ((isWritten_decimal i).subset hc)
  · have hparts : (decimal i).fraction.isNone && (decimal i).exponent.isNone := rfl
    rw [toNumber, if_pos hparts, toInt_decimal, int64?_toInt]

/-- All readers of numbers go by the one grammar. A scan takes the longest prefix that the grammar
matches, of as many bytes as characters. A text is a number if, without the blanks around it, the
grammar matches it as a whole; the number is an integer if there is no point, no exponent and the
value fits into 64 bits; and it is also what the text starts with. The text of an integer is read
as the integer. -/
theorem read_by_grammar :
    (∀ s : String, IsGreatest
      {size | size = 0 ∨ ∃ p ∈ grammar.matches', p <+: s.toList ∧ p.length = size}
      (leadingLength s.toList)) ∧
    (∀ p ∈ grammar.matches', Text.byteSize p = p.length) ∧
    (∀ s : String, (∃ n, parse? s = some n) ↔ bare s ≠ [] ∧ bare s ∈ grammar.matches') ∧
    (∀ (s : String) (n : Number), parse? s = some n →
      ((∃ i, n = int i) ↔ IsInteger (bare s)) ∧
      (∀ i, n = int i → i.toInt = signedValue (bare s)) ∧ leading s = n) ∧
    ∀ i : Int64, parse? (text (int i)) = some (int i) ∧ leading (text (int i)) = int i := by
  refine ⟨fun s => ⟨leadingLength_sound s.toList, ?_⟩, ?_, fun s => ?_, ?_, fun i => ?_⟩
  · rintro size (rfl | ⟨p, hp, hprefix, rfl⟩)
    · exact Nat.zero_le _
    · exact length_le_leadingLength hp hprefix
  · intro p hp
    obtain ⟨n, hwritten, rfl⟩ := mem_grammar.1 hp
    exact byteSize_of_subset hwritten.subset
  · simp only [parse?_eq_some_iff, mem_grammar]
    constructor
    · rintro ⟨n, m, hwritten, htext, rfl⟩
      exact ⟨htext ▸ hwritten.text_ne_nil, m, hwritten, htext⟩
    · rintro ⟨-, m, hwritten, htext⟩
      exact ⟨m.toNumber, m, hwritten, htext, rfl⟩
  · intro s n hparse
    obtain ⟨m, hwritten, htext, rfl⟩ := parse?_eq_some_iff.1 hparse
    refine ⟨?_, fun i hi => ?_, leading_of_parse? hparse⟩
    · simp only [toNumber_eq_int_iff hwritten, exists_and_left, exists_toInt_iff, htext, IsInteger]
    · exact htext ▸ ((toNumber_eq_int_iff hwritten).1 hi).2
  · exact ⟨parse?_text_int i, leading_of_parse? (parse?_text_int i)⟩

/-- An integer between blanks, too large by one for an integer without its sign. -/
theorem read_by_grammar_least :
    parse? " -9223372036854775808\n" = some (int Int64.minValue) ∧
      IsInteger (bare " -9223372036854775808\n") ∧
      leading " -9223372036854775808\n" = int Int64.minValue := by
  have hparse : parse? " -9223372036854775808\n" = some (int Int64.minValue) := by rfl
  have h := read_by_grammar.2.2.2.1 _ _ hparse
  exact ⟨hparse, h.1.1 ⟨_, rfl⟩, h.2.2⟩

end Number

end XmlTemplate
