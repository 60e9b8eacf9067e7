import XmlTemplate.Text.Property

/-!
# Text as lists of characters

Cutting, searching and replacing in a list of characters, and its size in UTF-8. Every
function is a structural recursion on the text; `String` stays the type of stored text.
-/

namespace XmlTemplate.Text

-- ---------------------------------------------------------------------------
-- Size
-- ---------------------------------------------------------------------------

/-- Number of bytes of the text in UTF-8. -/
def byteSize : List Char → Nat
  | [] => 0
  | c :: rest => c.utf8Size + byteSize rest

@[simp] theorem byteSize_append (s t : List Char) :
    byteSize (s ++ t) = byteSize s + byteSize t := by
  induction s with
  | nil => simp [byteSize]
  | cons c s ih => simp [byteSize, ih, Nat.add_assoc]

-- ---------------------------------------------------------------------------
-- Searching
-- ---------------------------------------------------------------------------

/-- What follows `lead`, when the text starts with it. -/
def after? : (lead : List Char) → (text : List Char) → Option (List Char)
  | [], text => some text
  | _ :: _, [] => none
  | p :: lead, c :: text => if p = c then after? lead text else none

theorem after?_eq_some_iff {lead text rest : List Char} :
    after? lead text = some rest ↔ text = lead ++ rest := by
  induction lead generalizing text with
  | nil => simp [after?]
  | cons p lead ih =>
    cases text with
    | nil => simp [after?]
    | cons c text =>
      by_cases h : p = c
      · simp [after?, h, ih]
      · simp [after?, h, Ne.symm h]

/-- Put a character in front of the first of two parts. -/
def consFirst (c : Char) (parts : Option (List Char × List Char)) :
    Option (List Char × List Char) :=
  parts.map fun (before, rest) => (c :: before, rest)

theorem consFirst_eq_some_iff {c : Char} {parts : Option (List Char × List Char)}
    {before rest : List Char} :
    consFirst c parts = some (before, rest) ↔ ∃ b, parts = some (b, rest) ∧ before = c :: b := by
  cases parts with
  | none => simp [consFirst]
  | some p =>
    obtain ⟨b, r⟩ := p
    simp only [consFirst, Option.map_some, Option.some.injEq, Prod.mk.injEq]
    constructor
    · rintro ⟨rfl, rfl⟩
      exact ⟨b, ⟨rfl, rfl⟩, rfl⟩
    · rintro ⟨_, ⟨rfl, rfl⟩, rfl⟩
      exact ⟨rfl, rfl⟩

/-- The text before and after the first occurrence of `mark`. -/
def cut? (mark : List Char) : List Char → Option (List Char × List Char)
  | [] => if mark = [] then some ([], []) else none
  | c :: text =>
    match after? mark (c :: text) with
    | some rest => some ([], rest)
    | none => consFirst c (cut? mark text)

theorem eq_append_of_cut? {mark text before rest : List Char}
    (h : cut? mark text = some (before, rest)) : text = before ++ mark ++ rest := by
  induction text generalizing before rest with
  | nil =>
    by_cases hm : mark = []
    · simp_all [cut?]
    · simp [cut?, hm] at h
  | cons c text ih =>
    rw [cut?] at h
    split at h
    · rename_i rest' hr
      simp only [Option.some.injEq, Prod.mk.injEq] at h
      obtain ⟨rfl, rfl⟩ := h
      simpa using after?_eq_some_iff.1 hr
    · obtain ⟨b, hb, rfl⟩ := consFirst_eq_some_iff.1 h
      simp [ih hb]

/-- The text holds `mark` somewhere. -/
def holds (mark text : List Char) : Bool :=
  (cut? mark text).isSome

-- ---------------------------------------------------------------------------
-- Cutting at characters
-- ---------------------------------------------------------------------------

/-- Pieces between the characters that satisfy `p`; always at least one. -/
def splitAt (p : Char → Bool) : List Char → List (List Char)
  | [] => [[]]
  | c :: text =>
    if p c then [] :: splitAt p text
    else match splitAt p text with
      | [] => [[c]]
      | piece :: pieces => (c :: piece) :: pieces

/-- The text before and after the first character that satisfies `p`. -/
def cutAt? (p : Char → Bool) : List Char → Option (List Char × List Char)
  | [] => none
  | c :: text =>
    if p c then some ([], text)
    else consFirst c (cutAt? p text)

theorem cutAt?_append {p : Char → Bool} {c : Char} {before : List Char}
    (hbefore : ∀ d ∈ before, p d = false) (hc : p c) (rest : List Char) :
    cutAt? p (before ++ c :: rest) = some (before, rest) := by
  induction before with
  | nil => exact if_pos hc
  | cons d before ih =>
    rw [List.forall_mem_cons] at hbefore
    rw [List.cons_append, cutAt?, ih hbefore.2, hbefore.1]
    rfl

theorem of_cutAt? {p : Char → Bool} {text before rest : List Char}
    (h : cutAt? p text = some (before, rest)) :
    ∃ c, p c ∧ text = before ++ c :: rest ∧ ∀ d ∈ before, p d = false := by
  induction text generalizing before with
  | nil => cases h
  | cons d text ih =>
    rw [cutAt?] at h
    split at h
    · rename_i hd
      cases h
      exact ⟨d, hd, rfl, nofun⟩
    · rename_i hd
      obtain ⟨b, hb, rfl⟩ := consFirst_eq_some_iff.1 h
      obtain ⟨c, hc, rfl, hbefore⟩ := ih hb
      exact ⟨c, hc, rfl, List.forall_mem_cons.2 ⟨Bool.eq_false_iff.2 hd, hbefore⟩⟩

/-- The text before and after the last character that satisfies `p`. -/
def cutAtLast? (p : Char → Bool) : List Char → Option (List Char × List Char)
  | [] => none
  | c :: text =>
    match cutAtLast? p text with
    | some (before, rest) => some (c :: before, rest)
    | none => if p c then some ([], text) else none

/-- Drop the characters that satisfy `p` at the end. -/
def dropWhileEnd (p : Char → Bool) : List Char → List Char
  | [] => []
  | c :: text =>
    match dropWhileEnd p text with
    | [] => if p c then [] else [c]
    | rest => c :: rest

/-- Drop the characters that satisfy `p` on both sides. -/
def trim (p : Char → Bool) (text : List Char) : List Char :=
  dropWhileEnd p (text.dropWhile p)

-- ---------------------------------------------------------------------------
-- Digits
-- ---------------------------------------------------------------------------

/-- Value of an ASCII digit. -/
def digitValue (c : Char) : Nat := c.toNat - '0'.toNat

/-- The number that a run of ASCII digits spells, `0` for the empty run. -/
def ofDigits (digits : List Char) : Nat :=
  digits.foldl (fun n c => n * 10 + digitValue c) 0

/-- Decimal digits of a number. -/
def digits (n : Nat) : List Char := Nat.toDigits 10 n

/-- Decimal digits, with zeros in front up to `width` characters. -/
def padded (width n : Nat) : List Char :=
  List.replicate (width - (digits n).length) '0' ++ digits n

/-- Value of a hexadecimal digit of either case. -/
def hexValue? (c : Char) : Option Nat :=
  if c.isDigit then some (digitValue c)
  else if 'a' ≤ c ∧ c ≤ 'f' then some (c.toNat - 'a'.toNat + 10)
  else if 'A' ≤ c ∧ c ≤ 'F' then some (c.toNat - 'A'.toNat + 10)
  else none

end XmlTemplate.Text
