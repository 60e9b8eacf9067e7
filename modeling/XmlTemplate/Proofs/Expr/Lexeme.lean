import XmlTemplate.Proofs.Expr.Closed

/-!
# Tokens of printed expressions

Each token of a printed expression is read back in front of whatever may follow it there: the end,
a blank and an operator, a comma or a closing parenthesis. None of these can be taken for more of
the token.
-/

namespace XmlTemplate

namespace Text

/-- The ranges have no code point in common. -/
def Ranges.apart (ranges other : Ranges) : Bool :=
  ranges.all fun r => other.all fun s => r.2 < s.1 || s.2 < r.1

theorem Ranges.not_covers_of_apart {ranges other : Ranges} (h : ranges.apart other = true)
    {code : Nat} (hcode : ranges.covers code = true) : other.covers code = false := by
  obtain ⟨r, hr, hin⟩ := List.any_eq_true.1 hcode
  refine Bool.eq_false_iff.2 fun hother => ?_
  obtain ⟨s, hs, hin'⟩ := List.any_eq_true.1 hother
  have happart := List.all_eq_true.1 (List.all_eq_true.1 h r hr) s hs
  simp only [Bool.and_eq_true, decide_eq_true_eq, Bool.or_eq_true] at hin hin' happart
  omega

theorem whiteSpace_apart_alphabetic : whiteSpaceRanges.apart alphabeticRanges = true := by
  decide +kernel

/-- The letters of ASCII by their codes. -/
theorem isAlpha_iff {c : Char} : c.isAlpha = true ↔
    (65 ≤ c.toNat ∧ c.toNat ≤ 90) ∨ (97 ≤ c.toNat ∧ c.toNat ≤ 122) := by
  delta Char.isAlpha Char.isUpper Char.isLower
  simp [UInt32.le_iff_toNat_le]

/-- White space is no letter. -/
theorem isWhiteSpace_of_isAlphabetic {c : Char} (h : isAlphabetic c = true) :
    isWhiteSpace c = false := by
  unfold isAlphabetic at h
  unfold isWhiteSpace
  split at h
  · rename_i hascii
    rw [if_pos hascii]
    have hblank : c ≠ ' ' := by
      rintro rfl
      revert h
      decide
    have hcode : 65 ≤ c.toNat := by
      rcases isAlpha_iff.1 h with h | h
      · exact h.1
      · exact Nat.le_trans (by decide) h.1
    simp [hblank]
    omega
  · rename_i hascii
    rw [if_neg hascii]
    refine Bool.eq_false_iff.2 fun hspace => ?_
    rw [Ranges.not_covers_of_apart whiteSpace_apart_alphabetic hspace] at h
    cases h

end Text

namespace Token

theorem continuesName_of_startsName {c : Char} (h : startsName c = true) :
    continuesName c = true := by
  simp only [startsName, Bool.or_eq_true] at h
  simp only [continuesName, Text.isAlphanumeric, Bool.or_eq_true]
  exact h.imp_left .inl

theorem isWhiteSpace_of_startsName {c : Char} (h : startsName c = true) :
    Text.isWhiteSpace c = false := by
  simp only [startsName, Bool.or_eq_true, beq_iff_eq] at h
  rcases h with h | rfl
  · exact Text.isWhiteSpace_of_isAlphabetic h
  · decide

/-! ## What follows a token -/

/-- What a printed expression stands in front of. -/
inductive Ends : List Char → Prop where
  | nil : Ends []
  | close (rest : List Char) : Ends (')' :: rest)
  | comma (rest : List Char) : Ends (',' :: rest)
  | operator (op : BinaryOp) (rest : List Char) : Ends (' ' :: (op.chars ++ ' ' :: rest))

variable {rest : List Char}

/-- The end of an expression starts with none of the characters that go on with a token. -/
theorem Ends.head {p : Char → Bool} (h : Ends rest) (hp : [' ', ')', ','].all (fun c => !p c)) :
    rest.head?.any p = false := by
  simp only [List.all_cons, List.all_nil, Bool.and_true, Bool.and_eq_true, Bool.not_eq_true'] at hp
  cases h <;> simp [hp]

theorem Ends.ne_cons {c : Char} (h : Ends rest) (hc : c ∉ [' ', ')', ',']) (more : List Char) :
    rest ≠ c :: more := by
  simp only [List.mem_cons, List.not_mem_nil, or_false, not_or] at hc
  cases h <;> simp [Ne.symm, *]

/-- A binary operator is no white space and no parenthesis. -/
theorem BinaryOp.exists_chars (op : BinaryOp) :
    ∃ c more, op.chars = c :: more ∧ Text.isWhiteSpace c = false ∧ c ≠ '(' := by
  cases op <;> exact ⟨_, _, rfl, by decide, by decide⟩

/-- Behind blanks there is no parenthesis that would make a name a function. -/
theorem Ends.dropWhile_ne (h : Ends rest) (more : List Char) :
    rest.dropWhile Text.isWhiteSpace ≠ '(' :: more := by
  cases h with
  | nil => nofun
  | close rest =>
    rw [List.dropWhile_cons_of_neg (by decide)]
    simp
  | comma rest =>
    rw [List.dropWhile_cons_of_neg (by decide)]
    simp
  | operator op rest =>
    obtain ⟨c, after, hop, hblank, hparen⟩ := BinaryOp.exists_chars op
    rw [List.dropWhile_cons_of_pos (by decide), hop, List.cons_append,
      List.dropWhile_cons_of_neg (by simp [hblank])]
    simp [hparen]

/-! ## Lexemes -/

variable {total : Nat}

/-- Any other lexeme starts with none of the marks. -/
theorem nextLexeme_eq_otherLexeme {c : Char}
    (h : c ∉ ['(', ')', ',', '+', '-', '*', '=', '!', '<', '>']) :
    nextLexeme total (c :: rest) = otherLexeme total c rest := by
  simp only [List.mem_cons, List.not_mem_nil, or_false, not_or] at h
  unfold nextLexeme
  split <;> simp_all

theorem nextLexeme_string (s : String) :
    nextLexeme total ((Literal.string s).chars ++ rest) = .ok (.string s, rest) := by
  rw [Literal.chars, List.cons_append, nextLexeme_eq_otherLexeme (by decide)]
  simp [otherLexeme, stringBody?_escaped]

theorem takeWhile_append_eq {p : Char → Bool} {name : List Char} (hname : ∀ c ∈ name, p c = true)
    (hrest : rest.head?.any p = false) : (name ++ rest).takeWhile p = name := by
  rw [List.takeWhile_append_of_pos hname]
  cases rest with
  | nil => simp
  | cons c rest => simp_all

theorem dropWhile_append_eq {p : Char → Bool} {name : List Char} (hname : ∀ c ∈ name, p c = true)
    (hrest : rest.head?.any p = false) : (name ++ rest).dropWhile p = rest := by
  rw [List.dropWhile_append_of_pos hname]
  cases rest with
  | nil => simp
  | cons c rest => simp_all

theorem ofDigits_digits (n : Nat) : Text.ofDigits (Text.digits n) = n := by
  have h := Nat.ofDigitChars_ten_toDigits (n := n)
  rw [Nat.ofDigitChars_eq_foldl] at h
  simpa only [Text.ofDigits, Text.digits, Text.digitValue, Nat.mul_comm] using h

theorem isDigit_of_mem_digits {n : Nat} {c : Char} (h : c ∈ Text.digits n) : c.isDigit = true :=
  Nat.isDigit_of_mem_toDigits (by decide) (by decide) h

theorem number_digits {i : Int64} (h : 0 ≤ i.toInt) (hrest : Ends rest) :
    number (Text.digits i.toInt.natAbs ++ rest) = (.number (.int i), rest) := by
  have hdigits : ∀ c ∈ Text.digits i.toInt.natAbs, c.isDigit = true :=
    fun c => isDigit_of_mem_digits
  have hend := hrest.head (p := Char.isDigit) (by decide)
  have hpoint := hrest.ne_cons (c := '.') (by decide)
  have hvalue : (Numeral.mk none (Text.digits i.toInt.natAbs) none none).toNumber = .int i := by
    simp [Numeral.toNumber, Numeral.toInt, Numeral.isNegative, ofDigits_digits,
      Int.natAbs_of_nonneg h, Number.int64?_toInt]
  simp only [number, takeWhile_append_eq hdigits hend, dropWhile_append_eq hdigits hend, hvalue]
  split
  · exact absurd rfl (hpoint _)
  · rfl

theorem nextLexeme_int {i : Int64} (h : 0 ≤ i.toInt) (hrest : Ends rest) :
    nextLexeme total (Text.digits i.toInt.natAbs ++ rest) = .ok (.number (.int i), rest) := by
  have hnumber := number_digits h hrest
  obtain ⟨c, more, hdigits⟩ :=
    List.exists_cons_of_ne_nil (Nat.toDigits_ne_nil (n := i.toInt.natAbs) (b := 10))
  have hc : c.isDigit = true :=
    isDigit_of_mem_digits (n := i.toInt.natAbs) (by simp [Text.digits, hdigits])
  rw [Text.digits, hdigits, List.cons_append] at hnumber ⊢
  rw [nextLexeme_eq_otherLexeme (not_mem_of_apart hc (by decide))]
  have hmarks : c ∉ ['=', '!', '\'', '"'] := not_mem_of_apart hc (by decide)
  simp only [List.mem_cons, List.not_mem_nil, or_false, not_or] at hmarks
  simp [otherLexeme, hmarks, hc, hnumber]

/-! ## Words -/

instance (text : List Char) : Decidable (IsName text) :=
  decidable_of_iff (text ≠ [] ∧ text.all continuesName = true) (by simp [IsName])

instance (text : List Char) : Decidable (IsWord text) :=
  inferInstanceAs (Decidable (_ ∧ _))

/-- A digit starts no name. -/
theorem startsName_of_isDigit {c : Char} (h : c.isDigit = true) : startsName c = false := by
  have hcode : 48 ≤ c.toNat ∧ c.toNat ≤ 57 := by
    simpa [Char.isDigit, UInt32.le_iff_toNat_le] using h
  have hline : c ≠ '_' := by
    rintro rfl
    exact absurd hcode (by decide)
  have halpha : c.isAlpha = false := by
    rw [← Bool.not_eq_true, Text.isAlpha_iff]
    omega
  have hascii : c.toNat < 0x80 := by omega
  simp [startsName, Text.isAlphabetic, hascii, halpha, hline]

theorem nextLexeme_word {name : List Char} (h : IsWord name) :
    nextLexeme total (name ++ rest) = word total (name ++ rest) := by
  obtain ⟨⟨hname, -⟩, hhead⟩ := h
  obtain ⟨c, more, rfl⟩ := List.exists_cons_of_ne_nil hname
  have hstart : startsName c = true := by simpa using hhead
  have hdigit : c.isDigit = false := by
    refine Bool.eq_false_iff.2 fun hdigit => ?_
    rw [startsName_of_isDigit hdigit] at hstart
    cases hstart
  have hmarks : c ∉ ['=', '!', '\'', '"', '/', '.', '['] := not_mem_of_apart hstart (by decide)
  simp only [List.mem_cons, List.not_mem_nil, or_false, not_or] at hmarks
  rw [List.cons_append, nextLexeme_eq_otherLexeme (not_mem_of_apart hstart (by decide))]
  simp [otherLexeme, hmarks, hdigit, hstart]

variable {name : List Char}

theorem word_keyword {l : Lexeme} (h : IsName name) (hkeyword : keyword? name = some l)
    (hend : rest.head?.any continuesName = false) (hslash : rest.head? ≠ some '/') :
    word total (name ++ rest) = .ok (l, rest) := by
  simp [word, takeWhile_append_eq h.2 hend, dropWhile_append_eq h.2 hend, hkeyword, hslash]

theorem word_function (h : IsName name) (hkeyword : keyword? name = none) :
    word total (name ++ '(' :: rest) = .ok (.function (String.ofList name), rest) := by
  have hend : ('(' :: rest).head?.any continuesName = false := by
    have hparen : continuesName '(' = false := by decide
    simp [hparen]
  have hblank : ('(' :: rest).dropWhile Text.isWhiteSpace = '(' :: rest :=
    List.dropWhile_cons_of_neg (by decide)
  simp [word, takeWhile_append_eq h.2 hend, dropWhile_append_eq h.2 hend, hkeyword, hblank]

/-- A name in front of a slash starts a path. -/
theorem word_slash (h : IsName name) :
    word total (name ++ '/' :: rest) = pathLexeme total (name ++ '/' :: rest) := by
  have hend : ('/' :: rest).head?.any continuesName = false := by
    have hslash : continuesName '/' = false := by decide
    simp [hslash]
  simp [word, dropWhile_append_eq h.2 hend]

/-- A name of its own is a path. -/
theorem word_alone (h : IsName name) (hkeyword : keyword? name = none) (hrest : Ends rest) :
    word total (name ++ rest) = pathLexeme total (name ++ rest) := by
  have hend := hrest.head (p := continuesName) (by decide)
  simp only [word, takeWhile_append_eq h.2 hend, dropWhile_append_eq h.2 hend, hkeyword]
  split
  · rfl
  · split
    · rename_i hparen
      exact absurd hparen (hrest.dropWhile_ne _)
    · rfl

theorem nextLexeme_literal {v : Literal} (h : v.Printable) (hrest : Ends rest) :
    nextLexeme total (v.chars ++ rest) = .ok (v.lexeme, rest) := by
  have hend := hrest.head (p := continuesName) (by decide)
  have hslash : rest.head? ≠ some '/' := by
    have h := hrest.ne_cons (c := '/') (by decide)
    cases rest <;> simp_all
  cases v with
  | null =>
    have hword : IsWord (Literal.null).chars := by decide
    rw [nextLexeme_word hword, word_keyword hword.1 rfl hend hslash]
    rfl
  | bool b =>
    cases b with
    | true =>
      have hword : IsWord (Literal.bool true).chars := by decide
      rw [nextLexeme_word hword, word_keyword hword.1 rfl hend hslash]
      rfl
    | false =>
      have hword : IsWord (Literal.bool false).chars := by decide
      rw [nextLexeme_word hword, word_keyword hword.1 rfl hend hslash]
      rfl
  | number n =>
    cases n with
    | int i =>
      rw [Literal.chars, Number.toList_text_int h, nextLexeme_int h hrest]
      rfl
    | float f => exact h.elim
  | string s =>
    rw [nextLexeme_string]
    rfl

/-- A keyword that a blank follows. -/
theorem nextLexeme_keyword {l : Lexeme} (h : IsWord name) (hkeyword : keyword? name = some l) :
    nextLexeme total (name ++ ' ' :: rest) = .ok (l, ' ' :: rest) := by
  rw [nextLexeme_word h, word_keyword h.1 hkeyword]
  · have hblank : continuesName ' ' = false := by decide
    simp [hblank]
  · simp

theorem nextLexeme_operator (op : BinaryOp) :
    nextLexeme total (op.chars ++ ' ' :: rest) = .ok (op.lexeme, ' ' :: rest) := by
  cases op with
  | div | mod | and | or => exact nextLexeme_keyword (by decide) rfl
  | _ => rfl

/-! ## Texts that are cut into lexemes -/

theorem isDigit_of_isWhiteSpace {c : Char} (h : Text.isWhiteSpace c = true) :
    c.isDigit = false := by
  refine Bool.eq_false_iff.2 fun hdigit => ?_
  have hcode : 48 ≤ c.toNat ∧ c.toNat ≤ 57 := by
    simpa [Char.isDigit, UInt32.le_iff_toNat_le] using hdigit
  have hascii : c.toNat < 0x80 := by omega
  simp only [Text.isWhiteSpace, if_pos hascii, Bool.or_eq_true, beq_iff_eq, Bool.and_eq_true,
    decide_eq_true_eq] at h
  rcases h with rfl | h
  · exact absurd hcode (by decide)
  · omega

/-- No lexeme starts with white space. -/
theorem isWhiteSpace_of_nextLexeme {c : Char} {text : List Char} {result : Lexeme × List Char}
    (h : nextLexeme total (c :: text) = .ok result) : Text.isWhiteSpace c = false := by
  refine Bool.eq_false_iff.2 fun hblank => ?_
  have hstart : startsName c = false := by
    refine Bool.eq_false_iff.2 fun hstart => ?_
    rw [isWhiteSpace_of_startsName hstart] at hblank
    cases hblank
  have hmarks : c ∉ ['=', '!', '\'', '"', '/', '.', '['] := not_mem_of_apart hblank (by decide)
  simp only [List.mem_cons, List.not_mem_nil, or_false, not_or] at hmarks
  rw [nextLexeme_eq_otherLexeme (not_mem_of_apart hblank (by decide))] at h
  simp [otherLexeme, hmarks, isDigit_of_isWhiteSpace hblank, hstart] at h

/-- The text up to `rest` is cut into the lexemes, in a text of `total` bytes. -/
inductive Reads (total : Nat) (rest : List Char) : List Char → List Lexeme → Prop where
  | done : Reads total rest rest []
  | blank {c : Char} {text : List Char} {ls : List Lexeme} (hc : Text.isWhiteSpace c = true)
      (h : Reads total rest text ls) : Reads total rest (c :: text) ls
  | lexeme {text after : List Char} {l : Lexeme} {ls : List Lexeme}
      (hnext : nextLexeme total text = .ok (l, after)) (h : Reads total rest after ls) :
      Reads total rest text (l :: ls)

theorem Reads.append {middle text : List Char} {ls ls' : List Lexeme}
    (h : Reads total middle text ls) (k : Reads total rest middle ls') :
    Reads total rest text (ls ++ ls') := by
  induction h with
  | done => exact k
  | blank hc _ ih => exact .blank hc ih
  | lexeme hnext _ ih => exact .lexeme hnext ih

theorem scanFrom_blank {c : Char} (hc : Text.isWhiteSpace c = true) (text : List Char) :
    scanFrom total (c :: text) = scanFrom total text := by
  have hdrop : (c :: text).dropWhile Text.isWhiteSpace = text.dropWhile Text.isWhiteSpace :=
    List.dropWhile_cons_of_pos hc
  rw [scanFrom, scanFrom.eq_def total text, hdrop]

theorem scanFrom_lexeme {text after : List Char} {l : Lexeme} {tokens : List Token}
    (hnext : nextLexeme total text = .ok (l, after)) (h : scanFrom total after = .ok tokens) :
    scanFrom total text = .ok (⟨l, offsetOf total text⟩ :: tokens) := by
  have hblank : text.dropWhile Text.isWhiteSpace = text := by
    cases text with
    | nil => rfl
    | cons c text => exact List.dropWhile_cons_of_neg (by simp [isWhiteSpace_of_nextLexeme hnext])
  rw [scanFrom]
  split
  · rename_i hnil
    rw [hblank] at hnil
    subst hnil
    cases hnext
  · rename_i d more hcons
    rw [hblank] at hcons
    subst hcons
    split
    · rename_i herror
      rw [hnext] at herror
      cases herror
    · rename_i found rest hfound
      rw [hnext] at hfound
      cases hfound
      rw [h]

/-- A text that is cut into lexemes is scanned into them. -/
theorem Reads.exists_scanFrom {text : List Char} {ls : List Lexeme} (h : Reads total [] text ls) :
    ∃ tokens, scanFrom total text = .ok tokens ∧ tokens.map Token.lexeme = ls := by
  induction h with
  | done => exact ⟨[], by rw [scanFrom]; rfl, rfl⟩
  | blank hc _ ih =>
    obtain ⟨tokens, hscan, htokens⟩ := ih
    exact ⟨tokens, by rw [scanFrom_blank hc, hscan], htokens⟩
  | lexeme hnext _ ih =>
    obtain ⟨tokens, hscan, htokens⟩ := ih
    exact ⟨_, scanFrom_lexeme hnext hscan, by rw [List.map_cons, htokens]⟩

end Token

end XmlTemplate
