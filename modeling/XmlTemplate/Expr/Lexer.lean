import XmlTemplate.Number.Numeral
import XmlTemplate.Expr.Syntax

/-!
# Tokens of expressions

Cutting an expression into tokens. A place in the text is given by what remains of it, so its
byte offset is the size of the whole less the size of the rest. The main function is
`Token.scan`; the lemmas show that every token takes at least one character.
-/

namespace XmlTemplate

/-- A segment of a path as written. -/
inductive RawSegment where
  | root
  | current
  | parent
  | name (key : String)
  /-- The text between brackets, with its offset. -/
  | dynamic (source : List Char) (offset : Nat)
  deriving Repr, DecidableEq

/-- A unit of expression text. -/
inductive Lexeme where
  | number (value : Number)
  | string (value : String)
  | true
  | false
  | null
  | path (segments : List RawSegment)
  /-- A name and the parenthesis after it. -/
  | function (name : String)
  | openParen
  | closeParen
  | comma
  | plus
  | minus
  | star
  | div
  | mod
  | eq
  | ne
  | lt
  | le
  | gt
  | ge
  | and
  | or
  | not
  deriving DecidableEq

/-- A lexeme and the byte offset of its first character. -/
structure Token where
  lexeme : Lexeme
  offset : Nat
  deriving DecidableEq

namespace Token

/-- Offset of the place where `rest` remains of a text of `total` bytes. -/
def offsetOf (total : Nat) (rest : List Char) : Nat := total - Text.byteSize rest

/-- Letters and the underscore start a name. -/
def startsName (c : Char) : Bool := Text.isAlphabetic c || c == '_'

/-- Letters, numbers and the underscore continue a name. -/
def continuesName (c : Char) : Bool := Text.isAlphanumeric c || c == '_'

/-- The text starts with a segment of a path. -/
def startsSegment : List Char → Bool
  | c :: _ => continuesName c || c == '.' || c == '['
  | [] => false

/-- Words with a meaning of their own. -/
def keyword? (word : List Char) : Option Lexeme :=
  match String.ofList word with
  | "true" => some .true
  | "false" => some .false
  | "null" => some .null
  | "and" => some .and
  | "or" => some .or
  | "not" => some .not
  | "div" => some .div
  | "mod" => some .mod
  | "gt" => some .gt
  | "gte" => some .ge
  | "lt" => some .lt
  | "lte" => some .le
  | _ => none

-- ---------------------------------------------------------------------------
-- Strings and numbers
-- ---------------------------------------------------------------------------

/-- The text of a string up to its closing quote, and the rest. A backslash escapes the quote
and itself, and stands for itself before all other characters. -/
def stringBody? (quote : Char) : List Char → Option (List Char × List Char)
  | [] => none
  | c :: rest =>
    if c = quote then some ([], rest)
    else if c = '\\' then
      match rest with
      | [] => none
      | d :: more =>
        if d = quote ∨ d = '\\' then
          Text.consFirst d (stringBody? quote more)
        else Text.consFirst c (Text.consFirst d (stringBody? quote more))
    else Text.consFirst c (stringBody? quote rest)

/-- Digits, with a fraction if a point and a digit follow. Integers that do not fit into 64 bits
are floats. -/
def number (text : List Char) : Lexeme × List Char :=
  let whole := text.takeWhile Char.isDigit
  let rest := text.dropWhile Char.isDigit
  let numeral (fraction : Option (List Char)) := Numeral.toNumber ⟨none, whole, fraction, none⟩
  match rest with
  | '.' :: d :: more =>
    if d.isDigit then
      (.number (numeral (some ((d :: more).takeWhile Char.isDigit))),
        (d :: more).dropWhile Char.isDigit)
    else (.number (numeral none), rest)
  | _ => (.number (numeral none), rest)

-- ---------------------------------------------------------------------------
-- Paths
-- ---------------------------------------------------------------------------

/-- The text up to the bracket that closes `depth + 1` open ones, and the rest. Brackets in quoted
strings do not count. -/
def bracketBody? (depth : Nat) (quote : Option Char) : List Char → Option (List Char × List Char)
  | [] => none
  | c :: rest =>
    match quote with
    | some q =>
      if c = q then Text.consFirst c (bracketBody? depth none rest)
      else if c = '\\' then
        match rest with
        | [] => none
        | d :: more =>
          Text.consFirst c (Text.consFirst d (bracketBody? depth quote more))
      else Text.consFirst c (bracketBody? depth quote rest)
    | none =>
      if c = '\'' ∨ c = '"' then Text.consFirst c (bracketBody? depth (some c) rest)
      else if c = '[' then Text.consFirst c (bracketBody? (depth + 1) none rest)
      else if c = ']' then
        match depth with
        | 0 => some ([], rest)
        | outer + 1 => Text.consFirst c (bracketBody? outer none rest)
      else Text.consFirst c (bracketBody? depth none rest)

/-- A segment of a path, and the rest. -/
def segment (total : Nat) : List Char → Except SyntaxError (RawSegment × List Char)
  | '.' :: '.' :: rest => .ok (.parent, rest)
  | '.' :: rest => .ok (.current, rest)
  | '[' :: rest =>
    match bracketBody? 0 none rest with
    | some (source, after) => .ok (.dynamic source (offsetOf total rest), after)
    | none => .error ⟨offsetOf total ('[' :: rest), .unterminatedBracket⟩
  | c :: rest =>
    if continuesName c then
      .ok (.name (String.ofList (c :: rest.takeWhile continuesName)), rest.dropWhile continuesName)
    else .error ⟨offsetOf total (c :: rest), .expectedSegment⟩
  | [] => .error ⟨offsetOf total [], .expectedSegment⟩

theorem length_dropWhile_le (p : Char → Bool) (text : List Char) :
    (text.dropWhile p).length ≤ text.length :=
  (List.dropWhile_suffix p).length_le

theorem length_of_bracketBody? {depth : Nat} {quote : Option Char} {text body rest : List Char}
    (h : bracketBody? depth quote text = some (body, rest)) : rest.length < text.length := by
  fun_induction bracketBody? depth quote text generalizing body <;>
    grind [Text.consFirst_eq_some_iff]

theorem length_of_segment {total : Nat} {text rest : List Char} {s : RawSegment}
    (h : segment total text = .ok (s, rest)) : rest.length < text.length := by
  unfold segment at h
  split at h
  · simp only [Except.ok.injEq, Prod.mk.injEq] at h
    obtain ⟨-, rfl⟩ := h
    simp only [List.length_cons]
    omega
  · simp only [Except.ok.injEq, Prod.mk.injEq] at h
    obtain ⟨-, rfl⟩ := h
    simp
  · split at h
    · rename_i hb
      simp only [Except.ok.injEq, Prod.mk.injEq] at h
      obtain ⟨-, rfl⟩ := h
      have := length_of_bracketBody? hb
      simp only [List.length_cons]
      omega
    · cases h
  · split at h
    · simp only [Except.ok.injEq, Prod.mk.injEq] at h
      obtain ⟨-, rfl⟩ := h
      have := length_dropWhile_le continuesName (by assumption)
      simp only [List.length_cons]
      omega
    · cases h
  · cases h

/-- Segments joined by slashes, and the rest. -/
def segments (total : Nat) (text : List Char) :
    Except SyntaxError (List RawSegment × List Char) :=
  match _h : segment total text with
  | .error e => .error e
  | .ok (first, '/' :: more) =>
    if startsSegment more then
      match segments total more with
      | .error e => .error e
      | .ok (others, after) => .ok (first :: others, after)
    else .error ⟨offsetOf total more, .expectedSegmentAfterSlash⟩
  | .ok (first, rest) => .ok ([first], rest)
termination_by text.length
decreasing_by
  have := length_of_segment _h
  simp only [List.length_cons] at this
  omega

/-- A path; a slash in front starts at the root and may stand alone. -/
def path (total : Nat) (text : List Char) : Except SyntaxError (List RawSegment × List Char) :=
  match text with
  | '/' :: rest =>
    if startsSegment rest then
      match segments total rest with
      | .error e => .error e
      | .ok (others, after) => .ok (.root :: others, after)
    else .ok ([.root], rest)
  | _ => segments total text

/-- A path as a lexeme. -/
def pathLexeme (total : Nat) (text : List Char) : Except SyntaxError (Lexeme × List Char) :=
  match path total text with
  | .error e => .error e
  | .ok (segments, rest) => .ok (.path segments, rest)

/-- A keyword, the name of a function, or a path that starts with a name. -/
def word (total : Nat) (text : List Char) : Except SyntaxError (Lexeme × List Char) :=
  let name := text.takeWhile continuesName
  let rest := text.dropWhile continuesName
  if rest.head? = some '/' then pathLexeme total text
  else
    match keyword? name with
    | some keyword => .ok (keyword, rest)
    | none =>
      match rest.dropWhile Text.isWhiteSpace with
      | '(' :: after => .ok (.function (String.ofList name), after)
      | _ => pathLexeme total text

-- ---------------------------------------------------------------------------
-- Tokens
-- ---------------------------------------------------------------------------

/-- A string, number, path or word, and the rest of a text that starts with `c`. -/
def otherLexeme (total : Nat) (c : Char) (rest : List Char) :
    Except SyntaxError (Lexeme × List Char) :=
  let text := c :: rest
  if c = '=' ∨ c = '!' then .error ⟨offsetOf total text, .unexpectedMark c⟩
  else if c = '\'' ∨ c = '"' then
    match stringBody? c rest with
    | some (value, after) => .ok (.string (String.ofList value), after)
    | none => .error ⟨offsetOf total text, .unterminatedString⟩
  else if c.isDigit ∨ (c = '.' ∧ rest.head?.any Char.isDigit) then .ok (number text)
  else if c = '/' ∨ c = '.' ∨ c = '[' then pathLexeme total text
  else if startsName c then word total text
  else .error ⟨offsetOf total text, .unexpectedCharacter c⟩

/-- The lexeme that a text starts with, and the rest. -/
def nextLexeme (total : Nat) (text : List Char) : Except SyntaxError (Lexeme × List Char) :=
  match text with
  | [] => .error ⟨offsetOf total [], .unexpectedEnd⟩
  | '(' :: rest => .ok (.openParen, rest)
  | ')' :: rest => .ok (.closeParen, rest)
  | ',' :: rest => .ok (.comma, rest)
  | '+' :: rest => .ok (.plus, rest)
  | '-' :: rest => .ok (.minus, rest)
  | '*' :: rest => .ok (.star, rest)
  | '=' :: '=' :: rest => .ok (.eq, rest)
  | '!' :: '=' :: rest => .ok (.ne, rest)
  | '<' :: '=' :: rest => .ok (.le, rest)
  | '>' :: '=' :: rest => .ok (.ge, rest)
  | '<' :: rest => .ok (.lt, rest)
  | '>' :: rest => .ok (.gt, rest)
  | c :: rest => otherLexeme total c rest

theorem length_of_stringBody? {quote : Char} {text body rest : List Char}
    (h : stringBody? quote text = some (body, rest)) : rest.length < text.length := by
  fun_induction stringBody? quote text generalizing body <;>
    grind [Text.consFirst_eq_some_iff]

theorem length_of_segments {total : Nat} {text rest : List Char} {found : List RawSegment}
    (h : segments total text = .ok (found, rest)) : rest.length < text.length := by
  fun_induction segments total text generalizing found with
  | case1 => cases h
  | case2 => cases h
  | case3 | case4 | case5 =>
    have := length_of_segment ‹segment _ _ = _›
    grind

theorem length_of_pathLexeme {total : Nat} {text rest : List Char} {l : Lexeme}
    (h : pathLexeme total text = .ok (l, rest)) : rest.length < text.length := by
  unfold pathLexeme at h
  split at h
  · cases h
  · rename_i hp
    simp only [Except.ok.injEq, Prod.mk.injEq] at h
    obtain ⟨-, rfl⟩ := h
    unfold path at hp
    split at hp
    · split at hp
      · split at hp
        · cases hp
        · rename_i hs
          simp only [Except.ok.injEq, Prod.mk.injEq] at hp
          obtain ⟨-, rfl⟩ := hp
          have := length_of_segments hs
          simp only [List.length_cons]
          omega
      · simp only [Except.ok.injEq, Prod.mk.injEq] at hp
        obtain ⟨-, rfl⟩ := hp
        simp
    · exact length_of_segments hp

theorem length_of_number (text : List Char) (h : ∃ c rest, text = c :: rest ∧
    (c.isDigit ∨ (c = '.' ∧ rest.head?.any Char.isDigit))) :
    (number text).2.length < text.length := by
  obtain ⟨c, rest, rfl, hc⟩ := h
  unfold number
  by_cases hd : c.isDigit
  · have hdrop : (c :: rest).dropWhile Char.isDigit = rest.dropWhile Char.isDigit := by
      simp [hd]
    have hle := length_dropWhile_le Char.isDigit rest
    simp only [hdrop]
    split
    · rename_i d more hm
      have hle' := hle
      rw [hm] at hle'
      have := length_dropWhile_le Char.isDigit (d :: more)
      split <;> simp only [List.length_cons] at * <;> omega
    · simp only [List.length_cons]; omega
  · obtain ⟨hdot, hhead⟩ := hc.resolve_left hd
    subst hdot
    cases rest with
    | nil => simp at hhead
    | cons d more =>
      have hd' : d.isDigit := by simpa using hhead
      have hdrop : ('.' :: d :: more).dropWhile Char.isDigit = '.' :: d :: more := by
        simp [hd]
      simp only [hdrop, hd', if_true]
      have := length_dropWhile_le Char.isDigit (d :: more)
      simp only [List.length_cons] at *
      omega

theorem length_of_word {total : Nat} {text rest : List Char} {l : Lexeme}
    (hc : ∃ c more, text = c :: more ∧ startsName c)
    (h : word total text = .ok (l, rest)) : rest.length < text.length := by
  obtain ⟨c, more, rfl, hc⟩ := hc
  have hcont : continuesName c := by
    simp only [startsName, Bool.or_eq_true] at hc
    simp only [continuesName, Text.isAlphanumeric, Bool.or_eq_true]
    rcases hc with hc | hc
    · exact .inl (.inl hc)
    · exact .inr hc
  have hdrop : (c :: more).dropWhile continuesName = more.dropWhile continuesName := by
    simp [hcont]
  have hle := length_dropWhile_le continuesName more
  unfold word at h
  simp only [hdrop] at h
  split at h
  · exact length_of_pathLexeme h
  · split at h
    · simp only [Except.ok.injEq, Prod.mk.injEq] at h
      obtain ⟨-, rfl⟩ := h
      simp only [List.length_cons]
      omega
    · split at h
      · rename_i hw
        simp only [Except.ok.injEq, Prod.mk.injEq] at h
        obtain ⟨-, rfl⟩ := h
        have := length_dropWhile_le Text.isWhiteSpace (more.dropWhile continuesName)
        rw [hw] at this
        simp only [List.length_cons] at *
        omega
      · exact length_of_pathLexeme h

theorem length_of_otherLexeme {total : Nat} {c : Char} {text rest : List Char} {l : Lexeme}
    (h : otherLexeme total c text = .ok (l, rest)) : rest.length < (c :: text).length := by
  simp only [otherLexeme] at h
  split at h
  · cases h
  · split at h
    · split at h
      · rename_i hb
        simp only [Except.ok.injEq, Prod.mk.injEq] at h
        obtain ⟨-, rfl⟩ := h
        have := length_of_stringBody? hb
        simp only [List.length_cons]
        omega
      · cases h
    · split at h
      · rename_i hn
        simp only [Except.ok.injEq] at h
        have := length_of_number (c :: text) ⟨c, text, rfl, hn⟩
        rw [h] at this
        exact this
      · split at h
        · exact length_of_pathLexeme h
        · split at h
          · rename_i hs
            exact length_of_word ⟨c, text, rfl, hs⟩ h
          · cases h

/-- Every lexeme takes at least one character. -/
theorem length_of_nextLexeme {total : Nat} {text rest : List Char} {l : Lexeme}
    (h : nextLexeme total text = .ok (l, rest)) : rest.length < text.length := by
  unfold nextLexeme at h
  split at h
  case h_1 => cases h
  case h_14 => exact length_of_otherLexeme h
  all_goals
    simp only [Except.ok.injEq, Prod.mk.injEq] at h
    obtain ⟨-, rfl⟩ := h
    simp only [List.length_cons]
    omega

/-- The tokens of what remains of a text of `total` bytes. -/
def scanFrom (total : Nat) (text : List Char) : Except SyntaxError (List Token) :=
  match _hw : text.dropWhile Text.isWhiteSpace with
  | [] => .ok []
  | c :: rest =>
    match _h : nextLexeme total (c :: rest) with
    | .error e => .error e
    | .ok (found, after) =>
      match scanFrom total after with
      | .error e => .error e
      | .ok others => .ok (⟨found, offsetOf total (c :: rest)⟩ :: others)
termination_by text.length
decreasing_by
  have h1 := length_of_nextLexeme _h
  have h2 := length_dropWhile_le Text.isWhiteSpace text
  rw [_hw] at h2
  omega

/-- The tokens of an expression; white space between them is skipped. -/
def scan (source : List Char) : Except SyntaxError (List Token) :=
  scanFrom (Text.byteSize source) source

end Token

end XmlTemplate
