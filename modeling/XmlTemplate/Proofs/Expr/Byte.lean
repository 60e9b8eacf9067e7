import XmlTemplate.Proofs.Expr.Lexeme

/-!
# Tokens by byte offsets

The lexer as it moves over the bytes of a text: it holds an offset, which grows by the sizes of the
characters that it passes, and takes slices of the text at such offsets. A slice that does not start
and end between characters has no result, and neither has a loop that does not go on. So it finds
the tokens of every text just because its loops end and it takes slices only between characters.
-/

namespace XmlTemplate.Token.Byte

/-! ## Slices -/

/-- The text from a byte offset on, which has to be where a character starts or the end. -/
def from? : List Char → Nat → Option (List Char)
  | text, 0 => some text
  | [], _ + 1 => none
  | c :: text, n + 1 => if c.utf8Size ≤ n + 1 then from? text (n + 1 - c.utf8Size) else none

/-- The text between two byte offsets, which have to be where characters start or the end. -/
def slice? (source : List Char) (start stop : Nat) : Option (List Char) := do
  let text ← from? source start
  let rest ← from? source stop
  if start ≤ stop then return text.take (text.length - rest.length) else none

def peek? (source : List Char) (pos : Nat) : Option (Option Char) :=
  (from? source pos).map List.head?

def startsWith? (source : List Char) (pos : Nat) (lead : List Char) : Option Bool :=
  (from? source pos).map fun text => (Text.after? lead text).isSome

/-! ## Readers -/

/-- Where a loop goes on, which has to be further on in the text. -/
def further? (source : List Char) (pos next : Nat) :
    Option { n // pos < n ∧ n ≤ Text.byteSize source } :=
  if h : pos < next ∧ next ≤ Text.byteSize source then some ⟨next, h⟩ else none

/-- A digit follows the first byte. -/
def nextIsDigit? (source : List Char) (pos : Nat) : Option Bool := do
  let rest ← from? source pos
  let more ← from? rest 1
  return more.head?.any Char.isDigit

/-- The offset behind the characters of a class. -/
def skipWhile? (p : Char → Bool) (source : List Char) (pos : Nat) : Option Nat := do
  match ← peek? source pos with
  | some c =>
    if p c then
      let ⟨next, _⟩ ← further? source pos (pos + c.utf8Size)
      skipWhile? p source next
    else return pos
  | none => return pos
termination_by Text.byteSize source - pos

/-- A byte of the text in UTF-8. -/
def byte? (source : List Char) (i : Nat) : Option UInt8 :=
  (source.flatMap String.utf8EncodeChar)[i]?

def isDigit (b : UInt8) : Bool := 48 ≤ b && b ≤ 57

def skipDigits? (source : List Char) (pos : Nat) : Option Nat := do
  if (byte? source pos).any isDigit then
    let ⟨next, _⟩ ← further? source pos (pos + 1)
    skipDigits? source next
  else return pos
termination_by Text.byteSize source - pos

def number? (source : List Char) (start : Nat) : Option (Lexeme × Nat) := do
  let stop ← skipDigits? source start
  if byte? source stop = some 46 ∧ (byte? source (stop + 1)).any isDigit then
    let stop ← skipDigits? source (stop + 1)
    let text ← slice? source start stop
    let fraction := (text.dropWhile Char.isDigit).tail
    return (.number (Numeral.toNumber ⟨none, text.takeWhile Char.isDigit, some fraction, none⟩),
      stop)
  else
    let text ← slice? source start stop
    return (.number (Numeral.toNumber ⟨none, text, none, none⟩), stop)

/-- The rest of a string, whose first characters were read. -/
def string? (source : List Char) (quote : Char) (pos : Nat) (value : List Char) :
    Option (Option (List Char × Nat)) := do
  match ← peek? source pos with
  | none => return none
  | some c =>
    let ⟨next, _⟩ ← further? source pos (pos + c.utf8Size)
    if c = quote then return some (value, next)
    else if c = '\\' then
      match ← peek? source next with
      | some d =>
        if d = quote ∨ d = '\\' then
          let ⟨behind, _⟩ ← further? source next (next + d.utf8Size)
          string? source quote behind (value ++ [d])
        else string? source quote next (value ++ [c])
      | none => string? source quote next (value ++ [c])
    else string? source quote next (value ++ [c])
termination_by Text.byteSize source - pos

/-- A reader that may find an error. -/
abbrev Reading := ExceptT SyntaxError Option

/-- The text behind an opening bracket, up to the closing one; `depth` brackets are open. -/
def bracket? (source : List Char) (opening pos depth : Nat) (quote : Option Char) :
    Reading (List Char × Nat) := do
  match ← peek? source pos with
  | none => throw ⟨opening, .unterminatedBracket⟩
  | some c =>
    let ⟨next, _⟩ ← further? source pos (pos + c.utf8Size)
    match quote with
    | some q =>
      if c = q then bracket? source opening next depth none
      else if c = '\\' then
        match ← peek? source next with
        | some d =>
          let ⟨behind, _⟩ ← further? source next (next + d.utf8Size)
          bracket? source opening behind depth quote
        | none => bracket? source opening next depth quote
      else bracket? source opening next depth quote
    | none =>
      if c = '\'' ∨ c = '"' then bracket? source opening next depth (some c)
      else if c = '[' then bracket? source opening next (depth + 1) none
      else if c = ']' then
        if depth - 1 = 0 then return (← slice? source (opening + 1) (next - 1), next)
        else bracket? source opening next (depth - 1) none
      else bracket? source opening next depth none
termination_by Text.byteSize source - pos

def name? (source : List Char) (start : Nat) : Option (List Char × Nat) := do
  let stop ← skipWhile? continuesName source start
  return (← slice? source start stop, stop)

def segment? (source : List Char) (pos : Nat) : Reading (RawSegment × Nat) := do
  match ← peek? source pos with
  | none => throw ⟨pos, .expectedSegment⟩
  | some c =>
    if c = '.' then
      if ← startsWith? source pos ['.', '.'] then return (.parent, pos + 2)
      else return (.current, pos + 1)
    else if c = '[' then
      let (inner, after) ← bracket? source pos (pos + 1) 1 none
      return (.dynamic inner (pos + 1), after)
    else if continuesName c then
      let (name, after) ← name? source pos
      return (.name (String.ofList name), after)
    else throw ⟨pos, .expectedSegment⟩

def segments? (source : List Char) (pos : Nat) : Reading (List RawSegment × Nat) := do
  let (first, after) ← segment? source pos
  if (← peek? source after) = some '/' then
    if startsSegment (← peek? source (after + 1)).toList then
      let ⟨next, _⟩ ← further? source pos (after + 1)
      let (others, last) ← segments? source next
      return (first :: others, last)
    else throw ⟨after + 1, .expectedSegmentAfterSlash⟩
  else return ([first], after)
termination_by Text.byteSize source - pos

def path? (source : List Char) (pos : Nat) : Reading (List RawSegment × Nat) := do
  if (← peek? source pos) = some '/' then
    if startsSegment (← peek? source (pos + 1)).toList then
      let (others, after) ← segments? source (pos + 1)
      return (.root :: others, after)
    else return ([.root], pos + 1)
  else segments? source pos

def pathLexeme? (source : List Char) (pos : Nat) : Reading (Lexeme × Nat) := do
  let (segments, after) ← path? source pos
  return (.path segments, after)

def word? (source : List Char) (pos : Nat) : Reading (Lexeme × Nat) := do
  let (name, after) ← name? source pos
  if (← peek? source after) = some '/' then pathLexeme? source pos
  else
    match keyword? name with
    | some keyword => return (keyword, after)
    | none =>
      let paren ← skipWhile? Text.isWhiteSpace source after
      if (← peek? source paren) = some '(' then
        return (.function (String.ofList name), paren + 1)
      else pathLexeme? source pos

/-- One mark, or two if an equals sign follows. -/
def maybeEqual? (source : List Char) (pos : Nat) (plain withEqual : Lexeme) :
    Reading (Lexeme × Nat) := do
  if (← peek? source (pos + 1)) = some '=' then return (withEqual, pos + 2)
  else return (plain, pos + 1)

/-- A string, number, path or word that starts with `c`. -/
def otherLexeme? (source : List Char) (c : Char) (pos : Nat) : Reading (Lexeme × Nat) := do
  if c = '\'' ∨ c = '"' then
    match ← string? source c (pos + 1) [] with
    | some (value, after) => return (.string (String.ofList value), after)
    | none => throw ⟨pos, .unterminatedString⟩
  else if c.isDigit then number? source pos
  else if c = '.' then
    if ← nextIsDigit? source pos then number? source pos else pathLexeme? source pos
  else if c = '/' ∨ c = '[' then pathLexeme? source pos
  else if startsName c then word? source pos
  else throw ⟨pos, .unexpectedCharacter c⟩

def lexeme? (source : List Char) (c : Char) (pos : Nat) : Reading (Lexeme × Nat) := do
  match c with
  | '(' => return (.openParen, pos + 1)
  | ')' => return (.closeParen, pos + 1)
  | ',' => return (.comma, pos + 1)
  | '+' => return (.plus, pos + 1)
  | '-' => return (.minus, pos + 1)
  | '*' => return (.star, pos + 1)
  | '=' =>
    if ← startsWith? source pos ['=', '='] then return (.eq, pos + 2)
    else throw ⟨pos, .unexpectedMark '='⟩
  | '!' =>
    if ← startsWith? source pos ['!', '='] then return (.ne, pos + 2)
    else throw ⟨pos, .unexpectedMark '!'⟩
  | '<' => maybeEqual? source pos .lt .le
  | '>' => maybeEqual? source pos .gt .ge
  | c => otherLexeme? source c pos

def scanFrom? (source : List Char) (start : Nat) : Reading (List Token) := do
  let pos ← skipWhile? Text.isWhiteSpace source start
  match ← peek? source pos with
  | none => return []
  | some c =>
    let (lexeme, after) ← lexeme? source c pos
    let ⟨next, _⟩ ← further? source start after
    let others ← scanFrom? source next
    return ⟨lexeme, pos⟩ :: others
termination_by Text.byteSize source - start

/-- The tokens of a text, read by byte offsets. -/
def scan? (source : List Char) : Option (Except SyntaxError (List Token)) :=
  scanFrom? source 0

/-! ## Offsets of suffixes -/

theorem from?_cons (c : Char) (text : List Char) (pos : Nat) :
    from? (c :: text) pos =
      if pos = 0 then some (c :: text)
      else if c.utf8Size ≤ pos then from? text (pos - c.utf8Size) else none := by
  cases pos <;> rfl

theorem from?_append (before text : List Char) :
    from? (before ++ text) (Text.byteSize before) = some text := by
  induction before with
  | nil => cases text <;> rfl
  | cons c before ih =>
    have hpos := c.utf8Size_pos
    rw [List.cons_append, from?_cons, Text.byteSize, if_neg (by omega), if_pos (by omega),
      Nat.add_sub_cancel_left, ih]

theorem exists_of_from? {source text : List Char} {pos : Nat} (h : from? source pos = some text) :
    ∃ before, source = before ++ text ∧ Text.byteSize before = pos := by
  induction source generalizing pos with
  | nil =>
    cases pos with
    | zero => exact ⟨[], Option.some.inj h, rfl⟩
    | succ pos => cases h
  | cons c source ih =>
    rw [from?_cons] at h
    split at h
    · exact ⟨[], Option.some.inj h, by simp [*, Text.byteSize]⟩
    · split at h
      · obtain ⟨before, rfl, hsize⟩ := ih h
        exact ⟨c :: before, rfl, by rw [Text.byteSize]; omega⟩
      · cases h

/-- The offset of a suffix. -/
abbrev place (source text : List Char) : Nat := offsetOf (Text.byteSize source) text

section

variable {source text rest : List Char} {c : Char}

theorem place_append (h : text ++ rest <:+ source) :
    place source rest = place source (text ++ rest) + Text.byteSize text := by
  obtain ⟨before, rfl⟩ := h
  simp only [place, offsetOf, Text.byteSize_append]
  omega

theorem place_cons (h : c :: text <:+ source) :
    place source (c :: text) + c.utf8Size = place source text := by
  obtain ⟨before, rfl⟩ := h
  simp only [place, offsetOf, Text.byteSize_append, Text.byteSize]
  omega

theorem place_mark (h : c :: text <:+ source) (hc : c.utf8Size = 1 := by rfl) :
    place source (c :: text) + 1 = place source text := by
  rw [← place_cons h, hc]

theorem place_marks {d : Char} (h : c :: d :: text <:+ source) (hc : c.utf8Size = 1 := by rfl)
    (hd : d.utf8Size = 1 := by rfl) : place source (c :: d :: text) + 2 = place source text := by
  rw [← place_mark ((List.suffix_cons c _).trans h) hd, ← place_mark h hc]

theorem from?_place (h : text <:+ source) : from? source (place source text) = some text := by
  obtain ⟨before, rfl⟩ := h
  have hplace : place (before ++ text) text = Text.byteSize before := by
    simp only [place, offsetOf, Text.byteSize_append]
    omega
  rw [hplace, from?_append]

theorem peek?_place (h : text <:+ source) :
    peek? source (place source text) = some text.head? := by
  rw [peek?, from?_place h]
  rfl

theorem startsWith?_place (h : text <:+ source) (lead : List Char) :
    startsWith? source (place source text) lead = some (Text.after? lead text).isSome := by
  rw [startsWith?, from?_place h]
  rfl

/-- A shorter suffix is further on. -/
theorem place_lt (h : text <:+ source) (hrest : rest <:+ text) (hlt : rest.length < text.length) :
    place source text < place source rest :=
  offsetOf_lt hrest (fun heq => Nat.ne_of_lt hlt (congrArg List.length heq))
    (Text.byteSize_le_of_suffix h)

theorem further?_place (h : text <:+ source) (hrest : rest <:+ text)
    (hlt : rest.length < text.length) :
    further? source (place source text) (place source rest) =
      some ⟨place source rest, place_lt h hrest hlt, Nat.sub_le ..⟩ :=
  dif_pos _

theorem further?_cons (h : c :: text <:+ source) :
    further? source (place source (c :: text)) (place source (c :: text) + c.utf8Size) =
      some ⟨place source text, place_lt h (List.suffix_cons c text) (Nat.lt_succ_self _),
        Nat.sub_le ..⟩ := by
  rw [place_cons h]
  exact further?_place h (List.suffix_cons c text) (Nat.lt_succ_self _)

theorem slice?_place (h : text ++ rest <:+ source) :
    slice? source (place source (text ++ rest)) (place source rest) = some text := by
  have hrest : rest <:+ source := (List.suffix_append text rest).trans h
  have hle : place source (text ++ rest) ≤ place source rest := by
    rw [place_append h]
    exact Nat.le_add_right ..
  simp [slice?, from?_place h, from?_place hrest, hle]

theorem slice?_takeWhile (p : Char → Bool) (h : text <:+ source) :
    slice? source (place source text) (place source (text.dropWhile p)) =
      some (text.takeWhile p) := by
  have hsplit : text.takeWhile p ++ text.dropWhile p <:+ source := by
    rwa [List.takeWhile_append_dropWhile]
  have hslice := slice?_place hsplit
  rwa [List.takeWhile_append_dropWhile] at hslice

theorem skipWhile?_place (p : Char → Bool) (h : text <:+ source) :
    skipWhile? p source (place source text) = some (place source (text.dropWhile p)) := by
  induction text with
  | nil =>
    rw [skipWhile?, peek?_place h]
    rfl
  | cons c text ih =>
    have htext := (List.suffix_cons c text).trans h
    rw [skipWhile?, peek?_place h]
    by_cases hc : p c
    · simp only [List.head?_cons, Option.bind_eq_bind, Option.bind_some, hc, if_true,
        further?_cons h, ih htext, List.dropWhile_cons_of_pos]
    · simp [hc]

theorem name?_place (h : text <:+ source) :
    name? source (place source text) =
      some (text.takeWhile continuesName, place source (text.dropWhile continuesName)) := by
  simp [name?, skipWhile?_place _ h, slice?_takeWhile _ h]

/-! ## Bytes -/

/-- The first byte of a character is the character if this is of ASCII, and no byte of ASCII
else. -/
theorem exists_utf8EncodeChar (c : Char) :
    ∃ b more, String.utf8EncodeChar c = b :: more ∧
      (b.toNat = c.toNat ∧ c.toNat < 128 ∨ 128 ≤ b.toNat ∧ 128 ≤ c.toNat) := by
  have htoNat : c.val.toNat = c.toNat := rfl
  unfold String.utf8EncodeChar
  simp only
  split
  · exact ⟨_, _, rfl, .inl ⟨by rw [UInt8.toNat_ofNat']; omega, by omega⟩⟩
  · split
    · exact ⟨_, _, rfl, .inr ⟨by rw [UInt8.toNat_ofNat']; omega, by omega⟩⟩
    · split
      · exact ⟨_, _, rfl, .inr ⟨by rw [UInt8.toNat_ofNat']; omega, by omega⟩⟩
      · exact ⟨_, _, rfl, .inr ⟨by rw [UInt8.toNat_ofNat']; omega, by omega⟩⟩

theorem byte?_place (h : text <:+ source) (i : Nat) :
    byte? source (place source text + i) = (text.flatMap String.utf8EncodeChar)[i]? := by
  obtain ⟨before, rfl⟩ := h
  have hlength (s : List Char) : (s.flatMap String.utf8EncodeChar).length = Text.byteSize s := by
    induction s with
    | nil => rfl
    | cons c s ih => simp [Text.byteSize, ih]
  have hplace : place (before ++ text) text = (before.flatMap String.utf8EncodeChar).length := by
    simp only [place, offsetOf, Text.byteSize_append, hlength]
    omega
  rw [byte?, List.flatMap_append, hplace, List.getElem?_append_right (Nat.le_add_right ..),
    Nat.add_sub_cancel_left]

/-- The first byte of a text tells digits and points from other characters. -/
theorem head_byte (text : List Char) :
    (text.flatMap String.utf8EncodeChar)[0]?.any isDigit = text.head?.any Char.isDigit ∧
      ((text.flatMap String.utf8EncodeChar)[0]? = some 46 ↔ text.head? = some '.') := by
  cases text with
  | nil => simp
  | cons c text =>
    obtain ⟨b, more, hbytes, hb⟩ := exists_utf8EncodeChar c
    have hdigit : c.isDigit = (decide (48 ≤ c.toNat) && decide (c.toNat ≤ 57)) := by
      simp [Char.isDigit, UInt32.le_iff_toNat_le]
    have hpoint : c = '.' ↔ c.toNat = 46 := by
      rw [← Char.toNat_inj]
      rfl
    simp only [List.flatMap_cons, hbytes, List.cons_append, List.getElem?_cons_zero,
      List.head?_cons, Option.any_some, Option.some.injEq, isDigit, hdigit, hpoint,
      UInt8.le_iff_toNat_le, ← UInt8.toNat_inj, UInt8.reduceToNat]
    constructor
    · rw [Bool.eq_iff_iff]
      simp only [Bool.and_eq_true, decide_eq_true_eq]
      omega
    · omega

theorem skipDigits?_place (h : text <:+ source) :
    skipDigits? source (place source text) = some (place source (text.dropWhile Char.isDigit)) := by
  induction text with
  | nil =>
    rw [skipDigits?, ← Nat.add_zero (place source []), byte?_place h]
    rfl
  | cons c text ih =>
    have htext := (List.suffix_cons c text).trans h
    have hbyte := byte?_place h 0
    rw [Nat.add_zero] at hbyte
    rw [skipDigits?, hbyte, (head_byte _).1]
    by_cases hc : c.isDigit
    · have hsize : c.utf8Size = 1 := by
        rw [Char.utf8Size, if_pos]
        have hcode : 48 ≤ c.toNat ∧ c.toNat ≤ 57 := by
          simpa [Char.isDigit, UInt32.le_iff_toNat_le] using hc
        exact UInt32.le_iff_toNat_le.2 (Nat.le_trans hcode.2 (by decide))
      have hnext := further?_cons h
      rw [hsize] at hnext
      simp only [List.head?_cons, Option.any_some, Option.bind_eq_bind, Option.bind_some, hc,
        if_true, hnext, ih htext, List.dropWhile_cons_of_pos]
    · simp [hc]

theorem number?_place (h : text <:+ source) :
    number? source (place source text) = some ((number text).1, place source (number text).2) := by
  have hrest := (List.dropWhile_suffix (l := text) Char.isDigit).trans h
  have hstop := byte?_place hrest 0
  rw [Nat.add_zero] at hstop
  have hslice := slice?_takeWhile Char.isDigit h
  simp only [number?, skipDigits?_place h, Option.bind_eq_bind, Option.bind_some, hstop,
    (head_byte _).2]
  rcases hdrop : text.dropWhile Char.isDigit with _ | ⟨c, more⟩
  · rw [hdrop] at hslice
    simp [number, hdrop, hslice]
  · by_cases hc : c = '.'
    · subst hc
      rw [hdrop] at hrest hslice
      have hmore := (List.suffix_cons '.' more).trans hrest
      have hnext : place source ('.' :: more) + 1 = place source more := place_cons hrest
      have hbyte := byte?_place hmore 0
      rw [Nat.add_zero] at hbyte
      rw [hnext, hbyte, (head_byte _).1, skipDigits?_place hmore]
      by_cases hd : more.head?.any Char.isDigit
      · obtain ⟨d, tail, rfl, hdigit⟩ : ∃ d tail, more = d :: tail ∧ d.isDigit := by
          cases more with
          | nil => cases hd
          | cons d tail => exact ⟨d, tail, rfl, by simpa using hd⟩
        -- The slice is the whole part, the point and the fraction.
        have htext : text.takeWhile Char.isDigit ++ '.' :: (d :: tail).takeWhile Char.isDigit ++
            (d :: tail).dropWhile Char.isDigit = text := by
          rw [List.append_assoc, List.cons_append, List.takeWhile_append_dropWhile, ← hdrop,
            List.takeWhile_append_dropWhile]
        have hwhole : ∀ c ∈ text.takeWhile Char.isDigit, c.isDigit :=
          fun _ => List.mem_takeWhile_imp
        have hend : ('.' :: (d :: tail).takeWhile Char.isDigit).head?.any Char.isDigit = false :=
          rfl
        have hpiece := slice?_place (htext.symm ▸ h)
        rw [htext] at hpiece
        rw [if_pos ⟨rfl, hd⟩, Option.bind_some, hpiece, Option.bind_some,
          takeWhile_append_eq hwhole hend, dropWhile_append_eq hwhole hend]
        simp [number, hdrop, hdigit]
      · rw [if_neg fun hboth => hd hboth.2, hslice]
        cases more with
        | nil => simp [number, hdrop]
        | cons d tail =>
          have hdigit : d.isDigit = false := by simpa using hd
          simp [number, hdrop, hdigit]
    · rw [hdrop] at hslice
      simp [number, hdrop, hslice, hc]

/-! ## Strings and brackets -/

theorem string?_place {quote : Char} (h : text <:+ source) (value : List Char) :
    string? source quote (place source text) value =
      some ((stringBody? quote text).map fun (body, rest) =>
        (value ++ body, place source rest)) := by
  fun_induction stringBody? quote text generalizing value with
  | case1 =>
    rw [string?, peek?_place h]
    rfl
  | case2 text =>
    rw [string?, peek?_place h]
    simp only [List.head?_cons, Option.bind_eq_bind, Option.bind_some, further?_cons h,
      if_true]
    simp
  | case3 hquote =>
    have hend := (List.suffix_cons '\\' []).trans h
    rw [string?, peek?_place h]
    simp only [List.head?_cons, Option.bind_eq_bind, Option.bind_some, further?_cons h,
      peek?_place hend, if_neg hquote, if_true]
    rw [string?, peek?_place hend]
    rfl
  | case4 d more hd hquote ih =>
    have hmore := (List.suffix_cons '\\' (d :: more)).trans h
    rw [string?, peek?_place h]
    simp only [List.head?_cons, Option.bind_eq_bind, Option.bind_some, further?_cons h,
      peek?_place hmore, if_neg hquote, if_true, if_pos hd,
      further?_cons hmore, ih ((List.suffix_cons d more).trans hmore)]
    simp [Text.consFirst, Function.comp_def]
  | case5 d more hd hquote ih =>
    have hmore := (List.suffix_cons '\\' (d :: more)).trans h
    obtain ⟨hdquote, hdslash⟩ := not_or.1 hd
    rw [string?, peek?_place h]
    simp only [List.head?_cons, Option.bind_eq_bind, Option.bind_some, further?_cons h,
      peek?_place hmore, if_neg hquote, if_true, if_neg hd]
    -- What follows the backslash is read as a character of its own.
    rw [string?, peek?_place hmore]
    simp only [List.head?_cons, Option.bind_eq_bind, Option.bind_some, if_neg hdquote,
      if_neg hdslash, further?_cons hmore, ih ((List.suffix_cons d more).trans hmore)]
    simp [Text.consFirst, Function.comp_def]
  | case6 c text hquote hslash ih =>
    rw [string?, peek?_place h]
    simp only [List.head?_cons, Option.bind_eq_bind, Option.bind_some, if_neg hquote,
      if_neg hslash, further?_cons h, ih ((List.suffix_cons c text).trans h)]
    simp [Text.consFirst, Function.comp_def]

/-- What a reader of a text gives, with the offset of what remains. -/
def lift (source : List Char) : Except SyntaxError (α × List Char) → Reading (α × Nat)
  | .error e => throw e
  | .ok (a, rest) => return (a, place source rest)

theorem liftM_some_bind (a : α) (f : α → Reading β) : (liftM (some a) : Reading α) >>= f = f a :=
  rfl

/-- The text in brackets that was found, `front` of which was read before. -/
def enclosed (source : List Char) (opening : Nat) (front : List Char) :
    Option (List Char × List Char) → Reading (List Char × Nat)
  | some (body, rest) => return (front ++ body, place source rest)
  | none => throw ⟨opening, .unterminatedBracket⟩

theorem enclosed_consFirst (opening : Nat) (front : List Char) (c : Char)
    (found : Option (List Char × List Char)) :
    enclosed source opening front (Text.consFirst c found) =
      enclosed source opening (front ++ [c]) found := by
  cases found with
  | none => rfl
  | some found => simp [enclosed, Text.consFirst]

theorem bracket?_place {opening depth : Nat} {quote : Option Char} {front : List Char}
    (h : front ++ text <:+ source) (hopening : opening + 1 = place source (front ++ text)) :
    bracket? source opening (place source text) (depth + 1) quote =
      enclosed source opening front (bracketBody? depth quote text) := by
  fun_induction bracketBody? depth quote text generalizing front with
  | case1 =>
    rw [bracket?, peek?_place ((List.suffix_append _ _).trans h)]
    rfl
  | case2 depth more q ih =>
    have hmore := (List.suffix_append front (q :: more)).trans h
    rw [bracket?, peek?_place hmore, liftM_some_bind, enclosed_consFirst]
    simp only [List.head?_cons, further?_cons hmore, liftM_some_bind, if_true]
    exact ih (by simpa using h) (by simpa using hopening)
  | case3 depth q hquote =>
    have hmore := (List.suffix_append front ['\\']).trans h
    have hend := (List.suffix_cons '\\' []).trans hmore
    rw [bracket?, peek?_place hmore, liftM_some_bind]
    simp only [List.head?_cons, if_neg hquote, if_true, further?_cons hmore, liftM_some_bind,
      peek?_place hend, List.head?_nil]
    rw [bracket?, peek?_place hend]
    rfl
  | case4 depth q d more hquote ih =>
    have hslash := (List.suffix_append front ('\\' :: d :: more)).trans h
    have hmore := (List.suffix_cons '\\' (d :: more)).trans hslash
    rw [bracket?, peek?_place hslash, liftM_some_bind, enclosed_consFirst, enclosed_consFirst]
    simp only [List.head?_cons, if_neg hquote, if_true, further?_cons hslash, liftM_some_bind,
      peek?_place hmore, further?_cons hmore]
    exact ih (by simpa using h) (by simpa using hopening)
  | case5 depth c more q hquote hslash ih =>
    have hmore := (List.suffix_append front (c :: more)).trans h
    rw [bracket?, peek?_place hmore, liftM_some_bind, enclosed_consFirst]
    simp only [List.head?_cons, further?_cons hmore, liftM_some_bind, if_neg hquote, if_neg hslash]
    exact ih (by simpa using h) (by simpa using hopening)
  | case6 depth q more hquote ih =>
    have hmore := (List.suffix_append front (q :: more)).trans h
    rw [bracket?, peek?_place hmore, liftM_some_bind, enclosed_consFirst]
    simp only [List.head?_cons, further?_cons hmore, liftM_some_bind, if_pos hquote]
    exact ih (by simpa using h) (by simpa using hopening)
  | case7 depth more hquote ih =>
    have hmore := (List.suffix_append front ('[' :: more)).trans h
    rw [bracket?, peek?_place hmore, liftM_some_bind, enclosed_consFirst]
    simp only [List.head?_cons, further?_cons hmore, liftM_some_bind, if_neg hquote, if_true]
    exact ih (by simpa using h) (by simpa using hopening)
  | case8 more hquote hopen =>
    have hmore := (List.suffix_append front (']' :: more)).trans h
    have hslice := slice?_place h
    have hplace : place source (']' :: more) = place source more - 1 := by
      have hnext : place source (']' :: more) + 1 = place source more := place_cons hmore
      omega
    rw [bracket?, peek?_place hmore, liftM_some_bind]
    simp only [List.head?_cons, further?_cons hmore, liftM_some_bind, if_neg hquote,
      if_neg hopen, if_true, hopening, ← hplace, hslice]
    rw [enclosed, List.append_nil]
  | case9 more outer hquote hopen ih =>
    have hmore := (List.suffix_append front (']' :: more)).trans h
    rw [bracket?, peek?_place hmore, liftM_some_bind, enclosed_consFirst]
    simp only [List.head?_cons, further?_cons hmore, liftM_some_bind, if_neg hquote,
      if_neg hopen, if_true, Nat.add_sub_cancel, if_neg (Nat.succ_ne_zero outer)]
    exact ih (by simpa using h) (by simpa using hopening)
  | case10 depth c more hquote hopen hclose ih =>
    have hmore := (List.suffix_append front (c :: more)).trans h
    rw [bracket?, peek?_place hmore, liftM_some_bind, enclosed_consFirst]
    simp only [List.head?_cons, further?_cons hmore, liftM_some_bind, if_neg hquote,
      if_neg hopen, if_neg hclose]
    exact ih (by simpa using h) (by simpa using hopening)

/-! ## Paths -/

theorem lift_ok (a : α) (rest : List Char) :
    lift source (.ok (a, rest)) = return (a, place source rest) :=
  rfl

theorem after?_eq_none {lead text : List Char} (h : ∀ rest, text ≠ lead ++ rest) :
    Text.after? lead text = none :=
  Option.eq_none_iff_forall_ne_some.2 fun rest hrest => h rest (Text.after?_eq_some_iff.1 hrest)

theorem segment?_place (h : text <:+ source) :
    segment? source (place source text) =
      lift source (segment (Text.byteSize source) text) := by
  unfold segment
  split
  all_goals rw [segment?, peek?_place h, liftM_some_bind]
  · rename_i rest
    have htwo : Text.after? ['.', '.'] ('.' :: '.' :: rest) = some rest := rfl
    simp only [List.head?_cons, if_true, startsWith?_place h, liftM_some_bind, htwo, place_marks h]
    rfl
  · rename_i rest hpoint
    have hone : Text.after? ['.', '.'] ('.' :: rest) = none :=
      after?_eq_none fun more hmore => hpoint more (List.cons.inj hmore).2
    simp only [List.head?_cons, if_true, startsWith?_place h, liftM_some_bind, hone, place_mark h]
    rfl
  · rename_i rest
    have hrest := (List.suffix_cons '[' rest).trans h
    have hpoint : '[' ≠ '.' := by decide
    have hbracket : bracket? source (place source ('[' :: rest)) (place source rest) 1 none =
        enclosed source (place source ('[' :: rest)) [] (bracketBody? 0 none rest) :=
      bracket?_place hrest (place_mark h)
    simp only [List.head?_cons, if_neg hpoint, if_true, place_mark h, hbracket]
    cases bracketBody? 0 none rest <;> rfl
  · rename_i c rest _ hpoint hopen
    simp only [List.head?_cons, if_neg hpoint, if_neg hopen]
    split
    · rename_i hc
      rw [name?_place h, List.takeWhile_cons_of_pos hc, List.dropWhile_cons_of_pos hc]
      rfl
    · rfl
  · rfl

theorem suffix_of_segment {s : RawSegment} {total : Nat}
    (h : segment total text = .ok (s, rest)) : rest <:+ text := by
  have hread := cut_segment total text
  rw [h] at hread
  exact hread.closedTo.suffix

theorem startsSegment_head? (text : List Char) :
    startsSegment text.head?.toList = startsSegment text := by
  cases text <;> rfl

/-- A segment with a slash behind it. -/
theorem segments?_slash {first : RawSegment} {more : List Char} (h : text <:+ source)
    (hread : segment (Text.byteSize source) text = .ok (first, '/' :: more)) :
    more <:+ source ∧ segments? source (place source text) =
      if startsSegment more then do
        let (others, last) ← segments? source (place source more)
        return (first :: others, last)
      else throw ⟨place source more, .expectedSegmentAfterSlash⟩ := by
  have hslash := (suffix_of_segment hread).trans h
  have hrest := (List.suffix_cons '/' more).trans hslash
  have hnext := further?_place h ((List.suffix_cons '/' more).trans (suffix_of_segment hread))
    (Nat.lt_of_succ_lt (length_of_segment hread))
  refine ⟨hrest, ?_⟩
  rw [segments?, segment?_place h, hread, lift_ok]
  simp only [pure_bind, peek?_place hslash, liftM_some_bind, List.head?_cons, if_true,
    place_mark hslash, peek?_place hrest, startsSegment_head?, hnext]

theorem segments?_place (h : text <:+ source) :
    segments? source (place source text) =
      lift source (segments (Text.byteSize source) text) := by
  fun_induction segments (Text.byteSize source) text with
  | case1 text e herror =>
    rw [segments?, segment?_place h, herror]
    rfl
  | case2 text first more hread hmore e herror ih =>
    obtain ⟨hrest, hslash⟩ := segments?_slash h hread
    rw [hslash, if_pos hmore, ih hrest, herror]
    rfl
  | case3 text first more hread hmore others after hothers ih =>
    obtain ⟨hrest, hslash⟩ := segments?_slash h hread
    rw [hslash, if_pos hmore, ih hrest, hothers]
    rfl
  | case4 text first more hread hmore =>
    rw [(segments?_slash h hread).2, if_neg hmore]
    rfl
  | case5 text first rest hslash hread =>
    have hrest := (suffix_of_segment hread).trans h
    have hhead : rest.head? ≠ some '/' := by
      intro hc
      obtain ⟨more, hmore⟩ := List.head?_eq_some_iff.1 hc
      exact hslash more hmore
    rw [segments?, segment?_place h, hread, lift_ok]
    simp only [pure_bind, peek?_place hrest, liftM_some_bind, if_neg hhead]
    rfl

theorem path?_place (h : text <:+ source) :
    path? source (place source text) = lift source (path (Text.byteSize source) text) := by
  unfold path
  split
  · rename_i rest
    have hrest := (List.suffix_cons '/' rest).trans h
    rw [path?, peek?_place h, liftM_some_bind]
    simp only [List.head?_cons, if_true, place_mark h, peek?_place hrest, liftM_some_bind,
      startsSegment_head?, segments?_place hrest]
    split
    · cases segments (Text.byteSize source) rest <;> rfl
    · rfl
  · rename_i hslash
    have hhead : text.head? ≠ some '/' := by
      intro hc
      obtain ⟨more, hmore⟩ := List.head?_eq_some_iff.1 hc
      exact hslash more hmore
    rw [path?, peek?_place h, liftM_some_bind, if_neg hhead, segments?_place h]

theorem pathLexeme?_place (h : text <:+ source) :
    pathLexeme? source (place source text) =
      lift source (pathLexeme (Text.byteSize source) text) := by
  rw [pathLexeme?, path?_place h, pathLexeme]
  cases path (Text.byteSize source) text <;> rfl

/-! ## Tokens -/

theorem word?_place (h : text <:+ source) :
    word? source (place source text) = lift source (word (Text.byteSize source) text) := by
  have hrest := (List.dropWhile_suffix (l := text) continuesName).trans h
  have hblank := (List.dropWhile_suffix (l := text.dropWhile continuesName)
    Text.isWhiteSpace).trans hrest
  rw [word?, name?_place h, liftM_some_bind]
  simp only [peek?_place hrest, liftM_some_bind, word, skipWhile?_place _ hrest,
    peek?_place hblank, pathLexeme?_place h]
  split
  · rfl
  · cases keyword? (text.takeWhile continuesName) with
    | some keyword => rfl
    | none =>
      rcases hparen : (text.dropWhile continuesName).dropWhile Text.isWhiteSpace with
        _ | ⟨c, after⟩
      · rfl
      · rw [hparen] at hblank
        by_cases hc : c = '('
        · subst hc
          simp only [List.head?_cons, if_true, place_mark hblank]
          rfl
        · simp [hc]

theorem maybeEqual?_equal {plain withEqual : Lexeme} (h : c :: '=' :: rest <:+ source)
    (hc : c.utf8Size = 1) :
    maybeEqual? source (place source (c :: '=' :: rest)) plain withEqual =
      return (withEqual, place source rest) := by
  rw [maybeEqual?, place_mark h hc, peek?_place ((List.suffix_cons c _).trans h), liftM_some_bind,
    place_marks h hc]
  rfl

theorem maybeEqual?_plain {plain withEqual : Lexeme} (h : c :: rest <:+ source)
    (hc : c.utf8Size = 1) (hrest : ∀ more, rest ≠ '=' :: more) :
    maybeEqual? source (place source (c :: rest)) plain withEqual =
      return (plain, place source rest) := by
  rw [maybeEqual?, place_mark h hc, peek?_place ((List.suffix_cons c _).trans h), liftM_some_bind]
  exact if_neg fun hhead =>
    have ⟨more, hmore⟩ := List.head?_eq_some_iff.1 hhead
    hrest more hmore

theorem nextIsDigit?_place (h : '.' :: rest <:+ source) :
    nextIsDigit? source (place source ('.' :: rest)) = some (rest.head?.any Char.isDigit) := by
  have hrest : from? ('.' :: rest) 1 = some rest := from?_append ['.'] rest
  simp [nextIsDigit?, from?_place h, hrest]

theorem otherLexeme?_place (h : c :: rest <:+ source) (hmark : ¬(c = '=' ∨ c = '!')) :
    otherLexeme? source c (place source (c :: rest)) =
      lift source (otherLexeme (Text.byteSize source) c rest) := by
  have hrest := (List.suffix_cons c rest).trans h
  simp only [otherLexeme?, otherLexeme, if_neg hmark]
  by_cases hquote : c = '\'' ∨ c = '"'
  · have hsize : c.utf8Size = 1 := by rcases hquote with rfl | rfl <;> rfl
    rw [if_pos hquote, if_pos hquote, place_mark h hsize, string?_place hrest, liftM_some_bind]
    cases stringBody? c rest <;> rfl
  · rw [if_neg hquote, if_neg hquote]
    by_cases hdigit : c.isDigit
    · rw [if_pos hdigit, if_pos (.inl hdigit), number?_place h]
      rfl
    · rw [if_neg hdigit]
      by_cases hpoint : c = '.'
      · subst hpoint
        rw [if_pos rfl, nextIsDigit?_place h, liftM_some_bind, number?_place h,
          pathLexeme?_place h]
        by_cases hnext : rest.head?.any Char.isDigit
        · rw [if_pos hnext, if_pos (.inr ⟨rfl, hnext⟩)]
          rfl
        · simp [hdigit, hnext]
      · have hnumber : ¬(c.isDigit ∨ c = '.' ∧ rest.head?.any Char.isDigit) := by
          simp [hdigit, hpoint]
        rw [if_neg hpoint, if_neg hnumber, pathLexeme?_place h, word?_place h]
        simp only [hpoint, false_or]
        split
        · rfl
        · split <;> rfl

theorem lexeme?_place (h : text <:+ source) (hc : text.head? = some c) :
    lexeme? source c (place source text) =
      lift source (nextLexeme (Text.byteSize source) text) := by
  unfold nextLexeme
  split
  case h_1 => cases hc
  case h_14 c' rest _ _ _ _ _ _ _ _ _ _ _ _ =>
    cases hc
    unfold lexeme?
    split
    case h_7 hequal _ =>
      have hone : Text.after? ['=', '='] ('=' :: rest) = none :=
        after?_eq_none fun more hmore => by simp_all
      rw [startsWith?_place h, hone, liftM_some_bind]
      rfl
    case h_8 =>
      have hone : Text.after? ['!', '='] ('!' :: rest) = none :=
        after?_eq_none fun more hmore => by simp_all
      rw [startsWith?_place h, hone, liftM_some_bind]
      rfl
    case h_11 =>
      exact otherLexeme?_place h (by simp_all)
    all_goals simp_all
  case h_8 | h_9 =>
    cases hc
    rw [lexeme?, startsWith?_place h, liftM_some_bind, place_marks h]
    rfl
  case h_10 | h_11 =>
    cases hc
    rw [lexeme?, maybeEqual?_equal h rfl]
    rfl
  case h_12 | h_13 =>
    cases hc
    rw [lexeme?, maybeEqual?_plain h rfl ‹_›]
    rfl
  all_goals
    cases hc
    rw [lexeme?, place_mark h]
    rfl

theorem suffix_of_nextLexeme {l : Lexeme} {total : Nat}
    (h : nextLexeme total text = .ok (l, rest)) : rest <:+ text := by
  have hread := cut_nextLexeme total text
  rw [h] at hread
  exact hread.closedTo.suffix

/-- A lexeme behind white space. -/
theorem scanFrom?_lexeme {l : Lexeme} {after : List Char} (h : text <:+ source)
    (hdrop : text.dropWhile Text.isWhiteSpace = c :: rest)
    (hnext : nextLexeme (Text.byteSize source) (c :: rest) = .ok (l, after)) :
    after <:+ source ∧ scanFrom? source (place source text) = do
      let others ← scanFrom? source (place source after)
      return ⟨l, place source (c :: rest)⟩ :: others := by
  have hstart : c :: rest <:+ text := hdrop ▸ List.dropWhile_suffix _
  have hafter := (suffix_of_nextLexeme hnext).trans hstart
  have hfurther := further?_place h hafter
    (Nat.lt_of_lt_of_le (length_of_nextLexeme hnext) hstart.length_le)
  refine ⟨hafter.trans h, ?_⟩
  rw [scanFrom?, skipWhile?_place _ h, liftM_some_bind, hdrop, peek?_place (hstart.trans h),
    liftM_some_bind]
  simp only [List.head?_cons, lexeme?_place (hstart.trans h) rfl, hnext, lift_ok, pure_bind,
    hfurther, liftM_some_bind]

theorem scanFrom?_place (h : text <:+ source) :
    scanFrom? source (place source text) = some (scanFrom (Text.byteSize source) text) := by
  fun_induction scanFrom (Text.byteSize source) text with
  | case1 text hend =>
    rw [scanFrom?, skipWhile?_place _ h, liftM_some_bind, hend, peek?_place List.nil_suffix]
    rfl
  | case2 text c rest hdrop e herror =>
    have hstart : c :: rest <:+ source := (hdrop ▸ List.dropWhile_suffix _).trans h
    rw [scanFrom?, skipWhile?_place _ h, liftM_some_bind, hdrop, peek?_place hstart,
      liftM_some_bind]
    simp only [List.head?_cons, lexeme?_place hstart rfl, herror]
    rfl
  | case3 text c rest hdrop l after hnext e herror ih =>
    obtain ⟨hafter, hlexeme⟩ := scanFrom?_lexeme h hdrop hnext
    rw [hlexeme, ih hafter, herror]
    rfl
  | case4 text c rest hdrop l after hnext others hothers ih =>
    obtain ⟨hafter, hlexeme⟩ := scanFrom?_lexeme h hdrop hnext
    rw [hlexeme, ih hafter, hothers]
    rfl

/-- Reading by byte offsets ends, takes slices only between characters, and finds the tokens. -/
theorem scan?_eq (source : List Char) : scan? source = some (scan source) := by
  have hstart : place source source = 0 := Nat.sub_self _
  rw [scan?, ← hstart, scanFrom?_place (List.suffix_refl source), scan]

end

end XmlTemplate.Token.Byte
