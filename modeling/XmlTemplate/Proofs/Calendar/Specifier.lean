import XmlTemplate.Calendar.Format

/-!
# Formats in two steps

A format is translated into specifiers, each a percent sign with a name, and the specifiers are read
by a date library. No name begins another one and a percent sign that stands for itself is doubled,
so that what is read is split where the letters were, whatever comes next to them. Formatting in two
steps is formatting letter by letter for this reason, and it never meets a specifier that is not
known.
-/

namespace XmlTemplate.Calendar

variable {m : Moment} {text result : List Char}

-- ---------------------------------------------------------------------------
-- Translating
-- ---------------------------------------------------------------------------

/-- The specifiers that a letter of a format is translated to. -/
def specifier? : Char → Option String
  | 'd' => some "%d"
  | 'D' => some "%a"
  | 'j' => some "%-d"
  | 'l' => some "%A"
  | 'N' => some "%u"
  | 'w' => some "%w"
  | 'W' => some "%V"
  | 'F' => some "%B"
  | 'm' => some "%m"
  | 'M' => some "%b"
  | 'n' => some "%-m"
  | 'Y' => some "%Y"
  | 'y' => some "%y"
  | 'o' => some "%G"
  | 'a' => some "%P"
  | 'A' => some "%p"
  | 'g' => some "%-I"
  | 'G' => some "%-H"
  | 'h' => some "%I"
  | 'H' => some "%H"
  | 'i' => some "%M"
  | 's' => some "%S"
  | 'v' => some "%3f"
  | 'e' => some "%Z"
  | 'T' => some "%Z"
  | 'P' => some "%:z"
  | 'O' => some "%z"
  | 'c' => some "%Y-%m-%dT%H:%M:%S%:z"
  | 'r' => some "%a, %d %b %Y %H:%M:%S %z"
  | 'U' => some "%s"
  | _ => none

/-- A character that stands for itself. -/
def literal (c : Char) : List Char := if c = '%' then ['%', '%'] else [c]

/-- The specifiers and literals that a format is translated to. -/
def translate : List Char → List Char
  | [] => []
  | ['\\'] => []
  | '\\' :: escaped :: rest => literal escaped ++ translate rest
  | c :: rest =>
    match specifier? c with
    | some specifier => specifier.toList ++ translate rest
    | none => literal c ++ translate rest

-- ---------------------------------------------------------------------------
-- Reading
-- ---------------------------------------------------------------------------

/-- What a name of one character stands for. -/
def plainPart? (m : Moment) (c : Char) : Option (List Char) :=
  let date := Date.ofDay m.day
  let weekday := weekday m.day
  match c with
  | 'd' => some (Text.padded 2 date.day)
  | 'a' => some ((dayName weekday).take 3)
  | 'A' => some (dayName weekday)
  | 'u' => some (Text.digits weekday)
  | 'w' => some (Text.digits (weekday % 7))
  | 'V' => some (Text.padded 2 (weekOf m.day).2)
  | 'B' => some (monthName date.month)
  | 'm' => some (Text.padded 2 date.month)
  | 'b' => some ((monthName date.month).take 3)
  | 'Y' => some (yearText date.year)
  | 'y' => some (Text.padded 2 (date.year % 100).toNat)
  | 'G' => some (yearText (weekOf m.day).1)
  | 'P' => some (if m.hour < 12 then "am" else "pm").toList
  | 'p' => some (if m.hour < 12 then "AM" else "PM").toList
  | 'I' => some (Text.padded 2 m.hour12)
  | 'H' => some (Text.padded 2 m.hour)
  | 'M' => some (Text.padded 2 m.minute)
  | 'S' => some (Text.padded 2 m.second)
  | 'Z' => some "UTC".toList
  | 'z' => some "+0000".toList
  | 's' => some ((if m.stamp < 0 then ['-'] else []) ++ Text.digits m.stamp.natAbs)
  | '%' => some ['%']
  | _ => none

/-- What a name of two characters stands for: numbers without zeros in front, thousandths of a
second, and the zone with a colon. -/
def flaggedPart? (m : Moment) (flag c : Char) : Option (List Char) :=
  match flag, c with
  | '-', 'd' => some (Text.digits (Date.ofDay m.day).day)
  | '-', 'm' => some (Text.digits (Date.ofDay m.day).month)
  | '-', 'I' => some (Text.digits m.hour12)
  | '-', 'H' => some (Text.digits m.hour)
  | '3', 'f' => some "000".toList
  | ':', 'z' => some "+00:00".toList
  | _, _ => none

/-- What the name of a specifier stands for. -/
def part? (m : Moment) : List Char → Option (List Char)
  | [c] => plainPart? m c
  | [flag, c] => flaggedPart? m flag c
  | _ => none

/-- A date library reads the specifiers at this moment as documented: each stands for its part, and
every character outside of specifiers for itself. Nothing is said of any other specifier. -/
structure Reads (m : Moment) (read? : List Char → Option (List Char)) : Prop where
  nil : read? [] = some []
  literal : ∀ c rest, c ≠ '%' → read? (c :: rest) = (read? rest).map (c :: ·)
  specifier : ∀ name part rest, part? m name = some part →
    read? ('%' :: name ++ rest) = (read? rest).map (part ++ ·)

/-- Put the part that a name stands for in front of a text, none if it is not known. -/
def withPart? (m : Moment) (name : List Char) (behind : Option (List Char)) : Option (List Char) :=
  (part? m name).bind fun part => behind.map (part ++ ·)

/-- The character is no name but the first one of two. -/
def isFlag (c : Char) : Bool := c == '-' || c == ':' || c == '3'

/-- Read a text with the specifiers above only. -/
def expand? (m : Moment) : List Char → Option (List Char)
  | [] => some []
  | ['%'] => none
  | ['%', c] => withPart? m [c] (some [])
  | '%' :: c :: d :: rest =>
    if isFlag c then withPart? m [c, d] (expand? m rest)
    else withPart? m [c] (expand? m (d :: rest))
  | c :: rest => (expand? m rest).map (c :: ·)

theorem withPart?_eq_some_iff {name : List Char} {behind : Option (List Char)} :
    withPart? m name behind = some result ↔
      ∃ part rest, part? m name = some part ∧ behind = some rest ∧ result = part ++ rest := by
  simp only [withPart?, Option.bind_eq_some_iff, Option.map_eq_some_iff]
  constructor
  · rintro ⟨part, hpart, rest, hrest, rfl⟩
    exact ⟨part, rest, hpart, hrest, rfl⟩
  · rintro ⟨part, rest, hpart, hrest, rfl⟩
    exact ⟨part, hpart, rest, hrest, rfl⟩

/-- A text is read as its result, whatever follows it. -/
def ReadsAs (read? : List Char → Option (List Char)) (text result : List Char) : Prop :=
  ∀ rest, read? (text ++ rest) = (read? rest).map (result ++ ·)

section

variable {read? : List Char → Option (List Char)}

theorem ReadsAs.nil : ReadsAs read? [] [] := fun rest => by simp

theorem ReadsAs.append {text' result' : List Char} (h : ReadsAs read? text result)
    (h' : ReadsAs read? text' result') : ReadsAs read? (text ++ text') (result ++ result') := by
  intro rest
  rw [List.append_assoc, h, h', Option.map_map]
  exact congrArg (Option.map · _) (funext fun _ => (List.append_assoc ..).symm)

theorem Reads.readsAs_withPart (h : Reads m read?) {name behind : List Char}
    (ih : ∀ {inner}, expand? m behind = some inner → ReadsAs read? behind inner)
    (hname : withPart? m name (expand? m behind) = some result) :
    ReadsAs read? ('%' :: name ++ behind) result := by
  obtain ⟨part, inner, hpart, hinner, rfl⟩ := withPart?_eq_some_iff.1 hname
  exact ReadsAs.append (fun rest => h.specifier name part rest hpart) (ih hinner)

/-- What is read with these specifiers only is read so by every library. -/
theorem Reads.readsAs (h : Reads m read?) (htext : expand? m text = some result) :
    ReadsAs read? text result := by
  fun_induction expand? m text generalizing result with
  | case1 =>
    cases htext
    exact .nil
  | case2 => cases htext
  | case3 c =>
    change withPart? m [c] (expand? m []) = some result at htext
    exact h.readsAs_withPart (fun hnil => Option.some.inj hnil ▸ .nil) htext
  | case4 c d rest hflag ih => exact h.readsAs_withPart ih htext
  | case5 c d rest hflag ih => exact h.readsAs_withPart ih htext
  | case6 c rest hend hname hnames ih =>
    obtain ⟨inner, hinner, rfl⟩ := Option.map_eq_some_iff.1 htext
    have hc : c ≠ '%' := by
      rintro rfl
      match rest with
      | [] => exact hend rfl rfl
      | [d] => exact hname d rfl rfl
      | d :: e :: rest => exact hnames d e rest rfl rfl
    have hliteral : ReadsAs read? [c] [c] := fun rest => h.literal c rest hc
    exact hliteral.append (ih hinner)

end

theorem isFlag_of_plainPart? {c : Char} {part : List Char} (h : plainPart? m c = some part) :
    isFlag c = false := by
  unfold plainPart? at h
  dsimp only at h
  split at h
  all_goals cases h
  all_goals rfl

theorem isFlag_of_flaggedPart? {flag c : Char} {part : List Char}
    (h : flaggedPart? m flag c = some part) : isFlag flag := by
  unfold flaggedPart? at h
  split at h
  all_goals cases h
  all_goals rfl

/-- Reading with these specifiers only is one way to read them as documented. -/
theorem reads_expand? (m : Moment) : Reads m (expand? m) where
  nil := rfl
  literal c rest hc := by rw [expand?] <;> intros <;> contradiction
  specifier name part rest hpart := by
    have hwith : expand? m ('%' :: name ++ rest) = withPart? m name (expand? m rest) := by
      match name with
      | [c] =>
        cases rest with
        | nil => rfl
        | cons d rest => exact if_neg (Bool.eq_false_iff.1 (isFlag_of_plainPart? hpart))
      | [flag, c] => exact if_pos (isFlag_of_flaggedPart? hpart)
      | [] | _ :: _ :: _ :: _ => cases hpart
    rw [hwith, withPart?, hpart, Option.bind_some]

-- ---------------------------------------------------------------------------
-- Both steps
-- ---------------------------------------------------------------------------

theorem expand?_append {text' result' : List Char} (h : expand? m text = some result)
    (h' : expand? m text' = some result') :
    expand? m (text ++ text') = some (result ++ result') := by
  rw [(reads_expand? m).readsAs h text', h', Option.map_some]

theorem expand?_literal (m : Moment) (c : Char) : expand? m (literal c) = some [c] := by
  unfold literal
  split
  · rename_i hc
    rw [hc]
    rfl
  · rename_i hc
    exact (reads_expand? m).literal c [] hc

theorem expand?_name {name part : List Char} (h : part? m name = some part) :
    expand? m ('%' :: name) = some part := by
  have hread := (reads_expand? m).specifier name part [] h
  rwa [List.append_nil, reads_expand? m |>.nil, Option.map_some, List.append_nil] at hread

/-- Date and time with the signs between them. -/
theorem expand?_dateAndTime (m : Moment) :
    expand? m "%Y-%m-%dT%H:%M:%S%:z".toList = some (letter m 'c') := by
  change _ = some (isoDate (Date.ofDay m.day) ++ 'T' :: clock m ++ "+00:00".toList)
  simp [expand?, isFlag, withPart?, part?, plainPart?, flaggedPart?, isoDate, clock]

/-- Date and time as in the headers of mails. -/
theorem expand?_mailDate (m : Moment) :
    expand? m "%a, %d %b %Y %H:%M:%S %z".toList = some (letter m 'r') := by
  change _ = some ((dayName (weekday m.day)).take 3 ++ ", ".toList ++
    Text.padded 2 (Date.ofDay m.day).day ++ ' ' :: (monthName (Date.ofDay m.day).month).take 3 ++
    ' ' :: yearText (Date.ofDay m.day).year ++ ' ' :: clock m ++ " +0000".toList)
  simp [expand?, isFlag, withPart?, part?, plainPart?, clock]

/-- What a letter is translated to is read as what the letter stands for. -/
theorem expand?_specifier {c : Char} {specifier : String} (h : specifier? c = some specifier) :
    expand? m specifier.toList = some (letter m c) := by
  unfold specifier? at h
  split at h
  all_goals cases h
  case h_28 => exact expand?_dateAndTime m
  case h_29 => exact expand?_mailDate m
  all_goals exact expand?_name rfl

theorem letter_of_specifier?_eq_none {c : Char} (h : specifier? c = none) : letter m c = [c] := by
  unfold letter
  split
  all_goals first | rfl | cases h

/-- The translation of a format is read as the format says, letter by letter. -/
theorem expand?_translate (m : Moment) (pattern : List Char) :
    expand? m (translate pattern) = some (format m pattern) := by
  fun_induction translate pattern with
  | case1 => rfl
  | case2 => rfl
  | case3 escaped rest ih => exact expand?_append (expand?_literal m escaped) ih
  | case4 c rest hend hescape specifier hc ih =>
    rw [format]
    · exact expand?_append (expand?_specifier hc) ih
    · exact hend
    · exact hescape
  | case5 c rest hend hescape hc ih =>
    rw [format, letter_of_specifier?_eq_none hc]
    · exact expand?_append (expand?_literal m c) ih
    · exact hend
    · exact hescape

-- ---------------------------------------------------------------------------
-- Letter by letter
-- ---------------------------------------------------------------------------

/-- The format ends with a backslash that makes the next character stand for itself. -/
def endsInEscape : List Char → Bool
  | [] => false
  | ['\\'] => true
  | '\\' :: _ :: rest => endsInEscape rest
  | _ :: rest => endsInEscape rest

theorem format_append {f : List Char} (h : endsInEscape f = false) (g : List Char) :
    format m (f ++ g) = format m f ++ format m g := by
  fun_induction endsInEscape f with
  | case1 => rfl
  | case2 => cases h
  | case3 escaped rest ih =>
    rw [List.cons_append, List.cons_append, format, format, ih h]
    rfl
  | case4 c rest hend hescape ih =>
    have hc : c ≠ '\\' := by
      rintro rfl
      cases rest with
      | nil => exact hend rfl rfl
      | cons next rest => exact hescape next rest rfl rfl
    rw [List.cons_append, format, format, ih h, List.append_assoc]
    all_goals intros; contradiction

/-- A text is given to every format letter by letter. -/
structure IsLetterwise (text : String → String) : Prop where
  append : ∀ f g : String, endsInEscape f.toList = false → text (f ++ g) = text f ++ text g
  /-- What is no letter stands for itself. -/
  literal : ∀ (f g : String) (c : Char), endsInEscape f.toList = false → specifier? c = none →
    c ≠ '\\' → text (f ++ String.singleton c ++ g) = text f ++ String.singleton c ++ text g
  /-- Whatever is behind a backslash stands for itself. -/
  escaped : ∀ (f g : String) (c : Char), endsInEscape f.toList = false →
    text (f ++ String.ofList ['\\', c] ++ g) = text f ++ String.singleton c ++ text g

theorem format_literal {c : Char} (hletter : specifier? c = none) (hescape : c ≠ '\\')
    (rest : List Char) : format m (c :: rest) = c :: format m rest := by
  rw [format, letter_of_specifier?_eq_none hletter]
  · rfl
  all_goals intros; contradiction

/-- Dates are formatted letter by letter, and in two steps by every library that reads the
specifiers as documented, which never fails. -/
theorem formatStamp_isLetterwise {stamp : Int} (h : inRange stamp)
    {read? : List Char → Option (List Char)} (hread : Reads ⟨stamp⟩ read?) :
    IsLetterwise (formatStamp stamp) ∧
      ∀ f : String,
        (read? (translate f.toList)).map String.ofList = some (formatStamp stamp f) := by
  have heq (f : String) : formatStamp stamp f = String.ofList (format ⟨stamp⟩ f.toList) := if_pos h
  have happend (f g : String) (hf : endsInEscape f.toList = false) :
      formatStamp stamp (f ++ g) = formatStamp stamp f ++ formatStamp stamp g := by
    rw [heq, heq, heq, String.toList_append, format_append hf, String.ofList_append]
  have hbehind (f g : String) (lead : List Char) (c : Char) (hf : endsInEscape f.toList = false)
      (hlead : format ⟨stamp⟩ (lead ++ g.toList) = c :: format ⟨stamp⟩ g.toList) :
      formatStamp stamp (f ++ String.ofList lead ++ g) =
        formatStamp stamp f ++ String.singleton c ++ formatStamp stamp g := by
    rw [String.append_assoc, happend f _ hf, String.append_assoc, heq (_ ++ g), heq g,
      String.toList_append, String.toList_ofList, hlead, String.singleton_eq_ofList,
      ← String.ofList_append]
    rfl
  refine ⟨⟨happend, fun f g c hf hletter hescape => ?_, fun f g c hf => ?_⟩, fun f => ?_⟩
  · exact hbehind f g [c] c hf (format_literal hletter hescape g.toList)
  · exact hbehind f g ['\\', c] c hf rfl
  · have hall := hread.readsAs (expand?_translate ⟨stamp⟩ f.toList) []
    rw [List.append_nil, hread.nil, Option.map_some, List.append_nil] at hall
    rw [hall, heq, Option.map_some]

theorem formatStamp_isLetterwise_epoch :
    inRange 0 ∧ Reads ⟨0⟩ (expand? ⟨0⟩) ∧ IsLetterwise (formatStamp 0) ∧
      ∀ f : String,
        ((expand? ⟨0⟩) (translate f.toList)).map String.ofList = some (formatStamp 0 f) :=
  ⟨by decide, reads_expand? _, formatStamp_isLetterwise (by decide) (reads_expand? _)⟩

example : translate "\\Y 100%".toList = "Y 100%%".toList := by decide

end XmlTemplate.Calendar
