import XmlTemplate.Markup.Event

/-!
# Attributes of tags

The body of an opening tag is a name and then attributes: a key, an equals sign and a quoted
value, with blanks around each of them. Offsets count the bytes of the body.
-/

namespace XmlTemplate.Markup

/-- The name of a tag: its body up to the first blank. -/
def tagName (body : List Char) : List Char := body.takeWhile (!isBlank ·)

/-- What follows the name of a tag. -/
def afterName (body : List Char) : List Char := body.dropWhile (!isBlank ·)

namespace Attribute

/-- Characters that end a key. -/
def endsKey (c : Char) : Bool := c == '=' || isBlank c

/-- A problem at the place where `rest` remains of a body of `size` bytes. -/
def problemAt (size : Nat) (rest : List Char) (problem : AttributeProblem) : Problem :=
  .badAttribute (size - Text.byteSize rest) problem

/-- What follows the equals sign after a key. -/
def afterEquals (size : Nat) (text : List Char) : Except Problem (List Char) :=
  match text.dropWhile isBlank with
  | '=' :: rest => .ok rest
  | rest => .error (problemAt size rest .expectedEquals)

/-- A quoted value, and the rest. -/
def value (size : Nat) (text : List Char) : Except Problem (List Char × List Char) :=
  match text.dropWhile isBlank with
  | [] => .error (problemAt size [] .expectedValue)
  | c :: rest =>
    if isQuote c then
      match Text.cutAt? (· == c) rest with
      | some found => .ok found
      | none => .error (problemAt size [] (.unclosedValue c))
    else .error (problemAt size (c :: rest) .unquotedValue)

theorem length_of_afterEquals {size : Nat} {text rest : List Char}
    (h : afterEquals size text = .ok rest) : rest.length < text.length := by
  have hle := (List.dropWhile_suffix isBlank (l := text)).length_le
  unfold afterEquals at h
  split at h
  · rename_i hd
    cases h
    rw [hd] at hle
    rwa [List.length_cons] at hle
  · cases h

theorem length_of_cutAt? {p : Char → Bool} {text before rest : List Char}
    (h : Text.cutAt? p text = some (before, rest)) : rest.length < text.length := by
  induction text generalizing before with
  | nil => cases h
  | cons c text ih =>
    rw [Text.cutAt?] at h
    split at h
    · cases h
      simp
    · obtain ⟨b, hb, -⟩ := Text.consFirst_eq_some_iff.1 h
      have := ih hb
      simp only [List.length_cons]
      omega

theorem length_of_value {size : Nat} {text found rest : List Char}
    (h : value size text = .ok (found, rest)) : rest.length < text.length := by
  have hle := (List.dropWhile_suffix isBlank (l := text)).length_le
  unfold value at h
  split at h
  · cases h
  · rename_i hd
    rw [hd] at hle
    split at h
    · split at h
      · rename_i hc
        cases h
        have := length_of_cutAt? hc
        simp only [List.length_cons] at hle
        omega
      · cases h
    · cases h

/-- The attributes in what remains of a body of `size` bytes. `seen` holds the keys before them
with their offsets. -/
def readFrom (size : Nat) (seen : List (List Char × Nat)) (text : List Char) :
    Except Problem (List (String × String)) :=
  match _ht : text.dropWhile isBlank with
  | [] => .ok []
  | c :: rest =>
    let key := c :: rest.takeWhile (!endsKey ·)
    let offset := size - Text.byteSize (c :: rest)
    match _he : afterEquals size (rest.dropWhile (!endsKey ·)) with
    | .error problem => .error problem
    | .ok afterKey =>
      match seen.lookup key with
      | some previous => .error (.badAttribute offset (.duplicated previous))
      | none =>
        match _hv : value size afterKey with
        | .error problem => .error problem
        | .ok (found, after) =>
          match readFrom size ((key, offset) :: seen) after with
          | .error problem => .error problem
          | .ok others => .ok ((String.ofList key, String.ofList found) :: others)
termination_by text.length
decreasing_by
  have h1 := (List.dropWhile_suffix isBlank (l := text)).length_le
  have h2 := (List.dropWhile_suffix (!endsKey ·) (l := rest)).length_le
  have h3 := length_of_afterEquals _he
  have h4 := length_of_value _hv
  rw [_ht] at h1
  simp only [List.length_cons] at h1
  omega

/-- The attributes of a tag in order. -/
def readAll (body : List Char) : Except Problem (List (String × String)) :=
  readFrom (Text.byteSize body) [] (afterName body)

end Attribute

end XmlTemplate.Markup
