import XmlTemplate.Text.Basic

/-!
# Runs in braces

Texts may hold runs in braces that stand for something else. A run of an attribute value ends at
the last closing brace before the next opening one; a placeholder of a translation ends at the
first closing brace. A run is never empty, and a brace that starts no run stands for itself.
-/

namespace XmlTemplate

/-- A piece of a text with runs. -/
inductive Piece where
  | literal (text : List Char)
  /-- A run, without its braces. -/
  | run (inner : List Char)
  deriving Repr, DecidableEq

namespace Piece

/-- Finds the run behind an opening brace, and the text after the run. -/
abbrev Cut := List Char → Option (List Char × List Char)

/-- Put a character in front of pieces. -/
def cons (c : Char) : List Piece → List Piece
  | literal text :: rest => literal (c :: text) :: rest
  | pieces => literal [c] :: pieces

/-- A run of an attribute value: up to the last closing brace before the next opening one. -/
def attributeRun? (text : List Char) : Option (List Char × List Char) :=
  let inside := text.takeWhile (· != '\x7b')
  match Text.cutAtLast? (· == '\x7d') inside with
  | some (c :: inner, rest) => some (c :: inner, rest ++ text.dropWhile (· != '\x7b'))
  | _ => none

/-- A placeholder of a translation: up to the next closing brace. -/
def placeholder? (text : List Char) : Option (List Char × List Char) :=
  match Text.cutAt? (· == '\x7d') text with
  | some (c :: inner, rest) => some (c :: inner, rest)
  | _ => none

/-- The pieces of a text. -/
def ofText (cut : Cut) (text : List Char) : List Piece :=
  match text with
  | [] => []
  | c :: text =>
    if c = '\x7b' then
      match cut text with
      | some (inner, rest) =>
        if rest.length < text.length then run inner :: ofText cut rest
        else cons c (ofText cut text)
      | none => cons c (ofText cut text)
    else cons c (ofText cut text)
termination_by text.length

/-- The pieces of an attribute value. -/
def ofAttribute (value : String) : List Piece := ofText attributeRun? value.toList

/-- The pieces of a translation. -/
def ofTranslation (text : String) : List Piece := ofText placeholder? text.toList

def isRun : Piece → Bool
  | run _ => true
  | literal _ => false

end Piece

end XmlTemplate
