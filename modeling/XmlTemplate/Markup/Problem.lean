/-!
# Problems of markup
-/

namespace XmlTemplate.Markup

/-- What is wrong with the attributes of a tag. -/
inductive AttributeProblem where
  | expectedEquals
  | expectedValue
  | unquotedValue
  | unclosedValue (quote : Char)
  | duplicated (previous : Nat)
  deriving Repr, DecidableEq

def AttributeProblem.message : AttributeProblem → String
  | expectedEquals => "attribute key must be directly followed by \x60=\x60 or space"
  | expectedValue => "\x60=\x60 must be followed by an attribute value"
  | unquotedValue => "attribute value must be enclosed in \x60\"\x60 or \x60'\x60"
  | unclosedValue quote =>
    "missing closing quote \x60" ++ quote.toString ++ "\x60 in attribute value"
  | duplicated previous =>
    "duplicated attribute, previous declaration at position " ++ toString previous

/-- A construct that must be closed before the text ends. -/
inductive Construct where
  | tag
  | value (quote : Char)
  | comment
  | cdata
  | doctype
  | instruction
  | declaration
  deriving Repr, DecidableEq

/-- What a construct is called. -/
def Construct.name : Construct → String
  | tag => "tag"
  | value _ => "attribute value"
  | comment => "comment"
  | cdata => "CDATA"
  | doctype => "DOCTYPE"
  | instruction => "processing instruction"
  | declaration => "XML declaration"

/-- What closes a construct. -/
def Construct.closer : Construct → String
  | tag => ">"
  | value quote => quote.toString
  | comment => "-->"
  | cdata => "]]>"
  | doctype => ">"
  | instruction => "?>"
  | declaration => "?>"

/-- What is wrong with a document. -/
inductive Problem where
  | unclosed (construct : Construct)
  | unknownMark
  | mismatchedEnd (expected found : String)
  | unmatchedEnd (name : String)
  | unclosedReference
  | missingDoctypeName
  /-- A problem with attributes and its byte offset in the tag. -/
  | badAttribute (position : Nat) (problem : AttributeProblem)
  | unclosedElement (name : String) (line : Nat)
  | noRoot
  | textOutsideRoot
  | secondRoot (name : String)
  deriving Repr, DecidableEq

def Problem.message : Problem → String
  | unclosed construct =>
    "syntax error: " ++ construct.name ++ " not closed: \x60" ++ construct.closer
      ++ "\x60 not found before end of input"
  | unknownMark => "syntax error: unknown or missed symbol in markup"
  | mismatchedEnd expected found =>
    "ill-formed document: expected \x60</" ++ expected ++ ">\x60, but \x60</" ++ found
      ++ ">\x60 was found"
  | unmatchedEnd name =>
    "ill-formed document: close tag \x60</" ++ name ++ ">\x60 does not match any open tag"
  | unclosedReference =>
    "ill-formed document: entity or character reference not closed: \x60;\x60 not found before "
      ++ "end of input"
  | missingDoctypeName =>
    "ill-formed document: \x60<!DOCTYPE>\x60 declaration does not contain a name of a document type"
  | badAttribute position problem => "position " ++ toString position ++ ": " ++ problem.message
  | unclosedElement name line =>
    "unclosed element <" ++ name ++ "> opened at line " ++ toString line
  | noRoot => "no root element"
  | textOutsideRoot => "text outside the root element"
  | secondRoot name => "unexpected second root element <" ++ name ++ ">"

end XmlTemplate.Markup
