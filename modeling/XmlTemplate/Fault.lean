import XmlTemplate.Expr.Syntax
import XmlTemplate.Markup.Problem

/-!
# Faults

Everything that can go wrong while templates are compiled and rendered, with the place in a
template where it shows. `Fault.message` has the wording.
-/

namespace XmlTemplate

/-- A line of a template. -/
structure Location where
  template : String
  line : Nat
  deriving Repr, DecidableEq

/-- The template and its line in parentheses. -/
def Location.text (l : Location) : String := l.template ++ "(" ++ toString l.line ++ ")"

/-- Two control attributes that exclude each other. -/
inductive Conflict where
  | walkAndMacro
  | macroAndCall
  | slotAndPlug
  deriving Repr, DecidableEq

def Conflict.text : Conflict → String
  | walkAndMacro => "walk and macro"
  | macroAndCall => "macro and call"
  | slotAndPlug => "slot and plug"

/-- Why a dictionary cannot be read. -/
inductive DictionaryProblem where
  /-- The text is not of the format of the file. -/
  | malformed
  | noMap
  deriving Repr, DecidableEq

inductive Fault where
  | syntaxError (location : Location) (expression : String) (error : SyntaxError)
  | conflict (location : Location) (tag : String) (pair : Conflict)
  | missingAttribute (location : Location) (tag key : String)
  | unknownFunction (location : Location) (name : String)
  | functionCall (location : Location) (name message : String)
  | unknownMacro (location : Location) (name : String)
  | noText (location : Location)
  | unknownDictionary (location : Location) (name : String)
  | missingEntry (location : Location) (key : String)
  | emptyTranslation (location : Location) (key : String)
  | duplicateKey (file key : String)
  | dictionary (file : String) (problem : DictionaryProblem)
  | unknownFeed (location : Location) (feedClass : String)
  | feed (location : Location) (feedClass message : String)
  | unknownFilter (location : Location) (name : String)
  | missingSource (location : Option Location) (path : String)
  | markup (location : Location) (problem : Markup.Problem)
  /-- A file that cannot be read. -/
  | unreadable
  deriving Repr, DecidableEq

namespace Fault

/-- The wording of a fault. -/
def message : Fault → String
  | syntaxError location expression error =>
    "Syntax error in expression \"" ++ expression ++ "\" at offset " ++ toString error.offset ++
      " (" ++ location.text ++ "): " ++ error.problem.message
  | conflict location tag pair =>
    "Validation error at " ++ location.text ++ ": <" ++ tag ++ "> cannot combine " ++ pair.text
  | missingAttribute location tag key =>
    "Missing required attribute \"" ++ key ++ "\" on tag <" ++ tag ++ "> at " ++ location.text
  | unknownFunction location name => "Undeclared function: " ++ name ++ " (" ++ location.text ++ ")"
  | functionCall location name message =>
    "Error calling function " ++ name ++ " at " ++ location.text ++ ": " ++ message
  | unknownMacro location name => "Macro not found: " ++ name ++ " (" ++ location.text ++ ")"
  | noText location => "Array to string conversion at " ++ location.text
  | unknownDictionary location name =>
    "Dictionary not found: " ++ name ++ " (" ++ location.text ++ ")"
  | missingEntry location key =>
    "Dictionary entry not found: " ++ key ++ " (" ++ location.text ++ ")"
  | emptyTranslation location key =>
    "Empty translation for key: " ++ key ++ " (" ++ location.text ++ ")"
  | duplicateKey file key => "Duplicate key \"" ++ key ++ "\" in dictionary " ++ file
  | dictionary file .malformed => "Malformed dictionary " ++ file
  | dictionary file .noMap => "Malformed dictionary " ++ file ++ ": top level must be a map"
  | unknownFeed location feedClass =>
    "Feed class not found: " ++ feedClass ++ " (" ++ location.text ++ ")"
  | feed location feedClass message =>
    "Feed " ++ feedClass ++ " failed at " ++ location.text ++ ": " ++ message
  | unknownFilter location name => "Filter not found: " ++ name ++ " (" ++ location.text ++ ")"
  | missingSource _ path => "Source not found: " ++ path
  | markup location problem =>
    "XML parse error at " ++ location.text ++ ": " ++ problem.message
  | unreadable => "IO error"

/-- The place of a fault, when it has one. -/
def location? : Fault → Option Location
  | syntaxError location .. | conflict location .. | missingAttribute location ..
  | unknownFunction location .. | functionCall location .. | unknownMacro location ..
  | noText location | unknownDictionary location .. | missingEntry location ..
  | emptyTranslation location .. | unknownFeed location .. | feed location ..
  | unknownFilter location .. | markup location .. => some location
  | missingSource location _ => location
  | duplicateKey .. | dictionary .. | unreadable => none

/-- Give a missing source the place that asked for it, unless it has one. -/
def locate (location : Location) : Fault → Fault
  | missingSource none path => missingSource (some location) path
  | fault => fault

end Fault

/-- Why a computation has no result. -/
inductive Stop where
  | fault (fault : Fault)
  /-- An index or a width is out of the range that can be computed with. -/
  | overflow
  /-- Tags are rendered within each other more deeply than allowed. -/
  | depth
  deriving Repr, DecidableEq

end XmlTemplate
