import XmlTemplate.Expr.Parser
import XmlTemplate.Fault
import XmlTemplate.Markup.Reader
import XmlTemplate.Template.Tag
import XmlTemplate.Text.Entity

/-!
# Compiling templates

A document becomes a template: names that start with the lead of the control namespace are
taken apart into kinds and directives, and all expressions are parsed, so that their errors
show here and not while the template is rendered. A declaration `xmlns:x` on the root whose
value mentions the namespace replaces the lead by `x:` and is not kept.
-/

namespace XmlTemplate

namespace Compile

/-- What all tags of a template are compiled with. -/
structure Setting where
  path : String
  lead : String
  /-- The attribute that declares the control namespace. -/
  declaration : Option String

def Setting.location (s : Setting) (line : Nat) : Location := ⟨s.path, line⟩

/-- What follows `lead` in a name that starts with it. -/
def afterLead? (lead name : String) : Option String :=
  (Text.after? lead.toList name.toList).map String.ofList

/-- The lead that the attributes of the root declare: `x:` for the first `xmlns:x` whose value
mentions the control namespace. -/
def declaredLead? (attributes : List (String × String)) : Option String :=
  attributes.findSome? fun (key, value) =>
    (afterLead? "xmlns:" key).bind fun name =>
      if Text.holds "figdice".toList value.toList then some (name ++ ":") else none

/-- The attribute that declares a lead. -/
def declarationOf (lead : String) : String :=
  "xmlns:" ++ String.ofList (Text.dropWhileEnd (· == ':') lead.toList)

/-- Attributes without control meaning, in order. -/
def plainAttributes (s : Setting) (attributes : List (String × String)) :
    List (String × String) :=
  attributes.filter fun (key, _) =>
    some key != s.declaration && (afterLead? s.lead key).isNone

/-- Control attributes by what follows the lead of their names, with their values unescaped. -/
def controlAttributes (s : Setting) (attributes : List (String × String)) :
    List (String × String) :=
  attributes.filterMap fun (key, value) =>
    if some key = s.declaration then none
    else (afterLead? s.lead key).map fun name => (name, Text.unescape value)

-- ---------------------------------------------------------------------------
-- Directives
-- ---------------------------------------------------------------------------

/-- Parse an expression of a tag on a line. -/
def directive (s : Setting) (line : Nat) (source : String) : Except Fault Directive :=
  match Expr.parse source with
  | .ok expr => .ok ⟨source, expr⟩
  | .error error => .error (.syntaxError (s.location line) source error)

/-- Add a control attribute to directives; unknown ones are left out. -/
def addDirective (s : Setting) (line : Nat) (d : Directives) :
    String × String → Except Fault Directives
  | ("walk", value) => do return { d with walk := some (← directive s line value) }
  | ("cond", value) => do return { d with cond := some (← directive s line value) }
  | ("text", value) => do return { d with text := some (← directive s line value) }
  | ("mute", value) => do return { d with mute := some (← directive s line value) }
  | ("void", value) => do return { d with void := some (← directive s line value) }
  | ("auto", value) => do return { d with auto := some (← directive s line value) }
  | ("append", value) => do return { d with append := some (← directive s line value) }
  | ("macro", value) => .ok { d with macroName := some value }
  | ("call", value) => .ok { d with call := some value }
  | ("slot", value) => .ok { d with slot := some value }
  | ("plug", value) => .ok { d with plug := some value }
  | ("filter", value) => .ok { d with filter := some value }
  | _ => .ok d

/-- The directives of control attributes. -/
def directives (s : Setting) (line : Nat) (control : List (String × String)) :
    Except Fault Directives :=
  control.foldlM (addDirective s line) .none

-- ---------------------------------------------------------------------------
-- Kinds
-- ---------------------------------------------------------------------------

/-- Take the first attribute of a name out of a list, with its value unescaped. -/
def take (name : String) (attributes : List (String × String)) :
    Option String × List (String × String) :=
  ((attributes.lookup name).map Text.unescape, attributes.eraseP (·.1 == name))

/-- An attribute that a tag must have. -/
def required (s : Setting) (line : Nat) (tag name : String) (value : Option String) :
    Except Fault String :=
  match value with
  | some value => .ok value
  | none => .error (.missingAttribute (s.location line) tag name)

/-- An expression that a tag may have. -/
def optional (s : Setting) (line : Nat) (value : Option String) :
    Except Fault (Option Directive) :=
  match value with
  | some source => do return some (← directive s line source)
  | none => .ok none

/-- The kind of a tag of the control namespace by what follows the lead of its name, and the
attributes that the kind does not take. -/
def controlKind (s : Setting) (line : Nat) (tag suffix : String)
    (attributes : List (String × String)) : Except Fault (TagKind × List (String × String)) :=
  match suffix with
  | "include" => do
    let (file, rest) := take "file" attributes
    return (.inclusion (← required s line tag "file" file), rest)
  | "cdata" => do
    let (file, rest) := take "file" attributes
    return (.verbatim (← required s line tag "file" file), rest)
  | "attr" => do
    let (name, rest) := take "name" attributes
    let name ← required s line tag "name" name
    let (value, rest) := take "value" rest
    return (.attr name (← optional s line value), rest)
  | "param" => do
    let (name, rest) := take "name" attributes
    let name ← required s line tag "name" name
    let (value, rest) := take "value" rest
    return (.param name (← optional s line value), rest)
  | "feed" => do
    let (feedClass, rest) := take "class" attributes
    let feedClass ← required s line tag "class" feedClass
    let (target, rest) := take "target" rest
    return (.feed feedClass target, rest)
  | "dictionary" => do
    let (file, rest) := take "file" attributes
    let file ← required s line tag "file" file
    let (name, rest) := take "name" rest
    let (source, rest) := take "source" rest
    return (.dictionary file name source, rest)
  | "mount" => do
    let (target, rest) := take "target" attributes
    let target ← required s line tag "target" target
    let (value, rest) := take "value" rest
    return (.mount target (← optional s line value), rest)
  | "trans" =>
    let (key, rest) := take "key" attributes
    let (dict, rest) := take "dict" rest
    let (source, rest) := take "source" rest
    .ok (.trans key dict source, rest)
  | _ => .ok (.control, attributes)

/-- The kind of a tag and the attributes that it does not take. -/
def kindOf (s : Setting) (line : Nat) (tag : String) (attributes : List (String × String)) :
    Except Fault (TagKind × List (String × String)) :=
  match afterLead? s.lead tag with
  | some suffix => controlKind s line tag suffix attributes
  | none => .ok (.element, attributes)

-- ---------------------------------------------------------------------------
-- Trees
-- ---------------------------------------------------------------------------

/-- Directives that exclude each other. -/
def conflict? (d : Directives) : Option Conflict :=
  if d.walk.isSome && d.macroName.isSome then some .walkAndMacro
  else if d.macroName.isSome && d.call.isSome then some .macroAndCall
  else if d.slot.isSome && d.plug.isSome then some .slotAndPlug
  else none

/-- The blanks from the last line break of a text on, if they end the text and are not empty. -/
def indentOf (text : String) : Option String :=
  let tail := match Text.cutAtLast? (· == '\n') text.toList with
    | some (_, rest) => '\n' :: rest
    | none => text.toList
  if !tail.isEmpty && tail.all Text.isWhiteSpace then some (String.ofList tail) else none

mutual

/-- Compile an element whose tag has the number `id`. `indent` are the blanks before it. The result
holds the next number too. -/
def element (s : Setting) (id : Nat) (indent : Option String) :
    Element → Except Fault (Tag × Nat)
  | ⟨name, attributes, line, selfClosing, children⟩ => do
    let directives ← directives s line (controlAttributes s attributes)
    let (kind, plain) ← kindOf s line name (plainAttributes s attributes)
    let (children, next) ← content s (id + 1) none children
    match conflict? directives with
    | some pair => throw (.conflict (s.location line) name pair)
    | none =>
      let indent := if directives.walk.isSome then indent else none
      return (⟨id, name, line, kind, plain, directives, children, selfClosing, indent⟩, next)

/-- Compile content whose first tag has the number `next`. -/
def content (s : Setting) (next : Nat) (indent : Option String) :
    List (Node Element) → Except Fault (List (Node Tag) × Nat)
  | [] => .ok ([], next)
  | .text text :: rest => do
    let (others, next) ← content s next (indentOf text) rest
    return (.text text :: others, next)
  | .child e :: rest => do
    let (tag, next) ← element s next indent e
    let (others, next) ← content s next none rest
    return (.child tag :: others, next)

end

end Compile

namespace Template

/-- Compile a document. -/
def ofDocument (path lead : String) (document : Document) : Except Fault Template := do
  let declared := Compile.declaredLead? document.root.attributes
  let lead := declared.getD lead
  let setting : Compile.Setting := ⟨path, lead, declared.map Compile.declarationOf⟩
  let (root, _) ← Compile.element setting 0 none document.root
  return ⟨path, lead, root, document.instructions⟩

/-- Compile the text of a template. `lead` is the lead of the control namespace unless the text
declares its own. -/
def compile (path lead text : String) : Except Fault Template :=
  match Document.read text with
  | .error (line, problem) => .error (.markup ⟨path, line⟩ problem)
  | .ok document => ofDocument path lead document

end Template

end XmlTemplate
