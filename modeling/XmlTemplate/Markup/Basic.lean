import XmlTemplate.Text.Basic

/-!
# Markup trees

An element has a name, attributes in document order and children. Text and attribute values
stay as they are written, references included, so that a tree can be written back.
-/

namespace XmlTemplate

/-- A piece of content: a run of text or a child of type `α`. -/
inductive Node (α : Type) where
  | text (text : String)
  | child (child : α)
  deriving Inhabited

/-- An element of a document. -/
structure Element where
  /-- Name with its namespace prefix. -/
  name : String
  /-- Attributes in document order with their raw values. -/
  attributes : List (String × String)
  /-- Line of the opening tag, from 1. -/
  line : Nat
  /-- Written as a single tag. -/
  selfClosing : Bool
  children : List (Node Element)
  deriving Inhabited

namespace Element

mutual

/-- Elements are compared with all their content. -/
def decEq : (a b : Element) → Decidable (a = b)
  | ⟨name, attributes, line, selfClosing, children⟩,
    ⟨name', attributes', line', selfClosing', children'⟩ =>
    have := contentDecEq children children'
    decidable_of_iff (name = name' ∧ attributes = attributes' ∧ line = line' ∧
      selfClosing = selfClosing' ∧ children = children') (by rw [mk.injEq])

def contentDecEq : (as bs : List (Node Element)) → Decidable (as = bs)
  | [], [] => isTrue rfl
  | .text s :: as, .text t :: bs =>
    have := contentDecEq as bs
    decidable_of_iff (s = t ∧ as = bs) (by rw [List.cons.injEq, Node.text.injEq])
  | .child a :: as, .child b :: bs =>
    have := decEq a b
    have := contentDecEq as bs
    decidable_of_iff (a = b ∧ as = bs) (by rw [List.cons.injEq, Node.child.injEq])
  | [], _ :: _ | _ :: _, [] | .text _ :: _, .child _ :: _ | .child _ :: _, .text _ :: _ =>
    isFalse nofun

end

instance : DecidableEq Element := decEq

end Element

/-- A document: its outermost element and its processing instructions as written. -/
structure Document where
  root : Element
  instructions : List String
  deriving DecidableEq

namespace Element

/-- The raw value of the first attribute of a name. -/
def attribute? (name : String) (e : Element) : Option String :=
  e.attributes.lookup name

/-- What follows the first colon of a name; the whole name if it has none. -/
def localPart (name : String) : String :=
  match Text.cutAt? (· == ':') name.toList with
  | some (_, rest) => String.ofList rest
  | none => name

/-- Name without its namespace prefix. -/
def localName (e : Element) : String := localPart e.name

/-- An attribute with a blank in front, as tags hold it. -/
def attributeMarkup : String × String → String
  | (key, value) => " " ++ key ++ "=\"" ++ value ++ "\""

mutual

/-- The element written as markup. -/
def markup : Element → String
  | ⟨name, attributes, _, selfClosing, children⟩ =>
    let tag := "<" ++ name ++ String.join (attributes.map attributeMarkup)
    if children.isEmpty && selfClosing then tag ++ "/>"
    else tag ++ ">" ++ contentMarkup children ++ "</" ++ name ++ ">"

/-- Content written as markup. -/
def contentMarkup : List (Node Element) → String
  | [] => ""
  | .text text :: rest => text ++ contentMarkup rest
  | .child e :: rest => markup e ++ contentMarkup rest

end

/-- The children written as markup. -/
def innerMarkup (e : Element) : String := contentMarkup e.children

end Element

end XmlTemplate
