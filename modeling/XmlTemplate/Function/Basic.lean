import XmlTemplate.Fault
import XmlTemplate.Iteration
import XmlTemplate.Table

/-!
# Functions

A function of the expression language maps arguments to a value. It also sees the place of the
call, the anchor. Functions are found by name through factories, which are asked in order.
-/

namespace XmlTemplate

/-- What a function can see of the place where it is called. -/
structure Anchor where
  location : Location
  /-- The innermost walk around the call. -/
  iteration : Iteration
  language : Option String
  constants : Table Value
  /-- Seconds since 1970 at the time of the call. -/
  now : Int
  /-- Number of the call in its session, an identity for a host object that the call makes. -/
  serial : Nat

/-- A function of the expression language. -/
abbrev Function := Anchor → List Value → Except Stop Value

/-- Finds functions by name. -/
abbrev FunctionFactory := String → Option Function

namespace Anchor

/-- The text of an argument, which must have one. -/
def text (anchor : Anchor) (v : Value) : Except Stop String :=
  match v.text? with
  | some s => .ok s
  | none => .error (.fault (.noText anchor.location))

end Anchor

end XmlTemplate
