import XmlTemplate.Value.Basic

/-!
# Iterations
-/

namespace XmlTemplate

/-- How far a walk over a collection has come. -/
structure Iteration where
  /-- Number of items of the collection. -/
  count : Nat
  /-- Position of the current item, from 1; `0` before the first one. -/
  position : Nat
  /-- Key of the current item. -/
  key : Value
  deriving Inhabited

namespace Iteration

/-- Before the first of `count` items. -/
def start (count : Nat) : Iteration := ⟨count, 0, .null⟩

/-- At the next item. -/
def advance (key : Value) (i : Iteration) : Iteration :=
  { i with position := i.position + 1, key := key }

end Iteration

end XmlTemplate
