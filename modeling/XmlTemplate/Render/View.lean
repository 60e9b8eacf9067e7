import XmlTemplate.Dictionary
import XmlTemplate.Template.Tag

/-!
# Views

Every template that takes part in a render has a view, which knows the view that included it
and the dictionaries attached to it. A view is known by its index in the list of all views; the
view that includes another one comes before it.

Dictionaries without a name stay on their view. A named one goes to the topmost view around that
has none of its name. `translate` searches a view and then the views around it.
-/

namespace XmlTemplate

/-- A template taking part in a render. -/
structure View where
  template : Template
  /-- The view that includes this one. -/
  parent : Option Nat
  /-- Attached dictionaries with their names, in order. -/
  dictionaries : List (Option String × Dictionary)

namespace View

/-- Add a dictionary at the end. -/
def add (name : Option String) (d : Dictionary) (v : View) : View :=
  { v with dictionaries := v.dictionaries ++ [(name, d)] }

/-- The view has a dictionary of a name. -/
def has (name : String) (v : View) : Bool := v.dictionaries.any (·.1 == some name)

/-- Put a dictionary in the place of the first one of its name. -/
def replaceFirst (name : String) (d : Dictionary) :
    List (Option String × Dictionary) → List (Option String × Dictionary)
  | [] => []
  | (other, e) :: rest =>
    if other = some name then (other, d) :: rest else (other, e) :: replaceFirst name d rest

/-- Put a dictionary in the place of the one of its name. -/
def replace (name : String) (d : Dictionary) (v : View) : View :=
  { v with dictionaries := replaceFirst name d v.dictionaries }

/-- The dictionaries that a look-up searches: those of a name, or all of them. -/
def searched (name : Option String) (v : View) : List Dictionary :=
  (v.dictionaries.filter fun (other, _) => name.isNone || other == name).map (·.2)

end View

/-- The views of a render. -/
abbrev Views := List View

/-- What a look-up in dictionaries comes to. -/
inductive Translation where
  | found (text : String)
  /-- No dictionary that was searched has the key. -/
  | missingEntry
  /-- There is no dictionary of the name. -/
  | missingDictionary
  deriving Repr, DecidableEq

namespace Views

/-- The path of the template of a view. Expressions outside of templates have a path of their
own. -/
def path (views : Views) (i : Nat) : String :=
  match views[i]? with
  | some v => v.template.path
  | none => "<expression>"

/-- The view that includes a view, which comes before it. -/
def parent? (views : Views) (i : Nat) : Option Nat :=
  (views[i]?).bind fun v => v.parent.filter (· < i)

theorem parent?_lt {views : Views} {i p : Nat} (h : views.parent? i = some p) : p < i := by
  unfold parent? at h
  cases hv : views[i]? with
  | none => simp [hv] at h
  | some v =>
    simp only [hv, Option.bind_some] at h
    have := (Option.filter_eq_some_iff.1 h).2
    simpa using this

/-- A view and the views around it, from the inside out. -/
def chain (views : Views) (i : Nat) : List View :=
  match views[i]? with
  | none => []
  | some v =>
    match _h : views.parent? i with
    | some p => v :: chain views p
    | none => [v]
termination_by i
decreasing_by exact parent?_lt _h

/-- Attach a named dictionary to the topmost view of a chain that has none of its name; none if all
of them have one. -/
def attachTopmost? (name : String) (d : Dictionary) (views : Views) (i : Nat) : Option Views :=
  match views[i]? with
  | none => none
  | some v =>
    let here := if v.has name then none else some (views.modify i (View.add (some name) d))
    match _h : views.parent? i with
    | some p => (attachTopmost? name d views p).or here
    | none => here
termination_by i
decreasing_by exact parent?_lt _h

/-- Attach a dictionary at a view. -/
def attach (name : Option String) (d : Dictionary) (i : Nat) (views : Views) : Views :=
  match name with
  | none => views.modify i (View.add none d)
  | some name =>
    (attachTopmost? name d views i).getD (views.modify i (View.replace name d))

/-- Look a key up in the dictionaries of a name, or in all of them, from a view outwards. -/
def translate (views : Views) (i : Nat) (key : String) (name : Option String) : Translation :=
  let dictionaries := (views.chain i).flatMap (View.searched name)
  match dictionaries.findSome? (·.get? key) with
  | some text => .found text
  | none => if name.isSome && dictionaries.isEmpty then .missingDictionary else .missingEntry

end Views

end XmlTemplate
