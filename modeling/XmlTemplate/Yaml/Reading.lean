import XmlTemplate.Yaml.Plain
import XmlTemplate.Yaml.Tree

/-!
# Reading YAML

The parts of a document as texts and as JSON. References are followed where a part is read, so
that a document may stand for far more than it holds; therefore only so many references are
followed, and collections may nest only so deep.
-/

namespace XmlTemplate.Yaml

-- ---------------------------------------------------------------------------
-- References
-- ---------------------------------------------------------------------------

mutual

/-- The anchored nodes of a tree by their numbers, in the order of the text. -/
def targets : Yaml → List (Nat × Yaml)
  | scalar _ _ _ => []
  | sequence _ items => targetsOfItems items
  | mapping _ entries => targetsOfEntries entries
  | anchored number node => (number, node) :: targets node
  | reference _ => []

def targetsOfItems : List Yaml → List (Nat × Yaml)
  | [] => []
  | item :: rest => targets item ++ targetsOfItems rest

def targetsOfEntries : List (Yaml × Yaml) → List (Nat × Yaml)
  | [] => []
  | (key, value) :: rest => targets key ++ targets value ++ targetsOfEntries rest

end

mutual

/-- Number of scalars and references, and of starts and ends of collections. -/
def eventCount : Yaml → Nat
  | scalar _ _ _ => 1
  | sequence _ items => eventCountOfItems items + 2
  | mapping _ entries => eventCountOfEntries entries + 2
  | anchored _ node => eventCount node
  | reference _ => 1

def eventCountOfItems : List Yaml → Nat
  | [] => 0
  | item :: rest => eventCount item + eventCountOfItems rest

def eventCountOfEntries : List (Yaml × Yaml) → Nat
  | [] => 0
  | (key, value) :: rest => eventCount key + eventCount value + eventCountOfEntries rest

end

/-- A way to read a part of a document. It knows where references lead and how many of them may
still be followed. -/
abbrev Reading := ReaderT (List (Nat × Yaml)) (StateT Nat Option)

/-- Read a document. A hundred references may be followed for each of its events. The last node
with a number counts. -/
def run? (reading : Reading α) (root : Yaml) : Option α :=
  ((reading (targets root).reverse).run (100 * eventCount root)).map (·.1)

/-- The node that a node stands for. -/
def follow : Yaml → Reading Yaml
  | anchored _ node => pure node
  | reference number => fun targets left =>
    match left with
    | 0 => none
    | left + 1 => (targets.lookup number).map (·, left)
  | node => pure node

-- ---------------------------------------------------------------------------
-- Parts
-- ---------------------------------------------------------------------------

/-- The text of a scalar, whatever it is written like. -/
def text (node : Yaml) : Reading String := do
  match ← follow node with
  | scalar _ text _ => return text
  | _ => failure

/-- A text that may be null. -/
def optionalText (node : Yaml) : Reading (Option String) := do
  match ← follow node with
  | scalar tag text plain =>
    if !plain then return some text
    else match tag with
      | none => return if text == "" || isNull text then none else some text
      | some tag =>
        if tag != .core "null" then return some text
        else if isNull text then return none
        else failure
  | _ => failure

/-- The entries of a mapping; an empty plain scalar has none. -/
def entries (node : Yaml) : Reading (List (Yaml × Yaml)) := do
  match ← follow node with
  | mapping _ entries => return entries
  | scalar _ "" true => return []
  | _ => failure

/-- Levels of collections that a document may have. -/
def maxDepth : Nat := 128

/-- A collection with a tag of the application has no meaning. -/
def isUntyped (tag : Option Tag) : Bool := !tag.any Tag.isLocal

mutual

/-- A node as JSON, with at most `depth` levels of collections. -/
def json : (depth : Nat) → Yaml → Reading Json
  | 0, node => do
    match ← follow node with
    | scalar tag text plain => liftM (scalarJson? tag text plain)
    | _ => failure
  | depth + 1, node => do
    match ← follow node with
    | scalar tag text plain => liftM (scalarJson? tag text plain)
    | sequence tag items =>
      if isUntyped tag then return .array (← jsonItems depth items) else failure
    | mapping tag entries =>
      if isUntyped tag then return .object (Table.ofPairs (← jsonFields depth entries))
      else failure
    | _ => failure
termination_by depth node => (depth, sizeOf node)

def jsonItems : (depth : Nat) → List Yaml → Reading (List Json)
  | _, [] => return []
  | depth, item :: rest => do
    let item ← json depth item
    return item :: (← jsonItems depth rest)
termination_by depth items => (depth, sizeOf items)

/-- The entries of a mapping with the texts of their keys. -/
def jsonFields : (depth : Nat) → List (Yaml × Yaml) → Reading (List (String × Json))
  | _, [] => return []
  | depth, (key, node) :: rest => do
    let key ← text key
    let value ← json depth node
    return (key, value) :: (← jsonFields depth rest)
termination_by depth entries => (depth, sizeOf entries)

end

/-- The document of a text as JSON. -/
def json? (text : String) : Option Json :=
  (read? text).bind fun root => run? (json maxDepth root) root

end XmlTemplate.Yaml
