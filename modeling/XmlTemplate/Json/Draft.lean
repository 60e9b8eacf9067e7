import XmlTemplate.Json.Basic

/-!
# Drafts of JSON

What a text spells before anyone asks for its parts. A field may repeat, and a part may be well
formed and still have no value. `Draft.value?` is the value of a whole draft. Readers of stored
forms ask for parts instead: a record names its fields, and what is under other names does not
matter, whether it has a value or not.
-/

namespace XmlTemplate.Json

/-- A JSON text cut into its parts. -/
inductive Draft where
  | null
  | bool (value : Bool)
  | int (value : Int)
  | float (value : Float)
  | string (value : String)
  | array (items : List Draft)
  | object (fields : List (String × Draft))
  /-- A part without a value: a number that is too large, a surrogate on its own, a container that
  is nested too deeply. -/
  | void
  deriving Inhabited

namespace Draft

-- ---------------------------------------------------------------------------
-- Whole values
-- ---------------------------------------------------------------------------

mutual

/-- The value of a draft, if all its parts have one. A repeated key keeps its first place and takes
its last value. -/
def value? : Draft → Option Json
  | null => some .null
  | bool b => some (.bool b)
  | int n => some (.int n)
  | float f => some (.float f)
  | string s => some (.string s)
  | array items => (itemValues? items).map .array
  | object fields => (fieldValues? fields).map fun fields => .object (Table.ofPairs fields)
  | void => none

def itemValues? : List Draft → Option (List Json)
  | [] => some []
  | item :: rest =>
    match value? item, itemValues? rest with
    | some item, some items => some (item :: items)
    | _, _ => none

def fieldValues? : List (String × Draft) → Option (List (String × Json))
  | [] => some []
  | (key, value) :: rest =>
    match value? value, fieldValues? rest with
    | some value, some fields => some ((key, value) :: fields)
    | _, _ => none

end

-- ---------------------------------------------------------------------------
-- Shapes
-- ---------------------------------------------------------------------------

/-- The fields of a record: an object that gives none of them twice, or an array of their values in
order, of which all after the first `least` may be missing. -/
def recordFrom? (least : Nat) (names : List String) : Draft → Option (Table Draft)
  | object fields =>
    if names.any fun name => (Table.keys fields).count name > 1 then none else some fields
  | array items =>
    if least ≤ items.length ∧ items.length ≤ names.length then some (names.zip items) else none
  | _ => none

/-- The fields of a record that has all of them when it is an array. -/
def record? (names : List String) : Draft → Option (Table Draft) := recordFrom? names.length names

/-- The name and the content of a case. A case without content may be written as its name alone. -/
def case? : Draft → Option (String × Draft)
  | string name => some (name, null)
  | object [(name, content)] => some (name, content)
  | _ => none

def bool? : Draft → Option Bool
  | bool b => some b
  | _ => none

def string? : Draft → Option String
  | string s => some s
  | _ => none

/-- An integer from `low` to `high`. -/
def int? (low high : Int) : Draft → Option Int
  | int n => if low ≤ n ∧ n ≤ high then some n else none
  | _ => none

def nat? (high : Nat) (d : Draft) : Option Nat := (d.int? 0 high).map Int.toNat

/-- A float, which may be written as an integer. -/
def float? : Draft → Option Float
  | float f => some f
  | int n => some (Float.ofInt n)
  | _ => none

/-- Null, or what `read?` reads. -/
def optional? (read? : Draft → Option α) : Draft → Option (Option α)
  | null => some none
  | d => (read? d).map some

/-- An array, item by item. -/
def items? : Draft → Option (List Draft)
  | array items => some items
  | _ => none

/-- An object of any keys, of which the last value of each counts. -/
def table? (read? : Draft → Option α) : Draft → Option (Table α)
  | object fields =>
    (fields.mapM fun (field : String × Draft) => (read? field.2).map (field.1, ·)).map
      Table.ofPairs
  | _ => none

/-- A required field. -/
def required? (fields : Table Draft) (name : String) (read? : Draft → Option α) : Option α :=
  (fields.get? name).bind read?

/-- A field that may be missing, which counts as null. -/
def missing? (fields : Table Draft) (name : String) (read? : Draft → Option α) :
    Option (Option α) :=
  match fields.get? name with
  | none => some none
  | some d => d.optional? read?

-- ---------------------------------------------------------------------------
-- Sizes
-- ---------------------------------------------------------------------------

theorem sizeOf_get?_lt {fields : List (String × Draft)} {name : String} {d : Draft}
    (h : Table.get? name fields = some d) : sizeOf d < sizeOf fields := by
  induction fields with
  | nil => cases h
  | cons field rest ih =>
    obtain ⟨key, value⟩ := field
    rw [Table.get?] at h
    split at h
    · cases h
      simp only [List.cons.sizeOf_spec, Prod.mk.sizeOf_spec]
      omega
    · have := ih h
      simp only [List.cons.sizeOf_spec]
      omega

theorem sizeOf_get?_zip_lt {names : List String} {items : List Draft} {name : String} {d : Draft}
    (h : Table.get? name (names.zip items) = some d) : sizeOf d < sizeOf items := by
  induction names generalizing items with
  | nil => cases h
  | cons key names ih =>
    cases items with
    | nil => cases h
    | cons item items =>
      rw [List.zip_cons_cons, Table.get?] at h
      split at h
      · cases h
        simp only [List.cons.sizeOf_spec]
        omega
      · have := ih h
        simp only [List.cons.sizeOf_spec]
        omega

/-- A field is smaller than its record. -/
theorem sizeOf_record?_lt {names : List String} {d value : Draft} {fields : Table Draft}
    {name : String} (h : d.record? names = some fields) (hv : fields.get? name = some value) :
    sizeOf value < sizeOf d := by
  unfold record? recordFrom? at h
  split at h
  · split at h
    · cases h
    · cases h
      have := sizeOf_get?_lt hv
      simp only [object.sizeOf_spec]
      omega
  · split at h
    · cases h
      have := sizeOf_get?_zip_lt hv
      simp only [array.sizeOf_spec]
      omega
    · cases h
  · cases h

theorem sizeOf_case?_lt {d content : Draft} {name : String} (h : d.case? = some (name, content)) :
    sizeOf content < sizeOf d := by
  unfold case? at h
  split at h
  · cases h
    have : 0 < sizeOf name := by
      cases name
      rw [String.ofByteArray.sizeOf_spec]
      omega
    simp only [null.sizeOf_spec, string.sizeOf_spec]
    omega
  · cases h
    simp only [object.sizeOf_spec, List.cons.sizeOf_spec, Prod.mk.sizeOf_spec]
    omega
  · cases h

theorem sizeOf_items?_lt {d : Draft} {items : List Draft} (h : d.items? = some items) :
    sizeOf items < sizeOf d := by
  cases d <;> simp [items?] at h
  subst h
  simp

end Draft

end XmlTemplate.Json
