import XmlTemplate.Proofs.Value.Comparison
import XmlTemplate.Value.Json

/-!
# Values through JSON

A value that is written as a JSON tree and read again keeps its arrays and objects, with all keys
in their order, and all of its leaves but two kinds: a host object comes back as its text, and a
float that is not finite as null. A tree that is read as a value and written again is the same
just if its numbers are 64-bit integers and finite floats; an integer is never taken for a float
of the same value, nor the other way round. Distinct keys stay distinct.
-/

namespace XmlTemplate

-- ---------------------------------------------------------------------------
-- Exact trees
-- ---------------------------------------------------------------------------

/-- All numbers in the tree are integers of 64 bits or finite floats. -/
inductive Json.IsExact : Json → Prop where
  | null : IsExact null
  | bool (b : Bool) : IsExact (bool b)
  | string (s : String) : IsExact (string s)
  | int {n : Int} (h : Int64.minValue.toInt ≤ n ∧ n ≤ Int64.maxValue.toInt) : IsExact (int n)
  | float {f : Float} (h : f.isFinite) : IsExact (float f)
  | array {items : List Json} (h : ∀ j ∈ items, IsExact j) : IsExact (array items)
  | object {fields : List (String × Json)} (h : ∀ p ∈ fields, IsExact p.2) :
    IsExact (object fields)

theorem Json.isExact_ofFloat (f : Float) : (Json.ofFloat f).IsExact := by
  rw [Json.ofFloat]
  split
  · rename_i hfinite
    exact .float hfinite
  · exact .null

-- ---------------------------------------------------------------------------
-- Tables
-- ---------------------------------------------------------------------------

namespace Table

theorem keys_map (t : Table α) (f : α → β) : keys (t.map fun p => (p.1, f p.2)) = keys t := by
  rw [keys, List.map_map]
  rfl

end Table

namespace Value

-- ---------------------------------------------------------------------------
-- Parts
-- ---------------------------------------------------------------------------

theorem sizeOf_field_lt {fields : List (String × Value)} {p : String × Value} (h : p ∈ fields) :
    sizeOf p.2 < sizeOf fields := by
  have hpair : sizeOf p = 1 + sizeOf p.1 + sizeOf p.2 := Prod.mk.sizeOf_spec p.1 p.2
  have hfields := List.sizeOf_lt_of_mem h
  omega

/-- Every value is a leaf, an array of values or an object of values. -/
@[elab_as_elim]
theorem collectionInduction {motive : Value → Prop}
    (plain : ∀ v : Value, v.isCollection = false → motive v)
    (array : ∀ items, (∀ v ∈ items, motive v) → motive (array items))
    (object : ∀ fields, (∀ p ∈ fields, motive p.2) → motive (object fields)) : ∀ v, motive v
  | .array items => array items fun v _ => collectionInduction plain array object v
  | .object fields => object fields fun p hp =>
    have := sizeOf_field_lt hp
    collectionInduction plain array object p.2
  | .null | .bool _ | .int _ | .float _ | .string _ | .host .. => plain _ rfl

/-- A function on lists that takes them element by element maps them. -/
theorem eq_map_of_cons {lift : List α → List β} {f : α → β} (hnil : lift [] = [])
    (hcons : ∀ a as, lift (a :: as) = f a :: lift as) (as : List α) : lift as = as.map f := by
  induction as with
  | nil => exact hnil
  | cons a as ih => rw [hcons, ih, List.map_cons]

theorem ofJson_array (items : List Json) : ofJson (.array items) = array (items.map ofJson) := by
  rw [ofJson]
  exact congrArg array (eq_map_of_cons rfl (fun _ _ => rfl) items)

theorem ofJson_object (fields : List (String × Json)) :
    ofJson (.object fields) = object (fields.map fun p => (p.1, ofJson p.2)) := by
  rw [ofJson]
  exact congrArg object (eq_map_of_cons rfl (fun _ _ => rfl) fields)

theorem toJson_array (items : List Value) : (array items).toJson = .array (items.map toJson) := by
  rw [toJson]
  exact congrArg Json.array (eq_map_of_cons rfl (fun _ _ => rfl) items)

theorem toJson_object (fields : List (String × Value)) :
    (object fields).toJson = .object (fields.map fun p => (p.1, toJson p.2)) := by
  rw [toJson]
  exact congrArg Json.object (eq_map_of_cons rfl (fun _ _ => rfl) fields)

-- ---------------------------------------------------------------------------
-- Leaves
-- ---------------------------------------------------------------------------

mutual

/-- The value with all leaves replaced. Arrays keep their length, and objects their keys. -/
def mapLeaves (leaf : Value → Value) : Value → Value
  | array items => array (mapItems leaf items)
  | object fields => object (mapFields leaf fields)
  | v => leaf v

def mapItems (leaf : Value → Value) : List Value → List Value
  | [] => []
  | item :: rest => mapLeaves leaf item :: mapItems leaf rest

def mapFields (leaf : Value → Value) : List (String × Value) → List (String × Value)
  | [] => []
  | (key, field) :: rest => (key, mapLeaves leaf field) :: mapFields leaf rest

end

section Leaves

variable (leaf : Value → Value)

theorem mapLeaves_array (items : List Value) :
    (array items).mapLeaves leaf = array (items.map (mapLeaves leaf)) := by
  rw [mapLeaves]
  exact congrArg array (eq_map_of_cons rfl (fun _ _ => rfl) items)

theorem mapLeaves_object (fields : List (String × Value)) :
    (object fields).mapLeaves leaf = object (fields.map fun p => (p.1, mapLeaves leaf p.2)) := by
  rw [mapLeaves]
  exact congrArg object (eq_map_of_cons rfl (fun _ _ => rfl) fields)

theorem mapLeaves_plain {v : Value} (h : v.isCollection = false) : v.mapLeaves leaf = leaf v := by
  cases v with
  | array | object => cases h
  | _ => rfl

end Leaves

/-- What JSON keeps of a leaf: of a host object its text, of a float that is not finite null. All
others are kept as they are. -/
def leafInJson : Value → Value
  | float f => if f.isFinite then float f else null
  | host identity typeName properties shown =>
    (text? (host identity typeName properties shown)).elim null string
  | v => v

theorem isCollection_leafInJson {v : Value} (h : v.isCollection = false) :
    v.leafInJson.isCollection = false := by
  cases v with
  | float f =>
    rw [leafInJson]
    split <;> rfl
  | array | object => cases h
  | _ => rfl

-- ---------------------------------------------------------------------------
-- Keys
-- ---------------------------------------------------------------------------

theorem hasDistinctKeys_array {items : List Value} :
    (array items).HasDistinctKeys ↔ ∀ v ∈ items, v.HasDistinctKeys := by
  refine ⟨fun h => ?_, .array⟩
  cases h with
  | plain h => cases h
  | array h => exact h

theorem hasDistinctKeys_object {fields : List (String × Value)} :
    (object fields).HasDistinctKeys ↔
      (Table.keys fields).Nodup ∧ ∀ p ∈ fields, p.2.HasDistinctKeys := by
  refine ⟨fun h => ?_, fun ⟨hkeys, h⟩ => .object hkeys h⟩
  cases h with
  | plain h => cases h
  | object hkeys h => exact ⟨hkeys, h⟩

/-- All keys stay as they are where leaves are replaced by leaves. -/
theorem hasDistinctKeys_mapLeaves {leaf : Value → Value}
    (hleaf : ∀ v : Value, v.isCollection = false → (leaf v).isCollection = false) (v : Value) :
    (v.mapLeaves leaf).HasDistinctKeys ↔ v.HasDistinctKeys := by
  induction v using collectionInduction with
  | plain v h =>
    rw [mapLeaves_plain leaf h]
    exact ⟨fun _ => .plain h, fun _ => .plain (hleaf v h)⟩
  | array items ih =>
    rw [mapLeaves_array, hasDistinctKeys_array, hasDistinctKeys_array, List.forall_mem_map]
    exact forall₂_congr ih
  | object fields ih =>
    rw [mapLeaves_object, hasDistinctKeys_object, hasDistinctKeys_object, List.forall_mem_map,
      Table.keys_map]
    exact and_congr_right' (forall₂_congr ih)

-- ---------------------------------------------------------------------------
-- From values to values
-- ---------------------------------------------------------------------------

theorem ofJson_toJson_plain {v : Value} (h : v.isCollection = false) :
    ofJson v.toJson = v.leafInJson := by
  cases v with
  | int i =>
    rw [toJson, ofJson, Number.int64?_toInt]
    rfl
  | float f =>
    rw [toJson, Json.ofFloat, leafInJson]
    split <;> rfl
  | array | object => cases h
  | _ => rfl

theorem ofJson_toJson (v : Value) : ofJson v.toJson = v.mapLeaves leafInJson := by
  induction v using collectionInduction with
  | plain v h => rw [ofJson_toJson_plain h, mapLeaves_plain leafInJson h]
  | array items ih =>
    rw [toJson_array, ofJson_array, mapLeaves_array, List.map_map]
    exact congrArg array (List.map_congr_left ih)
  | object fields ih =>
    rw [toJson_object, ofJson_object, mapLeaves_object, List.map_map]
    exact congrArg object (List.map_congr_left fun p hp => congrArg (p.1, ·) (ih p hp))

-- ---------------------------------------------------------------------------
-- From trees to trees
-- ---------------------------------------------------------------------------

theorem isExact_toJson (v : Value) : v.toJson.IsExact := by
  induction v using collectionInduction with
  | plain v h =>
    cases v with
    | null => exact .null
    | bool b => exact .bool b
    | int i => exact .int ⟨i.minValue_le_toInt, i.toInt_le⟩
    | float f => exact Json.isExact_ofFloat f
    | string s => exact .string s
    | host => exact .string _
    | array | object => cases h
  | array items ih =>
    rw [toJson_array]
    exact .array (List.forall_mem_map.2 ih)
  | object fields ih =>
    rw [toJson_object]
    exact .object (List.forall_mem_map.2 ih)

theorem toJson_ofJson {j : Json} (h : j.IsExact) : (ofJson j).toJson = j := by
  induction h with
  | null | bool | string => rfl
  | @int n h =>
    have hn : Number.int64? n = some (Int64.ofInt n) := if_pos h
    rw [ofJson, hn, toJson, Number.toInt_of_int64? hn]
  | float h => rw [ofJson, toJson, Json.ofFloat, if_pos h]
  | @array items _ ih =>
    rw [ofJson_array, toJson_array, List.map_map]
    calc Json.array (items.map (toJson ∘ ofJson))
        = Json.array (items.map id) := congrArg Json.array (List.map_congr_left ih)
      _ = Json.array items := by rw [List.map_id]
  | @object fields _ ih =>
    rw [ofJson_object, toJson_object, List.map_map]
    calc Json.object (fields.map _)
        = Json.object (fields.map id) :=
          congrArg Json.object (List.map_congr_left fun p hp => congrArg (p.1, ·) (ih p hp))
      _ = Json.object fields := by rw [List.map_id]

/-- The trees that come back are those that values are written as. -/
theorem toJson_ofJson_iff {j : Json} : (ofJson j).toJson = j ↔ j.IsExact :=
  ⟨fun h => h ▸ isExact_toJson (ofJson j), toJson_ofJson⟩

/-- A value that is written and read again has the same arrays and the same objects with their keys
in order, and of its leaves what JSON keeps of them. A tree that is read and written again is the
same just if all its numbers are 64-bit integers or finite floats. -/
theorem survives_json :
    (∀ v : Value, ofJson v.toJson = v.mapLeaves leafInJson ∧
      ((ofJson v.toJson).HasDistinctKeys ↔ v.HasDistinctKeys)) ∧
    ∀ j : Json, (ofJson j).toJson = j ↔ j.IsExact := by
  refine ⟨fun v => ⟨ofJson_toJson v, ?_⟩, fun j => toJson_ofJson_iff⟩
  rw [ofJson_toJson]
  exact hasDistinctKeys_mapLeaves (fun _ => isCollection_leafInJson) v

/-- An integral float stays a float, an infinite one is lost, and a host object is its text. -/
example : ofJson (toJson (object [("z", int 2), ("a", array [float 2.0, float (1.0 / 0.0)]),
    ("m", host 7 "Point" [("x", int 3)] none)])) =
    object [("z", int 2), ("a", array [float 2.0, null]),
      ("m", string "### Object of class: Point ###")] := by
  rfl

end Value

end XmlTemplate
