import XmlTemplate.Json.Written

/-!
# Trees that are read back

A reader of drafts reads a tree back to a value if it gives the value wherever the tree fits, and
nothing where one of its containers lies too deep. Trees like that are closed under the shapes of
stored forms: cases, records, options and arrays.
-/

namespace XmlTemplate.Json

-- ---------------------------------------------------------------------------
-- Depth
-- ---------------------------------------------------------------------------

mutual

/-- Number of containers within each other. -/
def nesting : Json → Nat
  | .array items => itemsNesting items + 1
  | .object fields => fieldsNesting fields + 1
  | _ => 0

def itemsNesting : List Json → Nat
  | [] => 0
  | item :: rest => max (nesting item) (itemsNesting rest)

def fieldsNesting : List (String × Json) → Nat
  | [] => 0
  | (_, value) :: rest => max (nesting value) (fieldsNesting rest)

end

mutual

/-- All containers of a tree have a value when it is read within `depth` others. -/
def fits (depth : Nat) : Json → Bool
  | .array items => depth + 1 < maxDepth && itemsFit (depth + 1) items
  | .object fields => depth + 1 < maxDepth && fieldsFit (depth + 1) fields
  | _ => true

def itemsFit (depth : Nat) : List Json → Bool
  | [] => true
  | item :: rest => fits depth item && itemsFit depth rest

def fieldsFit (depth : Nat) : List (String × Json) → Bool
  | [] => true
  | (_, value) :: rest => fits depth value && fieldsFit depth rest

end

mutual

theorem fits_iff {depth : Nat} (h : depth < maxDepth) :
    ∀ j : Json, j.fits depth ↔ depth + j.nesting < maxDepth
  | .array items => by
    rw [fits, nesting, Bool.and_eq_true, decide_eq_true_iff]
    constructor
    · rintro ⟨hdepth, hitems⟩
      have := (itemsFit_iff hdepth items).1 hitems
      omega
    · intro hfits
      have hdepth : depth + 1 < maxDepth := by omega
      exact ⟨hdepth, (itemsFit_iff hdepth items).2 (by omega)⟩
  | .object fields => by
    rw [fits, nesting, Bool.and_eq_true, decide_eq_true_iff]
    constructor
    · rintro ⟨hdepth, hfields⟩
      have := (fieldsFit_iff hdepth fields).1 hfields
      omega
    · intro hfits
      have hdepth : depth + 1 < maxDepth := by omega
      exact ⟨hdepth, (fieldsFit_iff hdepth fields).2 (by omega)⟩
  | .null | .bool _ | .int _ | .float _ | .string _ => by simp [fits, nesting, h]

theorem itemsFit_iff {depth : Nat} (h : depth < maxDepth) :
    ∀ items : List Json, itemsFit depth items ↔ depth + itemsNesting items < maxDepth
  | [] => by simp [itemsFit, itemsNesting, h]
  | item :: rest => by
    rw [itemsFit, itemsNesting, Bool.and_eq_true, fits_iff h item, itemsFit_iff h rest]
    omega

theorem fieldsFit_iff {depth : Nat} (h : depth < maxDepth) :
    ∀ fields : List (String × Json), fieldsFit depth fields ↔
      depth + fieldsNesting fields < maxDepth
  | [] => by simp [fieldsFit, fieldsNesting, h]
  | (key, value) :: rest => by
    rw [fieldsFit, fieldsNesting, Bool.and_eq_true, fits_iff h value, fieldsFit_iff h rest]
    omega

end

-- ---------------------------------------------------------------------------
-- Values under a condition
-- ---------------------------------------------------------------------------

/-- The value, if a condition holds. -/
def given (b : Bool) (a : α) : Option α := if b then some a else none

@[simp] theorem given_true (a : α) : given true a = some a := rfl

@[simp] theorem given_false (a : α) : given false a = none := rfl

@[simp] theorem map_given (b : Bool) (a : α) (f : α → β) : (given b a).map f = given b (f a) := by
  cases b <;> rfl

/-- What is made of two values is there if both of them are. -/
theorem bind_given {p q : Bool} {a : α} {b : β} {f : α → Option β} (h : f a = given q b) :
    (given p a).bind f = given (p && q) b := by
  cases p
  · rfl
  · exact h

-- ---------------------------------------------------------------------------
-- Reading back
-- ---------------------------------------------------------------------------

/-- The tree is read to `a` wherever it fits, and to nothing elsewhere. -/
def ReadsBack (read? : Draft → Option α) (j : Json) (a : α) : Prop :=
  ∀ depth, read? (.ofJson depth j) = given (j.fits depth) a

theorem ReadsBack.map {read? : Draft → Option α} {j : Json} {a : α} (h : ReadsBack read? j a)
    (f : α → β) : ReadsBack (fun d => (read? d).map f) j (f a) := by
  intro depth
  simp only [h depth, map_given]

namespace Draft

variable {read? : Draft → Option α} {depth : Nat}

theorem readsBack_string (s : String) : ReadsBack string? (.string s) s := fun _ => rfl

theorem readsBack_bool (b : Bool) : ReadsBack bool? (.bool b) b := fun _ => rfl

theorem readsBack_nat {high n : Nat} (h : n ≤ high) : ReadsBack (nat? high) (.int n) n := by
  intro depth
  have hrange : (0 : Int) ≤ n ∧ (n : Int) ≤ high := ⟨Int.natCast_nonneg n, Int.ofNat_le.2 h⟩
  simp [ofJson, nat?, int?, hrange, fits]

/-- A float that is finite and written exactly enough. -/
theorem readsBack_float {f : Float} (hfinite : f.isFinite)
    (h : Draft.read? (floatText f) = some (.float f)) : ReadsBack float? (.ofFloat f) f := by
  intro depth
  simp [ofFloat, hfinite, ofJson, h, float?, fits]

theorem ofJson_object (depth : Nat) (fields : List (String × Json)) :
    ofJson depth (.object fields) =
      if depth + 1 < maxDepth then object (ofFields (depth + 1) fields) else void := by
  rw [ofJson]

theorem ofJson_array (depth : Nat) (items : List Json) :
    ofJson depth (.array items) =
      if depth + 1 < maxDepth then array (ofItems (depth + 1) items) else void := by
  rw [ofJson]

theorem ofJson_object_ne_null (fields : List (String × Json)) :
    ofJson depth (.object fields) ≠ null := by
  rw [ofJson_object]
  split <;> nofun

/-- Options are read back if no value is written as null. -/
theorem readsBack_option {write : α → Json} (o : Option α)
    (hread : ∀ a ∈ o, ReadsBack read? (write a) a)
    (hnull : ∀ a depth, ofJson depth (write a) ≠ null) :
    ReadsBack (optional? read?) (.ofOption write o) o := by
  intro depth
  cases o with
  | none => rfl
  | some a =>
    have ha := hread a rfl depth
    have hne := hnull a depth
    rw [ofOption, optional?]
    · rw [ha, map_given]
    · exact hne

theorem readsBack_optionString (o : Option String) :
    ReadsBack (optional? string?) (.ofOption .string o) o :=
  readsBack_option o (fun s _ => readsBack_string s) fun _ _ => nofun

/-! ### Cases -/

theorem case?_ofCase (depth : Nat) (name : String) (content : Json) :
    (ofJson depth (.ofCase name content)).case? =
      given (depth + 1 < maxDepth) (name, ofJson (depth + 1) content) := by
  rw [ofCase, ofJson_object]
  by_cases h : depth + 1 < maxDepth <;> simp [h, ofFields, case?]

/-- A case is read back if its content is. -/
theorem readsBack_case {inner? : Draft → Option α} {name : String} {content : Json} {a : α}
    (hnone : ∀ d, d.case? = none → read? d = none)
    (hsome : ∀ d c, d.case? = some (name, c) → read? d = inner? c)
    (h : ReadsBack inner? content a) : ReadsBack read? (.ofCase name content) a := by
  intro depth
  have hcase := case?_ofCase depth name content
  have hfits : (Json.ofCase name content).fits depth =
      (decide (depth + 1 < maxDepth) && content.fits (depth + 1)) := by
    simp [ofCase, fits, fieldsFit]
  rw [hfits]
  by_cases hdepth : depth + 1 < maxDepth
  · rw [decide_eq_true hdepth] at hcase ⊢
    rw [hsome _ _ hcase, Bool.true_and]
    exact h (depth + 1)
  · rw [decide_eq_false hdepth] at hcase ⊢
    exact hnone _ hcase

/-! ### Records -/

variable {fields : List (String × Json)} {name : String} {j : Json} {f : α → Option β} {a : α}
  {b : β} {rest : Bool}

@[simp] theorem keys_ofFields (depth : Nat) (fields : List (String × Json)) :
    Table.keys (ofFields depth fields) = Table.keys fields := by
  induction fields with
  | nil => rfl
  | cons field rest ih =>
    rw [ofFields, Table.keys, List.map_cons, ← Table.keys, ih]
    rfl

theorem get?_ofFields (depth : Nat) (name : String) (fields : List (String × Json)) :
    Table.get? name (ofFields depth fields) = (Table.get? name fields).map (ofJson depth) := by
  induction fields with
  | nil => rfl
  | cons field rest ih =>
    rw [ofFields, Table.get?, Table.get?]
    split
    · rfl
    · exact ih

/-- A record has the fields that were written, if none was written twice. -/
theorem recordFrom?_object {least : Nat} {names : List String} (hkeys : Table.keys fields = names)
    (hnames : names.Nodup) :
    recordFrom? least names (ofJson depth (.object fields)) =
      given (depth + 1 < maxDepth) (ofFields (depth + 1) fields) := by
  subst hkeys
  rw [ofJson_object]
  by_cases h : depth + 1 < maxDepth
  · have hcount : ((Table.keys fields).any fun name => (Table.keys fields).count name > 1) =
        false := by
      rw [List.any_eq_false]
      intro name _
      simpa using List.nodup_iff_count.1 hnames name
    simp [h, recordFrom?, hcount]
  · simp [h, recordFrom?]

/-- A record is read back if its fields are. -/
theorem readsBack_record {least : Nat} (names : List String) {f : Table Draft → Option β}
    (hkeys : Table.keys fields = names) (hnames : names.Nodup)
    (hf : ∀ depth, f (ofFields depth fields) = given (fieldsFit depth fields) b) :
    ReadsBack (fun d => (recordFrom? least names d).bind f) (.object fields) b := by
  intro depth
  simp only [recordFrom?_object hkeys hnames]
  exact bind_given (hf (depth + 1))

theorem bind_required? (h : Table.get? name fields = some j) (hread : ReadsBack read? j a)
    (hrest : f a = given rest b) :
    (required? (ofFields depth fields) name read?).bind f = given (j.fits depth && rest) b := by
  rw [required?, get?_ofFields, h, Option.map_some, Option.bind_some, hread depth]
  exact bind_given hrest

theorem bind_missing? {f : Option α → Option β} {o : Option α}
    (h : Table.get? name fields = some j) (hread : ReadsBack (optional? read?) j o)
    (hrest : f o = given rest b) :
    (missing? (ofFields depth fields) name read?).bind f = given (j.fits depth && rest) b := by
  simp only [missing?, get?_ofFields, h, Option.map_some, hread depth]
  exact bind_given hrest

/-! ### Arrays -/

theorem items?_array (depth : Nat) (items : List Json) :
    items? (ofJson depth (.array items)) =
      given (depth + 1 < maxDepth) (ofItems (depth + 1) items) := by
  rw [ofJson_array]
  by_cases h : depth + 1 < maxDepth <;> simp [h, items?]

theorem mapM_ofItems {write : α → Json} (as : List α)
    (hread : ∀ a ∈ as, ReadsBack read? (write a) a) :
    (ofItems depth (as.map write)).mapM read? = given (itemsFit depth (as.map write)) as := by
  induction as with
  | nil => rfl
  | cons a as ih =>
    have ha := hread a (List.mem_cons_self ..) depth
    have hrest := ih fun b hb => hread b (List.mem_cons_of_mem a hb)
    rw [List.map_cons, ofItems, List.mapM_cons, ha, hrest]
    exact bind_given (by cases itemsFit depth (as.map write) <;> rfl)

/-- Arrays are read back if their items are. -/
theorem readsBack_array {write : α → Json} (as : List α)
    (hread : ∀ a ∈ as, ReadsBack read? (write a) a) :
    ReadsBack (fun d => d.items?.bind (·.mapM read?)) (.array (as.map write)) as := by
  intro depth
  simp only [items?_array]
  exact bind_given (mapM_ofItems as hread)

/-- A field with an array whose items are read one by one. -/
theorem bind_requiredItems? {write : α → Json} {as : List α} {f : List α → Option β}
    (h : Table.get? name fields = some (.array (as.map write)))
    (hread : ∀ a ∈ as, ReadsBack read? (write a) a) (hrest : f as = given rest b) :
    ((required? (ofFields depth fields) name items?).bind fun items =>
      (items.mapM read?).bind f) =
        given ((Json.array (as.map write)).fits depth && rest) b := by
  rw [← bind_required? h (readsBack_array as hread) hrest]
  simp only [required?, Option.bind_assoc]

end Draft

end XmlTemplate.Json
