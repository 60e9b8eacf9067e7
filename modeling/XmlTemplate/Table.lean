/-!
# Tables

A table is a list of keys with their values, in the order in which the keys first came. Putting
a value under a key that is there replaces its value and keeps its place.
-/

namespace XmlTemplate

/-- Keys and values in order of first insertion. -/
abbrev Table (α : Type) := List (String × α)

namespace Table

/-- The value under a key. -/
def get? (key : String) : Table α → Option α
  | [] => none
  | (k, a) :: rest => if k = key then some a else get? key rest

def has (key : String) (t : Table α) : Bool := (t.get? key).isSome

/-- Keys in order. -/
def keys (t : Table α) : List String := t.map (·.1)

/-- Put a value under a key: in its place if the key is there, else at the end. -/
def put (key : String) (a : α) : Table α → Table α
  | [] => [(key, a)]
  | (k, b) :: rest => if k = key then (k, a) :: rest else (k, b) :: put key a rest

/-- Remove a key. -/
def erase (key : String) (t : Table α) : Table α := t.filter (·.1 != key)

/-- The table that results from putting pairs one after the other. -/
def ofPairs (pairs : List (String × α)) : Table α :=
  pairs.foldl (fun t (key, a) => put key a t) []

@[simp] theorem get?_put_self (key : String) (a : α) (t : Table α) :
    get? key (put key a t) = some a := by
  induction t with
  | nil => simp [put, get?]
  | cons p t ih =>
    obtain ⟨k, b⟩ := p
    by_cases h : k = key <;> simp [put, get?, h, ih]

theorem get?_put_of_ne {key other : String} (h : other ≠ key) (a : α) (t : Table α) :
    get? other (put key a t) = get? other t := by
  induction t with
  | nil => simp [put, get?, Ne.symm h]
  | cons p t ih =>
    obtain ⟨k, b⟩ := p
    by_cases hk : k = key
    · subst hk
      simp [put, get?, Ne.symm h]
    · rw [put, if_neg hk]
      by_cases ho : k = other <;> simp [get?, ho, ih]

/-- What holds of all entries and of the one that is put holds of all entries then. -/
theorem forall_put {P : String → α → Prop} {key : String} {a : α} {t : Table α} (hput : P key a)
    (h : ∀ other b, get? other t = some b → P other b) :
    ∀ other b, get? other (put key a t) = some b → P other b := by
  intro other b hb
  by_cases hother : other = key
  · subst hother
    rw [get?_put_self] at hb
    cases hb
    exact hput
  · rw [get?_put_of_ne hother] at hb
    exact h other b hb

/-- Putting keeps the keys in place and adds a new one at the end. -/
theorem keys_put (key : String) (a : α) (t : Table α) :
    keys (put key a t) = if key ∈ keys t then keys t else keys t ++ [key] := by
  induction t with
  | nil => simp [put, keys]
  | cons p t ih =>
    obtain ⟨k, b⟩ := p
    by_cases hk : k = key
    · simp [put, keys, hk]
    · have hne : key ≠ k := fun h => hk h.symm
      simp only [keys] at ih
      by_cases hmem : key ∈ t.map (·.1) <;> simp [put, keys, hk, hne, hmem, ih]

end Table

end XmlTemplate
