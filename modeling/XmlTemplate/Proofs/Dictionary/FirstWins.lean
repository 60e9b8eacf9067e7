import Mathlib.Data.List.Induction
import XmlTemplate.Proofs.Dictionary.Stored

/-!
# The first text of a key wins

The dictionary of a list of occurrences, told apart from how it is put together: it holds the
occurrences whose key has not come before, in their order, and lists the keys of all others. None is
lost and none is counted twice.
-/

namespace XmlTemplate

namespace Dictionary

/-- The key of a numbered occurrence has not come before. -/
def isNew (occurrences : List (String × String)) (p : (String × String) × Nat) : Bool :=
  p.1.1 ∉ (occurrences.take p.2).map Prod.fst

/-- The dictionary holds the occurrences of which each is the first of its key, and lists the keys
of the later ones. -/
structure IsFirstWins (d : Dictionary) (occurrences : List (String × String)) : Prop where
  /-- In the order of first occurrence. -/
  entries : d.entries = (occurrences.zipIdx.filter fun p => isNew occurrences p).map Prod.fst
  /-- In the order of occurrence. -/
  duplicates : d.duplicates =
    (occurrences.zipIdx.filter fun p => !isNew occurrences p).map fun p => p.1.1
  /-- The text of a key is that of its first occurrence; a key that does not occur has none. -/
  get? : ∀ key, d.get? key = occurrences.lookup key
  /-- No occurrence is lost. -/
  count : d.entries.length + d.duplicates.length = occurrences.length

variable {occurrences : List (String × String)} {d : Dictionary}

/-- One more occurrence does not change which of the others are new. -/
theorem filter_isNew_concat (f : Bool → Bool) (occurrences : List (String × String))
    (o : String × String) :
    ((occurrences ++ [o]).zipIdx.filter fun p => f (isNew (occurrences ++ [o]) p)) =
      (occurrences.zipIdx.filter fun p => f (isNew occurrences p)) ++
        if f (o.1 ∉ occurrences.map Prod.fst) then [(o, occurrences.length)] else [] := by
  have hsame : ∀ p ∈ occurrences.zipIdx,
      f (isNew (occurrences ++ [o]) p) = f (isNew occurrences p) := by
    intro p hp
    have hlt := List.snd_lt_of_mem_zipIdx hp
    rw [isNew, isNew, List.take_append_of_le_length (by omega)]
  have hlast : isNew (occurrences ++ [o]) (o, occurrences.length) =
      decide (o.1 ∉ occurrences.map Prod.fst) := by
    simp [isNew]
  rw [List.zipIdx_append, List.filter_append, List.filter_congr hsame, List.zipIdx_singleton,
    Nat.zero_add, List.filter_cons, hlast, List.filter_nil]

theorem IsFirstWins.has_iff (h : d.IsFirstWins occurrences) (key : String) :
    d.entries.has key = true ↔ key ∈ occurrences.map Prod.fst := by
  have hget : d.entries.get? key = occurrences.lookup key := h.get? key
  rw [Table.has, hget, List.lookup_isSome_iff, List.mem_map]
  simp only [beq_iff_eq, eq_comm (a := key)]

/-- An occurrence that is added is looked up just if its key does not occur yet. -/
theorem IsFirstWins.get?_insert (h : d.IsFirstWins occurrences) (o : String × String)
    (key : String) : (d.insert o).get? key = (occurrences ++ [o]).lookup key := by
  obtain ⟨other, text⟩ := o
  have hget : d.entries.get? key = occurrences.lookup key := h.get? key
  rw [List.lookup_append, ← hget, Dictionary.insert]
  by_cases hkey : key = other
  · subst hkey
    split
    · rename_i hhas
      obtain ⟨found, hfound⟩ := Option.isSome_iff_exists.1 hhas
      rw [hfound]
      exact hfound
    · rename_i hhas
      have hnone : d.entries.get? key = none := by simpa [Table.has] using hhas
      rw [hnone]
      simp [Dictionary.get?]
  · have hbeq : (key == other) = false := by simpa using hkey
    rw [List.lookup_cons, hbeq, List.lookup_nil, Option.or_none]
    split
    · rfl
    · exact Table.get?_put_of_ne hkey text d.entries

/-- Only keys that occur have entries. -/
theorem IsFirstWins.mem_of_mem_keys (h : d.IsFirstWins occurrences) {key : String}
    (hkey : key ∈ Table.keys d.entries) : key ∈ occurrences.map Prod.fst := by
  rw [Table.keys, h.entries, List.map_map] at hkey
  obtain ⟨p, hp, rfl⟩ := List.mem_map.1 hkey
  exact List.mem_map_of_mem (List.fst_mem_of_mem_zipIdx (List.mem_filter.1 hp).1)

theorem IsFirstWins.insert (h : d.IsFirstWins occurrences) (o : String × String) :
    (d.insert o).IsFirstWins (occurrences ++ [o]) := by
  have hget := h.get?_insert o
  have hcount := h.count
  have hnew := filter_isNew_concat id occurrences o
  have hlater := filter_isNew_concat (! ·) occurrences o
  simp only [id] at hnew
  obtain ⟨key, text⟩ := o
  by_cases hkey : key ∈ occurrences.map Prod.fst
  · have hnext : d.insert (key, text) = { d with duplicates := d.duplicates ++ [key] } :=
      if_pos ((h.has_iff key).2 hkey)
    refine ⟨?_, ?_, hget, ?_⟩
    · rw [hnew, hnext, h.entries]
      simp [hkey]
    · rw [hlater, hnext, h.duplicates]
      simp [hkey]
    · rw [hnext]
      simp only [List.length_append, List.length_singleton]
      omega
  · have hnext : d.insert (key, text) = { d with entries := d.entries ++ [(key, text)] } := by
      rw [← Table.put_of_notMem fun hmem => hkey (h.mem_of_mem_keys hmem)]
      exact if_neg fun hhas => hkey ((h.has_iff key).1 hhas)
    refine ⟨?_, ?_, hget, ?_⟩
    · rw [hnew, hnext, h.entries]
      simp [hkey]
    · rw [hlater, hnext, h.duplicates]
      simp [hkey]
    · rw [hnext]
      simp only [List.length_append, List.length_singleton]
      omega

theorem isFirstWins_ofOccurrences (file language : String) (occurrences : List (String × String)) :
    (ofOccurrences file language occurrences).IsFirstWins occurrences := by
  induction occurrences using List.reverseRecOn with
  | nil => exact ⟨rfl, rfl, fun _ => rfl, rfl⟩
  | append_singleton occurrences o ih =>
    rw [ofOccurrences, List.foldl_append]
    exact ih.insert o

end Dictionary

end XmlTemplate
