import XmlTemplate.Dictionary.Stored
import XmlTemplate.Proofs.Json.ReadBack

/-!
# Stored dictionaries are read back

Entries are stored as the fields of an object, of which the last one of a key counts. Parsing never
makes two entries of one key, so that all of them come back in their order.
-/

namespace XmlTemplate

open Json (ReadsBack given bind_given)
open Json.Draft

namespace Table

theorem put_of_notMem {key : String} {t : Table α} (h : key ∉ keys t) (a : α) :
    put key a t = t ++ [(key, a)] := by
  induction t with
  | nil => rfl
  | cons p t ih =>
    obtain ⟨k, b⟩ := p
    have hne : k ≠ key := fun heq => h (heq ▸ List.mem_cons_self ..)
    rw [put, if_neg hne, ih fun hmem => h (List.mem_cons_of_mem k hmem)]
    rfl

theorem nodup_put {t : Table α} (h : (keys t).Nodup) (key : String) (a : α) :
    (keys (put key a t)).Nodup := by
  rw [keys_put]
  split
  · exact h
  · rename_i hnew
    refine List.nodup_append.2 ⟨h, by simp, fun k hk k' hk' heq => ?_⟩
    cases List.mem_singleton.1 hk'
    exact hnew (heq ▸ hk)

/-- Pairs of keys that are new come behind a table. -/
theorem foldl_put_of_nodup {t : Table α} {pairs : List (String × α)}
    (h : (keys (t ++ pairs)).Nodup) :
    pairs.foldl (fun t (key, a) => put key a t) t = t ++ pairs := by
  induction pairs generalizing t with
  | nil => simp
  | cons p pairs ih =>
    obtain ⟨key, a⟩ := p
    have hkey : key ∉ keys t := by
      intro hmem
      simp only [keys, List.map_append, List.map_cons] at h
      exact (List.nodup_append.1 h).2.2 key hmem key (List.mem_cons_self ..) rfl
    have hnext : (keys (t ++ [(key, a)] ++ pairs)).Nodup := by simpa using h
    calc pairs.foldl (fun t (key, a) => put key a t) (put key a t)
        = pairs.foldl (fun t (key, a) => put key a t) (t ++ [(key, a)]) := by
          rw [put_of_notMem hkey]
      _ = t ++ [(key, a)] ++ pairs := ih hnext
      _ = t ++ (key, a) :: pairs := by simp

/-- Pairs of different keys make the table that they are. -/
theorem ofPairs_of_nodup {pairs : List (String × α)} (h : (keys pairs).Nodup) :
    ofPairs pairs = pairs :=
  foldl_put_of_nodup h

end Table

/-- A table without two values of one key is read back if its values are. -/
theorem Json.Draft.readsBack_table {read? : Json.Draft → Option α} {write : α → Json} {t : Table α}
    (hread : ∀ a, ReadsBack read? (write a) a) (h : (Table.keys t).Nodup) :
    ReadsBack (table? read?) (.object (t.map fun (key, a) => (key, write a))) t := by
  have hfields (depth : Nat) :
      (ofFields depth (t.map fun (key, a) => (key, write a))).mapM
        (fun (field : String × Json.Draft) => (read? field.2).map (field.1, ·)) =
          given (Json.fieldsFit depth (t.map fun (key, a) => (key, write a))) t := by
    clear h
    induction t with
    | nil => rfl
    | cons p t ih =>
      obtain ⟨key, a⟩ := p
      rw [List.map_cons, ofFields, List.mapM_cons, ih, hread a depth, Json.map_given]
      exact bind_given (by
        cases Json.fieldsFit depth (t.map fun (key, a) => (key, write a)) <;> rfl)
  intro depth
  rw [ofJson_object, Json.fits]
  by_cases hdepth : depth + 1 < Json.maxDepth
  · rw [if_pos hdepth, decide_eq_true hdepth, table?, hfields, Json.map_given,
      Table.ofPairs_of_nodup h, Bool.true_and]
  · rw [if_neg hdepth, decide_eq_false hdepth]
    rfl

namespace Dictionary

theorem nodup_insert {d : Dictionary} (h : (Table.keys d.entries).Nodup) (p : String × String) :
    (Table.keys (d.insert p).entries).Nodup := by
  rw [insert]
  split
  · exact h
  · exact Table.nodup_put h _ _

theorem nodup_of_parse {file language text : String} {d : Dictionary}
    (h : parse file language text = .ok d) : (Table.keys d.entries).Nodup := by
  unfold parse at h
  cases hoccurrences : occurrences (.ofFile file) file text with
  | error fault =>
    rw [hoccurrences] at h
    cases h
  | ok found =>
    rw [hoccurrences] at h
    cases h
    suffices hfrom : ∀ d : Dictionary, (Table.keys d.entries).Nodup →
        (Table.keys (found.foldl insert d).entries).Nodup from hfrom _ List.nodup_nil
    clear hoccurrences
    induction found with
    | nil => exact fun d hd => hd
    | cons p found ih => exact fun d hd => ih _ (nodup_insert hd p)

theorem bind_duplicatesOfDraft? {depth : Nat} {fields : List (String × Json)}
    {duplicates : List String} {f : List String → Option β} {b : β} {rest : Bool}
    (h : Table.get? "duplicates" fields = some (.array (duplicates.map .string)))
    (hrest : f duplicates = given rest b) :
    (duplicatesOfDraft? (Json.Draft.ofFields depth fields)).bind f =
      given ((Json.array (duplicates.map .string)).fits depth && rest) b := by
  have hread := readsBack_array duplicates (fun s _ => readsBack_string s) depth
  simp only at hread
  simp only [duplicatesOfDraft?, get?_ofFields, h, Option.map_some, hread]
  exact bind_given hrest

/-- A dictionary without two entries of one key is read back from the tree that it is written
as. -/
theorem readsBack {d : Dictionary} (h : (Table.keys d.entries).Nodup) :
    ReadsBack Dictionary.ofDraft? d.toJson d := by
  refine readsBack_record _ rfl (by decide) fun depth => ?_
  refine bind_required? rfl (readsBack_string d.file) ?_
  refine bind_required? rfl (readsBack_string d.language) ?_
  refine bind_required? rfl (readsBack_table readsBack_string h) ?_
  exact bind_duplicatesOfDraft? rfl rfl

end Dictionary

end XmlTemplate
