import XmlTemplate.Proofs.Dictionary.Stored
import XmlTemplate.Proofs.Render.Interpolation
import XmlTemplate.Render.Trans

/-!
# Placeholders

The placeholders of a translation are replaced all at once. The parameters are evaluated first, once
each; then each name that stands in a placeholder is given one text, in the order in which the names
first come. The texts take the places of the placeholders, and are not looked at again.
-/

namespace XmlTemplate

/-! ## The last value of a key -/

namespace Table

variable {α : Type}

theorem get?_foldl_put (key : String) (pairs : List (String × α)) (t : Table α) :
    get? key (pairs.foldl (fun t (key, a) => put key a t) t) =
      (pairs.reverse.lookup key).or (get? key t) := by
  induction pairs generalizing t with
  | nil => rfl
  | cons pair pairs ih =>
    obtain ⟨k, a⟩ := pair
    rw [List.foldl_cons, ih, List.reverse_cons, List.lookup_append, Option.or_assoc]
    by_cases hk : key = k
    · subst hk
      simp
    · have hlookup : List.lookup key [(k, a)] = none := by simp [hk]
      rw [hlookup, Option.none_or, get?_put_of_ne hk]

/-- Of several values that are put under one key the last one counts. -/
theorem get?_ofPairs (key : String) (pairs : List (String × α)) :
    get? key (ofPairs pairs) = pairs.reverse.lookup key := by
  rw [ofPairs, get?_foldl_put]
  exact Option.or_none

theorem has_put (key other : String) (a : α) (t : Table α) :
    has other (put key a t) = (has other t || other == key) := by
  by_cases h : other = key
  · subst h
    simp [has]
  · simp [has, get?_put_of_ne h, h]

theorem notMem_keys_of_has {key : String} {t : Table α} (h : has key t = false) :
    key ∉ keys t := by
  induction t with
  | nil => exact List.not_mem_nil
  | cons p t ih =>
    obtain ⟨k, a⟩ := p
    by_cases hk : k = key
    · simp [has, get?, hk] at h
    · have hne : key ≠ k := fun heq => hk heq.symm
      have hrest : has key t = false := by simpa [has, get?, hk] using h
      simpa [keys, hne] using ih hrest

end Table

namespace Run

private theorem nodup_eraseDups [BEq α] [LawfulBEq α] (l : List α) : l.eraseDups.Nodup := by
  match l with
  | [] => simp
  | a :: l =>
    rw [List.eraseDups_cons, List.nodup_cons]
    constructor
    · intro hmem
      have := List.mem_eraseDups.1 hmem
      simp at this
    · exact nodup_eraseDups _
termination_by l.length
decreasing_by exact Nat.lt_succ_of_le (List.length_filter_le _ _)

/-- The name in a placeholder. -/
def name (r : Run) : String := String.ofList r.inner

/-- The names in placeholders, each one once, in the order in which they first come. -/
def names (runs : List Run) : List String := (runs.map name).eraseDups

theorem nodup_names (runs : List Run) : (names runs).Nodup := nodup_eraseDups _

theorem mem_names_iff {runs : List Run} {n : String} : n ∈ names runs ↔ ∃ r ∈ runs, r.name = n := by
  rw [names, List.mem_eraseDups, List.mem_map]

end Run

namespace Render

variable (e : Engine) (inner : Renderer) (view : Nat)

/-! ## Parameters -/

/-- The parameter that a child is, if it is one and its condition holds. -/
def heldParameter (child : Tag) : Render (Option (String × Value)) :=
  match child.kind with
  | .param name value => do
    let isThere ← condition e view child
    if isThere then
      match value with
      | some d =>
        let v ← evaluate e (child.place view) d.expr
        return some (name, v)
      | none =>
        let text ← content inner view child
        return some (name, .string (oneLine text))
    else return none
  | _ => return none

theorem addParameter_eq (done : Table Value) (child : Tag) :
    addParameter e inner view done child = (do
      let held ← heldParameter e inner view child
      return (held.toList.foldl (fun t (key, v) => Table.put key v t) done)) := by
  unfold addParameter heldParameter
  cases child.kind with
  | param name value =>
    simp only [bind_assoc]
    refine bind_congr fun isThere => ?_
    cases isThere with
    | false => rfl
    | true => cases value <;> simp
  | _ => rfl

theorem foldlM_addParameter (children : List Tag) (done : Table Value) :
    children.foldlM (addParameter e inner view) done = (do
      let held ← children.mapM (heldParameter e inner view)
      return ((held.filterMap id).foldl (fun t (key, v) => Table.put key v t) done)) := by
  induction children generalizing done with
  | nil => rfl
  | cons child children ih =>
    simp only [List.foldlM_cons, addParameter_eq, bind_assoc, pure_bind, ih, List.mapM_cons]
    refine bind_congr fun held => ?_
    cases held with
    | none => rfl
    | some p => rfl

/-- The parameters of a tag are those of its children, where the last one of a name counts. -/
theorem parameters_eq (t : Tag) :
    parameters e inner view t = (do
      let held ← t.childTags.mapM (heldParameter e inner view)
      return Table.ofPairs (held.filterMap id)) :=
  foldlM_addParameter e inner view t.childTags []

/-! ## Names -/

/-- The text of a name: of the last parameter of this name, else of the attribute as an expression,
else none. -/
def textOfName (t : Tag) (held : List (String × Value)) (name : String) : Render String :=
  match held.reverse.lookup name with
  | some v => textOf (t.place view) v
  | none =>
    match t.attributes.lookup name with
    | some raw => expressionText e (t.place view) raw
    | none => return ""

theorem placeholder_eq (t : Tag) (held : List (String × Value)) :
    placeholder e view t (Table.ofPairs held) = textOfName e view t held := by
  funext name
  rw [placeholder, textOfName, Table.get?_ofPairs]
  rfl

/-- What is known behind pieces: the texts of the names that were new, one after the other. -/
theorem foldlM_addPlaceholder (t : Tag) (parameters : Table Value) (runs : List Run)
    (last : List Char) (known : Table String) :
    (Run.pieces runs last).foldlM (addPlaceholder e view t parameters) known = (do
      let names := ((runs.map Run.name).filter fun name => !known.has name).eraseDups
      let texts ← names.mapM (placeholder e view t parameters)
      return known ++ names.zip texts) := by
  have hliteral (text : List Char) (known : Table String) :
      (Run.literal text).foldlM (addPlaceholder e view t parameters) known = pure known := by
    cases text <;> rfl
  induction runs generalizing known with
  | nil => simp [Run.pieces, hliteral]
  | cons r runs ih =>
    have hrun : addPlaceholder e view t parameters known (.run r.inner) =
        if known.has r.name then pure known else do
          let text ← placeholder e view t parameters r.name
          return Table.put r.name text known := rfl
    rw [Run.pieces, List.foldlM_append, hliteral, pure_bind, List.foldlM_cons, hrun, List.map_cons]
    by_cases hknown : known.has r.name
    · rw [if_pos hknown, pure_bind, ih, List.filter_cons_of_neg (by simp [hknown])]
    · -- the name is known from here on, and so is not among the new ones of the other runs
      have hnew := Table.put_of_notMem (Table.notMem_keys_of_has (Bool.eq_false_iff.2 hknown))
        (α := String)
      have hothers (text : String) : (runs.map Run.name).filter
          (fun name => !(Table.put r.name text known).has name) =
          ((runs.map Run.name).filter fun name => !known.has name).filter (!· == r.name) := by
        rw [List.filter_filter]
        refine List.filter_congr fun name _ => ?_
        rw [Table.has_put, Bool.not_or, Bool.and_comm]
      rw [if_neg hknown, List.filter_cons_of_pos (by simp [hknown]), List.eraseDups_cons]
      simp only [bind_assoc, pure_bind, ih, hothers, List.mapM_cons]
      simp only [hnew, List.append_assoc, List.zip_cons_cons, List.singleton_append]

/-- What is known in the end: each name of a placeholder with its text. -/
theorem foldlM_addPlaceholder_nil (t : Tag) (held : List (String × Value)) (runs : List Run)
    (last : List Char) :
    (Run.pieces runs last).foldlM (addPlaceholder e view t (Table.ofPairs held)) [] = (do
      let texts ← (Run.names runs).mapM (textOfName e view t held)
      return (Run.names runs).zip texts) := by
  have hall : ((runs.map Run.name).filter fun name => !Table.has name ([] : Table String)) =
      runs.map Run.name := List.filter_eq_self.2 fun _ _ => rfl
  rw [foldlM_addPlaceholder, hall, placeholder_eq]
  rfl

/-- The texts of placeholders stand where their names are. -/
theorem flatMap_filled (runs : List Run) (last : List Char) (known : Table String) :
    (Run.pieces runs last).flatMap (filled known) =
      Run.fill runs (runs.map fun r => ((known.get? r.name).getD "").toList) last := by
  have hliteral (text : List Char) : (Run.literal text).flatMap (filled known) = text := by
    cases text with
    | nil => rfl
    | cons c text => simp [Run.literal, filled]
  induction runs with
  | nil => simp [Run.pieces, hliteral, Run.fill]
  | cons r runs ih =>
    rw [Run.pieces, List.flatMap_append, hliteral, List.flatMap_cons, ih, List.map_cons,
      Run.fill_cons, ← List.append_assoc]
    rfl

theorem any_isRun (runs : List Run) (last : List Char) :
    (Run.pieces runs last).any Piece.isRun = !runs.isEmpty := by
  have hliteral (text : List Char) : (Run.literal text).any Piece.isRun = false := by
    cases text <;> rfl
  cases runs with
  | nil => exact hliteral last
  | cons r runs => simp [Run.pieces, hliteral, Piece.isRun]

/-- Placeholders are one substitution. The placeholders of a text are the first ones in it that do
not overlap, each up to the next closing brace. If there are any, the parameters are evaluated once
each; then each name, once, is given the text of the last parameter of this name that is there, else
of the attribute of this name as an expression, else none; then each placeholder is replaced by the
text of its name. -/
theorem fillPlaceholders_substitutes (t : Tag) (text : String) :
    ∃ runs last, Run.Finds '\x7d' text.toList runs last ∧
      (∀ runs' last', Run.Finds '\x7d' text.toList runs' last' → runs' = runs ∧ last' = last) ∧
      (Run.names runs).Nodup ∧ (∀ name, name ∈ Run.names runs ↔ ∃ r ∈ runs, r.name = name) ∧
      fillPlaceholders e inner view t text = (
        if runs.isEmpty then pure text
        else do
          let held ← t.childTags.mapM (heldParameter e inner view)
          let texts ← (Run.names runs).mapM (textOfName e view t (held.filterMap id))
          let known := (Run.names runs).zip texts
          return String.ofList (Run.fill runs
            (runs.map fun r => ((Table.get? r.name known).getD "").toList) last)) := by
  obtain ⟨runs, last, hfinds, hpieces⟩ := Run.exists_finds Run.takes_placeholder? text.toList
  refine ⟨runs, last, hfinds, fun _ _ => hfinds.unique, Run.nodup_names runs,
    fun name => Run.mem_names_iff, ?_⟩
  rw [fillPlaceholders, Piece.ofTranslation, hpieces, any_isRun]
  cases runs with
  | nil => rfl
  | cons r runs =>
    simp only [List.isEmpty_cons, Bool.not_false, if_true, parameters_eq, bind_assoc, pure_bind,
      foldlM_addPlaceholder_nil, flatMap_filled]
    rfl

end Render

end XmlTemplate
