import XmlTemplate.Proofs.Path

/-!
# Extensions of paths

The extension of a path is told by its text alone: it is what follows the last point, unless nothing
of the name is before that point.
-/

namespace XmlTemplate

namespace Text

variable {p : Char → Bool} {text rest : List Char}

theorem cutAtLast?_eq_none (h : ∀ d ∈ text, p d = false) : cutAtLast? p text = none := by
  induction text with
  | nil => rfl
  | cons d text ih =>
    obtain ⟨hd, htext⟩ := List.forall_mem_cons.1 h
    rw [cutAtLast?, ih htext, hd]
    rfl

theorem cutAtLast?_append {c : Char} (hc : p c) (hrest : ∀ d ∈ rest, p d = false)
    (before : List Char) : cutAtLast? p (before ++ c :: rest) = some (before, rest) := by
  induction before with
  | nil => rw [List.nil_append, cutAtLast?, cutAtLast?_eq_none hrest, hc, if_pos rfl]
  | cons d before ih => rw [List.cons_append, cutAtLast?, ih]

theorem isSome_cutAt?_iff : (cutAt? p text).isSome ↔ ∃ c ∈ text, p c := by
  induction text with
  | nil => simp [cutAt?]
  | cons c text ih =>
    rw [cutAt?]
    split <;> simp_all [consFirst]

end Text

namespace Path

/-- The pieces of a path between its slashes. -/
def pieces (path : String) : List (List Char) := Text.splitAt (· == '/') path.toList

/-- A piece that names a file or a folder. -/
structure IsName (piece : List Char) : Prop where
  isIdle : isIdle piece = false
  isClimb : isClimb piece = false

instance (piece : List Char) : Decidable (IsName piece) :=
  decidable_of_iff (Path.isIdle piece = false ∧ Path.isClimb piece = false)
    ⟨fun ⟨hidle, hclimb⟩ => ⟨hidle, hclimb⟩, fun h => ⟨h.isIdle, h.isClimb⟩⟩

/-- A path that is made of names only. -/
def IsRelative (path : String) : Prop := ∀ piece ∈ pieces path, IsName piece

instance (path : String) : Decidable (IsRelative path) :=
  inferInstanceAs (Decidable (∀ piece ∈ pieces path, IsName piece))

variable {path : String} {outer : List (List Char)} {name before extension : List Char}

theorem fileName?_eq_some (h : pieces path = outer ++ [name]) (hname : IsName name) :
    fileName? path = some name := by
  have hkeep : (name != [] && name != ['.']) = true := by
    simpa [Path.isIdle] using hname.isIdle
  unfold fileName?
  unfold pieces at h
  have hlast : (List.filter (fun piece => piece != [] && piece != ['.']) [name]) = [name] :=
    List.filter_cons_of_pos hkeep
  simp only [h, List.filter_append, hlast, List.getLast?_concat, hname.isClimb,
    Bool.false_eq_true, if_false]

/-- Every text ends with a name behind its last slash, which is its last piece, and other names can
stand in its place. -/
theorem exists_lead (text : List Char) : ∃ lead outer name, text = lead ++ name ∧ '/' ∉ name ∧
    (lead = [] ∨ lead.getLast? = some '/') ∧
      ∀ other, '/' ∉ other → pieces (String.ofList (lead ++ other)) = outer ++ [other] := by
  have hplain {other : List Char} (h : '/' ∉ other) : ∀ c ∈ other, (c == '/') = false :=
    fun c hc => beq_eq_false_iff_ne.2 fun heq => h (heq ▸ hc)
  unfold pieces
  cases hcut : Text.cutAtLast? (· == '/') text with
  | none =>
    have hnone := Text.of_cutAtLast?_eq_none hcut
    refine ⟨[], [], text, rfl, fun hmem => ?_, .inl rfl, fun other hother => ?_⟩
    · exact Bool.false_ne_true ((hnone '/' hmem).symm.trans rfl)
    · rw [String.toList_ofList]
      exact Text.splitAt_eq_singleton (hplain hother)
  | some p =>
    obtain ⟨front, name⟩ := p
    obtain ⟨c, hc, rfl, hrest⟩ := Text.of_cutAtLast? hcut
    cases eq_of_beq hc
    refine ⟨front ++ ['/'], Text.splitAt (· == '/') front, name, by simp, fun hmem => ?_, .inr ?_,
      fun other hother => ?_⟩
    · exact Bool.false_ne_true ((hrest '/' hmem).symm.trans rfl)
    · exact List.getLast?_concat
    · rw [String.toList_ofList, List.append_assoc, List.singleton_append,
        Text.splitAt_append rfl, Text.splitAt_eq_singleton (hplain hother)]

/-- The extension of a path is that of its name. -/
theorem extension?_eq (h : pieces path = outer ++ [name]) (hname : IsName name) :
    extension? path = match Text.cutAtLast? (· == '.') name with
      | some ([], _) => none
      | some (_, extension) => some (String.ofList extension)
      | none => none := by
  rw [extension?, fileName?_eq_some h hname]
  rfl

/-- A name with an extension ends with a point and the extension. -/
theorem exists_stem_of_extension? {text : String} (h : pieces path = outer ++ [name])
    (hname : IsName name) (hextension : extension? path = some text) :
    ∃ stem, stem ≠ [] ∧ name = stem ++ '.' :: text.toList := by
  rw [extension?_eq h hname] at hextension
  split at hextension
  · cases hextension
  · rename_i stem extension hstem hcut
    cases hextension
    obtain ⟨c, hc, rfl, -⟩ := Text.of_cutAtLast? hcut
    cases eq_of_beq hc
    exact ⟨stem, hstem, by rw [String.toList_ofList]⟩
  · cases hextension

/-- What is behind the last point is the extension if the name does not begin there. -/
theorem extension?_append (hne : extension ≠ []) (hextension : '/' ∉ extension ∧ '.' ∉ extension)
    (before : List Char) : extension? (String.ofList (before ++ '.' :: extension)) =
      if before = [] ∨ before.getLast? = some '/' then none
      else some (String.ofList extension) := by
  obtain ⟨lead, outer, stem, rfl, hstem, hlead, hpieces⟩ := exists_lead before
  have hslash : '/' ∉ stem ++ '.' :: extension := by simp [hstem, hextension.1]
  have hname : IsName (stem ++ '.' :: extension) := by
    constructor
    · cases stem with
      | nil => simpa [Path.isIdle] using hne
      | cons c stem => simp [Path.isIdle]
    · refine beq_eq_false_iff_ne.2 fun heq => ?_
      match stem with
      | [] => exact hextension.2 ((List.cons.inj heq).2 ▸ List.mem_singleton_self _)
      | [_] => exact hne (List.cons.inj (List.cons.inj heq).2).2
      | _ :: _ :: stem => exact absurd (List.cons.inj (List.cons.inj heq).2).2 (by simp)
  have hcut : Text.cutAtLast? (· == '.') (stem ++ '.' :: extension) = some (stem, extension) := by
    refine Text.cutAtLast?_append rfl (fun d hd => beq_eq_false_iff_ne.2 ?_) stem
    rintro rfl
    exact hextension.2 hd
  rw [List.append_assoc, extension?_eq (hpieces _ hslash) hname, hcut]
  cases stem with
  | nil =>
    rw [if_pos]
    simpa using hlead
  | cons c stem =>
    rw [if_neg]
    rintro (hnil | hlast)
    · simp at hnil
    · refine hstem ?_
      rw [List.getLast?_append, List.getLast?_cons, Option.some_or] at hlast
      exact List.mem_of_getLast? ((List.getLast?_cons ..).trans hlast)

end Path

end XmlTemplate
