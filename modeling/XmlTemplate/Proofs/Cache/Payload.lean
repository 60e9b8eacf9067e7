import XmlTemplate.Proofs.Dictionary.Stored
import XmlTemplate.Proofs.Template.Numbers

/-!
# What is cached comes back

Templates and dictionaries are equal to what is read of their stored forms, except for trees with
too many containers within each other, of which nothing is read.
-/

namespace XmlTemplate

/-- Whatever fits is read back, and nothing else is. -/
theorem Json.ReadsBack.eq_ite {read? : Json.Draft → Option α} {j : Json} {a : α}
    (h : ReadsBack read? j a) {depth : Nat} (hdepth : depth < maxDepth) :
    read? (.ofJson depth j) = if depth + j.nesting < maxDepth then some a else none := by
  rw [h depth, given]
  exact ite_congr (propext (fits_iff hdepth j)) (fun _ => rfl) fun _ => rfl

theorem Dictionary.fieldsNesting_entries (entries : Table String) :
    Json.fieldsNesting (entries.map fun (key, text) => (key, .string text)) = 0 := by
  induction entries with
  | nil => rfl
  | cons p rest ih => simp [Json.fieldsNesting, Json.nesting, ih]

theorem Dictionary.nesting_toJson (d : Dictionary) : d.toJson.nesting = 2 := by
  have hduplicates (duplicates : List String) :
      Json.itemsNesting (duplicates.map .string) = 0 := by
    induction duplicates with
    | nil => rfl
    | cons s rest ih => simp [Json.itemsNesting, Json.nesting, ih]
  simp [toJson, Json.nesting, Json.fieldsNesting, fieldsNesting_entries, hduplicates]

namespace Cache

/-- A page of a few tags. -/
def pageText : String :=
  "<a fig:cond=\"not x/['k'] or f(1)\" b=\"c\">t<fig:param name=\"n\" value=\"2\"/>\n" ++
    "<i fig:walk=\"items\"/></a>"

/-- A tag with an expression of 61 signs. -/
def manySigns : String :=
  "<a fig:text=\"" ++ String.ofList (List.replicate 61 '-') ++ "x\"/>"

/-- The stored form of a compiled template or of a dictionary is read back as it was wherever its
containers fit, and a template that does not fit is not read at all. Texts have less characters
than a stored number counts, and floats are as exact as their texts. -/
theorem payload_reads_back :
    (∀ path lead text t, Template.compile path lead text = .ok t →
      text.toList.length < maxStored → (∀ f ∈ t.floats, f.isFinite) →
      (∀ f ∈ t.floats, Json.Draft.read? (Json.floatText f) = some (.float f)) →
      ∀ depth < Json.maxDepth, Template.ofDraft? (.ofJson depth t.toJson) =
        if depth + t.toJson.nesting < Json.maxDepth then some t else none) ∧
    ∀ d : Dictionary, (Table.keys d.entries).Nodup →
      ∀ depth, depth + 2 < Json.maxDepth →
        Dictionary.ofDraft? (.ofJson depth d.toJson) = some d := by
  constructor
  · intro path lead text t h hsize hfinite hread depth hdepth
    have hnumbers := Template.upTo_of_compile h hsize
    exact (t.readsBack hnumbers fun f hf => ⟨hfinite f hf, hread f hf⟩).eq_ite hdepth
  · intro d h depth hdepth
    have hread := (Dictionary.readsBack h).eq_ite (Nat.lt_of_add_right_lt hdepth)
    rwa [d.nesting_toJson, if_pos hdepth] at hread

/-- A page with a condition, a parameter and a walked tag, as the payload of an entry, and a
dictionary with a key that comes twice. -/
theorem payload_reads_back_page :
    (∃ t, Template.compile "page.xml" "fig:" pageText = .ok t ∧
      Template.ofDraft? (.ofJson 1 t.toJson) = some t) ∧
    Dictionary.ofDraft? (.ofJson 1 (Dictionary.toJson ⟨"d", "fr", [("k", "v")], ["k"]⟩)) =
      some ⟨"d", "fr", [("k", "v")], ["k"]⟩ := by
  refine ⟨?_, payload_reads_back.2 _ (by decide) 1 (by decide)⟩
  have h : (Template.compile "page.xml" "fig:" pageText).toOption.any (fun t =>
      t.floats.isEmpty && 1 + t.toJson.nesting < Json.maxDepth) := by
    decide +kernel
  obtain ⟨t, hcompile, htest⟩ := Outcome.exists_of_any h
  obtain ⟨hfloats, hnesting⟩ := Bool.and_eq_true_iff.1 htest
  have hnone := List.isEmpty_iff.1 hfloats
  have hread := payload_reads_back.1 "page.xml" "fig:" pageText t hcompile (by decide +kernel)
    (by simp [hnone]) (by simp [hnone]) 1 (by decide)
  exact ⟨t, hcompile, hread.trans (if_pos (of_decide_eq_true hnesting))⟩

/-- An expression with many signs has too many containers within each other: the template compiles
and is not read back. -/
theorem not_payload_reads_back_of_any_depth :
    ¬ ∀ path lead text t, Template.compile path lead text = .ok t → (∀ f ∈ t.floats, f.isFinite) →
      (∀ f ∈ t.floats, Json.Draft.read? (Json.floatText f) = some (.float f)) →
        Template.ofDraft? (.ofJson 0 t.toJson) = some t := by
  intro hall
  have h : (Template.compile "page.xml" "fig:" manySigns).toOption.any (fun t =>
      t.floats.isEmpty && (Template.ofDraft? (.ofJson 0 t.toJson)).isNone) := by
    decide +kernel
  obtain ⟨t, hcompile, htest⟩ := Outcome.exists_of_any h
  obtain ⟨hfloats, hread⟩ := Bool.and_eq_true_iff.1 htest
  have hnone := List.isEmpty_iff.1 hfloats
  rw [hall "page.xml" "fig:" manySigns t hcompile (by simp [hnone]) (by simp [hnone])] at hread
  cases hread

end Cache

end XmlTemplate
