import XmlTemplate.Path
import XmlTemplate.Proofs.Files.Segment

/-!
# Normalized paths

A normalized path is made of segments that lead further down, so that normalizing it again changes
nothing. Other paths are read from the folder of a template, and from nothing else of its path.
-/

namespace XmlTemplate

/-- The pieces of a text hold none of the characters that it is split at. -/
theorem Text.eq_false_of_mem_splitAt {p : Char → Bool} {text piece : List Char}
    (h : piece ∈ splitAt p text) : ∀ c ∈ piece, p c = false := by
  induction text generalizing piece with
  | nil =>
    rw [splitAt, List.mem_singleton] at h
    subst h
    exact List.forall_mem_nil _
  | cons c text ih =>
    rw [splitAt] at h
    split at h
    · rcases List.mem_cons.1 h with rfl | h
      · exact List.forall_mem_nil _
      · exact ih h
    · rename_i hc
      have hc := Bool.eq_false_iff.2 hc
      split at h
      · rw [List.mem_singleton] at h
        subst h
        exact List.forall_mem_singleton.2 hc
      · rename_i first rest heq
        rw [heq] at ih
        rcases List.mem_cons.1 h with rfl | h
        · exact List.forall_mem_cons.2 ⟨hc, ih (List.mem_cons_self ..)⟩
        · exact ih (List.mem_cons_of_mem _ h)

/-- Pieces that are joined are taken apart again. -/
theorem Text.splitAt_intercalate {p : Char → Bool} {mark : Char} {pieces : List (List Char)}
    (hmark : p mark) (hne : pieces ≠ []) (h : ∀ x ∈ pieces, ∀ c ∈ x, p c = false) :
    splitAt p (List.intercalate [mark] pieces) = pieces := by
  induction pieces with
  | nil => exact absurd rfl hne
  | cons piece rest ih =>
    obtain ⟨hpiece, hrest⟩ := List.forall_mem_cons.1 h
    cases rest with
    | nil => rw [List.intercalate_singleton, splitAt_eq_singleton hpiece]
    | cons next rest =>
      rw [List.intercalate_cons_cons, List.append_assoc, List.singleton_append,
        splitAt_append hmark, ih nofun hrest, splitAt_eq_singleton hpiece, List.singleton_append]

namespace Path

/-- A segment that leads further down. -/
structure IsStep (segment : List Char) : Prop where
  isIdle : isIdle segment = false
  isClimb : isClimb segment = false
  isSeparator : ∀ c ∈ segment, isSeparator c = false

variable {place path : List (List Char)}

theorem isStep_of_mem_follow (hplace : ∀ x ∈ place, IsStep x)
    (hpath : ∀ x ∈ path, ∀ c ∈ x, isSeparator c = false) : ∀ x ∈ follow place path, IsStep x := by
  fun_induction follow place path with
  | case1 => exact hplace
  | case2 place segment rest hi ih => exact ih hplace (List.forall_mem_cons.1 hpath).2
  | case3 place segment rest hi hc ih =>
    exact ih (fun x hx => hplace x (List.mem_of_mem_tail hx)) (List.forall_mem_cons.1 hpath).2
  | case4 place segment rest hi hc ih =>
    obtain ⟨hsegment, hrest⟩ := List.forall_mem_cons.1 hpath
    have hstep : IsStep segment := ⟨Bool.eq_false_iff.2 hi, Bool.eq_false_iff.2 hc, hsegment⟩
    exact ih (List.forall_mem_cons.2 ⟨hstep, hplace⟩) hrest

/-- Steps are followed one after the other. -/
theorem follow_eq (h : ∀ x ∈ path, IsStep x) : follow place path = path.reverse ++ place := by
  induction path generalizing place with
  | nil => rfl
  | cons segment rest ih =>
    obtain ⟨hsegment, hrest⟩ := List.forall_mem_cons.1 h
    rw [follow, hsegment.isIdle, hsegment.isClimb, if_neg Bool.false_ne_true,
      if_neg Bool.false_ne_true, ih hrest, List.reverse_cons, List.append_assoc,
      List.singleton_append]

theorem splitAt_intercalate (hne : path ≠ []) (h : ∀ x ∈ path, IsStep x) :
    Text.splitAt isSeparator (List.intercalate ['/'] path) = path :=
  Text.splitAt_intercalate rfl hne fun x hx => (h x hx).isSeparator

theorem follow_segments_join (h : ∀ x ∈ place, IsStep x) :
    follow [] (segments (join place)) = place := by
  rw [segments, join, String.toList_ofList]
  cases place with
  | nil => rfl
  | cons segment rest =>
    have hreverse : ∀ x ∈ (segment :: rest).reverse, IsStep x := fun x hx =>
      h x (List.mem_reverse.1 hx)
    rw [splitAt_intercalate (by simp) hreverse, follow_eq hreverse, List.reverse_reverse,
      List.append_nil]

@[simp] theorem normalize_normalize (path : String) :
    normalize (normalize path) = normalize path := by
  have hsteps : ∀ x ∈ follow [] (segments path), IsStep x :=
    isStep_of_mem_follow nofun fun _ hx => Text.eq_false_of_mem_splitAt hx
  unfold normalize
  rw [follow_segments_join hsteps]

/-- All paths lead from two templates to the same. -/
def InSameFolder (base base' : String) : Prop :=
  ∀ relative, resolve base relative = resolve base' relative

theorem inSameFolder_of_folder_eq {base base' : String} (h : folder base = folder base') :
    InSameFolder base base' := by
  intro relative
  unfold resolve
  rw [h]

end Path

end XmlTemplate
