import XmlTemplate.Proofs.Render.Loads
import XmlTemplate.Proofs.Template.Tree

/-!
# What an engine can come to be asked

During a render an engine is asked for templates and dictionaries, and it remembers. What loading a
path may give is what it gives after any such questions; from this follow the templates that a
template includes, and the tags that can be rendered from a tag on, nested in it or included from
there.
-/

namespace XmlTemplate

/-- The files of templates that are included in a tag. -/
def Tag.files (t : Tag) : List String := t.tags.filterMap fun u => match u.kind with
  | .inclusion file => some file
  | _ => none

theorem Tag.mem_files_iff {t : Tag} {file : String} :
    file ∈ t.files ↔ ∃ u ∈ t.tags, u.kind = .inclusion file := by
  unfold files
  rw [List.mem_filterMap]
  refine exists_congr fun u => and_congr_right fun _ => ?_
  split <;> simp_all

namespace Engine

/-- The one memory follows from the other by questions. -/
def Asked (e : Engine) (m m' : Memory) : Prop := ∃ loads, e.Asks m loads m'

/-- Loading the path gives the template, after some questions. -/
def Gives (e : Engine) (m : Memory) (path : String) (template : Template) : Prop :=
  ∃ m' compiled, e.Asked m m' ∧ (e.load path m').1 = .ok compiled ∧ compiled.template = template

/-- A tag of the one template includes the other one. -/
def Includes (e : Engine) (m : Memory) (template other : Template) : Prop :=
  ∃ t ∈ template.root.tags, ∃ file, t.kind = .inclusion file ∧
    e.Gives m (Path.resolve template.path file) other

/-- The second tag, of the second template, is in the first one, or in what is included from
there. -/
inductive Covers (e : Engine) (m : Memory) : Template → Tag → Template → Tag → Prop
  | self (template : Template) (t : Tag) : Covers e m template t template t
  | child {template other : Template} {t c u : Tag} (hc : .child c ∈ t.children)
      (h : Covers e m template c other u) : Covers e m template t other u
  | inclusion {template included other : Template} {t u : Tag} {file : String}
      (hkind : t.kind = .inclusion file)
      (hgives : e.Gives m (Path.resolve template.path file) included)
      (h : Covers e m included included.root other u) : Covers e m template t other u

variable {e : Engine} {m m' m'' : Memory}

namespace Asked

theorem refl (m : Memory) : e.Asked m m := ⟨[], .done m⟩

theorem trans (h : e.Asked m m') (k : e.Asked m' m'') : e.Asked m m'' := by
  obtain ⟨loads, h⟩ := h
  obtain ⟨loads', k⟩ := k
  exact ⟨_, Asks.trans h k⟩

theorem load (h : e.Asked m m') (path : String) : e.Asked m (e.load path m').2 :=
  h.trans ⟨_, .load path (.done _)⟩

theorem loadDictionary (h : e.Asked m m') (language file : String) :
    e.Asked m (e.loadDictionary language file m').2 :=
  h.trans ⟨_, .dictionary language file (.done _)⟩

theorem parsed (h : e.Asked m m') (exprs : Table Expr) : e.Asked m { m' with parsed := exprs } :=
  h.trans ⟨_, .parsed exprs (.done _)⟩

theorem admits {R : Memory → Memory → Prop} (h : e.Asked m m') (hadmits : e.Admits R) : R m m' := by
  obtain ⟨loads, h⟩ := h
  exact Asks.admits hadmits h

end Asked

theorem Gives.of_load {path : String} {compiled : Compiled} (h : e.Asked m m')
    (hload : (e.load path m').1 = .ok compiled) : e.Gives m path compiled.template :=
  ⟨m', compiled, h, hload, rfl⟩

/-- What is covered from a tag is covered from all tags around it. -/
theorem Covers.of_mem_tags {template other : Template} {t c u : Tag} (hc : c ∈ t.tags)
    (h : e.Covers m template c other u) : e.Covers m template t other u := by
  induction t using Tag.induction with
  | h t ih =>
    rcases Tag.mem_tags_iff.1 hc with rfl | ⟨child, hchild, hc⟩
    · exact h
    · exact .child hchild (ih child hchild hc)

theorem Covers.trans {first second third : Template} {t u v : Tag}
    (h : e.Covers m first t second u) (k : e.Covers m second u third v) :
    e.Covers m first t third v := by
  induction h with
  | self => exact k
  | child hc _ ih => exact .child hc (ih k)
  | inclusion hkind hgives _ ih => exact .inclusion hkind hgives (ih k)

/-- What is covered is in the first tag, or in a template of a set that includes no others. -/
theorem Covers.mem {template other : Template} {t u : Tag} (h : e.Covers m template t other u)
    {S : Template → Prop}
    (hclosed : ∀ included other, S included → e.Includes m included other → S other)
    (hincluded : ∀ v ∈ t.tags, ∀ file, v.kind = .inclusion file → ∀ included,
      e.Gives m (Path.resolve template.path file) included → S included) :
    other = template ∧ u ∈ t.tags ∨ S other ∧ u ∈ other.root.tags := by
  induction h with
  | self template t => exact .inl ⟨rfl, t.mem_tags_self⟩
  | child hc _ ih =>
    have hmem := Tag.mem_tags_of_child hc
    exact (ih fun v hv => hincluded v (Tag.mem_tags_trans hmem hv)).imp_left fun ⟨heq, hu⟩ =>
      ⟨heq, Tag.mem_tags_trans hmem hu⟩
  | @inclusion template included other t u file hkind hgives _ ih =>
    have hS := hincluded t t.mem_tags_self file hkind included hgives
    right
    have hnext := ih fun v hv file hkind next hgives =>
      hclosed included next hS ⟨v, hv, file, hkind, hgives⟩
    exact hnext.elim (fun ⟨heq, hu⟩ => heq ▸ ⟨hS, hu⟩) id

/-- A tag without inclusions covers only what is in it. -/
theorem Covers.mem_of_files {template other : Template} {t u : Tag}
    (h : e.Covers m template t other u) (hfiles : t.files = []) :
    other = template ∧ u ∈ t.tags := by
  refine (h.mem (S := fun _ => False) (fun _ _ => False.elim)
    fun v hv file hkind _ _ => ?_).resolve_right
    fun hother => hother.1
  have hfile := Tag.mem_files_iff.2 ⟨v, hv, hkind⟩
  rw [hfiles] at hfile
  cases hfile

end Engine

end XmlTemplate
