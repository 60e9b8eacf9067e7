import XmlTemplate.Proofs.Markup.Single
import XmlTemplate.Proofs.Path
import XmlTemplate.Proofs.Render.Call
import XmlTemplate.Proofs.Render.Retold
import XmlTemplate.Proofs.Template.Rename

/-!
# A prefix of its own

A document may use a prefix of its own for the control namespace. Whatever templates there are
besides it, it is then rendered as before, unless a template shows the file of the document as it is
written.
-/

namespace XmlTemplate

/-- The reason without the name of the tag where a fault shows. -/
def Stop.withoutTag : Stop → Stop
  | fault f => fault f.withoutTag
  | stop => stop

namespace Engine

/-- No template shows the file at the path as it is written. -/
def IsUnshown (e : Engine) (m : Memory) (path : String) : Prop :=
  ∀ other compiled, (e.load other m).1 = .ok compiled →
    ∀ t ∈ compiled.template.root.tags, ∀ file, t.kind = .verbatim file →
      Path.normalize (Path.resolve compiled.template.path file) ≠ Path.normalize path

/-- With another source and another memory, the engine has another text under one path, and the same
texts and dictionaries otherwise. What it remembers was compiled of its texts, and its answers do
not depend on what was asked before. -/
structure Rewrites (e : Engine) (m : Memory) (source : Source) (m' : Memory)
    (path text text' : String) : Prop where
  steady : e.Steady m
  steady' : Steady { e with source := source } m'
  current : e.IsCurrent m
  current' : IsCurrent { e with source := source } m'
  parsed : m'.parsed = m.parsed
  text : (e.source.read m.files (Path.normalize path)).map Revision.text = .ok text
  text' : (source.read m'.files (Path.normalize path)).map Revision.text = .ok text'
  others {other : String} (h : Path.normalize other ≠ Path.normalize path) :
    (source.read m'.files other).map Revision.text =
      (e.source.read m.files other).map Revision.text
  loadDictionary (language file : String) :
    (Engine.loadDictionary { e with source := source } language file m').1 =
      (e.loadDictionary language file m).1

variable {e : Engine} {m m' : Memory} {source : Source} {path text text' : String}

theorem due_eq (e : Engine) (files : Files) (path : String) : e.due files path = (do
    let text ← (e.source.read files (Path.normalize path)).map Revision.text
    e.compile (Path.normalize path) text) := by
  unfold due
  cases e.source.read files (Path.normalize path) <;> rfl

theorem due_congr {other : String} (hother : Path.normalize other = Path.normalize path)
    (e : Engine) (files : Files) : e.due files other = e.due files path := by
  unfold due
  rw [hother]

theorem IsCurrent.loadUnnamed_eq (h : e.IsCurrent m) (path : String) :
    e.loadUnnamed path m = (e.due m.files path).map Template.unnamed := by
  rw [← h.load_eq path, loadUnnamed]
  cases (e.load path m).1 <;> rfl

/-- What cannot be compiled cannot be rendered. -/
theorem IsCurrent.renderFile_eq_error (h : e.IsCurrent m) {fault : Fault}
    (hdue : e.due m.files path = .error fault) (data : Value) (language : Option String) :
    (e.renderFile path data language m).1 = .error (.fault fault) := by
  have hload := (h.load_eq path).trans hdue
  unfold renderFile
  generalize e.load path m = r at hload
  obtain ⟨answer, n⟩ := r
  cases answer with
  | error fault' =>
    cases hload
    rfl
  | ok compiled => cases hload

/-- What can be compiled is rendered with what loading it has left. -/
theorem IsCurrent.renderFile_eq_ok (h : e.IsCurrent m) {t : Template}
    (hdue : e.due m.files path = .ok t) (data : Value) (language : Option String) :
    (e.renderFile path data language m).1 = (e.render t data language (e.load path m).2).1 := by
  have hload := (h.load_eq path).trans hdue
  unfold renderFile
  generalize e.load path m = r at hload
  obtain ⟨answer, n⟩ := r
  cases answer with
  | error fault => cases hload
  | ok compiled =>
    have htemplate : compiled.template = t := Except.ok.inj hload
    simp only [htemplate]

namespace Rewrites

variable (h : e.Rewrites m source m' path text text')

include h

theorem due_text : e.due m.files path = e.compile (Path.normalize path) text := by
  rw [due_eq, h.text]
  rfl

theorem due_text' : Engine.due { e with source := source } m'.files path =
    e.compile (Path.normalize path) text' := by
  rw [due_eq]
  change (source.read m'.files (Path.normalize path)).map Revision.text >>= _ = _
  rw [h.text']
  rfl

theorem due_other {other : String} (hother : Path.normalize other ≠ Path.normalize path) :
    Engine.due { e with source := source } m'.files other = e.due m.files other := by
  rw [due_eq, due_eq, ← h.others (by rwa [Path.normalize_normalize])]
  rfl

/-- Texts that are compiled alike are rendered alike. -/
theorem retells {page page' : Template} (hpage : e.compile (Path.normalize path) text = .ok page)
    (hpage' : e.compile (Path.normalize path) text' = .ok page')
    (hunnamed : page'.unnamed = page.unnamed) (hunshown : e.IsUnshown m path) :
    e.Retells m source m' where
  steady := h.steady
  steady' := h.steady'
  parsed := h.parsed
  load other := by
    rw [h.current.loadUnnamed_eq, h.current'.loadUnnamed_eq]
    by_cases hother : Path.normalize other = Path.normalize path
    · rw [due_congr hother, due_congr hother, h.due_text, h.due_text', hpage, hpage']
      exact congrArg Except.ok hunnamed
    · rw [h.due_other hother]
  read hload t ht file hkind := h.others (hunshown _ _ hload t ht file hkind)
  loadDictionary := h.loadDictionary

end Rewrites

/-- A document is compiled and rendered as before with a prefix of its own for the control
namespace, declared anywhere among the attributes of its root: with the same output and the same
warnings, or with the same fault up to the name of the tag where it shows. No template may show the
file of the document as it is written. -/
theorem Rewrites.compile_renderFile_withPrefix {p : String} {n : Nat} {d : Document}
    (h : e.Rewrites m source m' path text text') (hp : IsPrefix p) (hfree : d.LeavesFree p)
    (hread : Document.read text = .ok d)
    (hread' : Document.read text' = .ok (d.withPrefix e.lead p n))
    (hunshown : e.IsUnshown m path) :
    Compile.Likewise (fun t t' : Template => t'.unnamed = t.unnamed)
        (e.compile (Path.normalize path) text) (e.compile (Path.normalize path) text') ∧
      ∀ data language,
        (renderFile { e with source := source } path data language m').1.mapError Stop.withoutTag =
          (e.renderFile path data language m).1.mapError Stop.withoutTag := by
  have hlikewise := Template.compile_likewise hp hfree hread hread' (Path.normalize path)
  refine ⟨hlikewise, fun data language => ?_⟩
  change Compile.Likewise _ (e.compile (Path.normalize path) text)
    (e.compile (Path.normalize path) text') at hlikewise
  generalize hpage : e.compile (Path.normalize path) text = page at hlikewise
  generalize hpage' : e.compile (Path.normalize path) text' = page' at hlikewise
  cases hlikewise with
  | ok hunnamed => rw [(h.retells hpage hpage' hunnamed hunshown).renderFile_eq]
  | @error fault fault' hfault =>
    rw [h.current.renderFile_eq_error (h.due_text.trans hpage),
      h.current'.renderFile_eq_error (h.due_text'.trans hpage')]
    exact congrArg (Except.error ∘ Stop.fault) hfault

-- ---------------------------------------------------------------------------
-- Engines over texts in memory
-- ---------------------------------------------------------------------------

theorem read_memory (shelf : Shelf) (files : Files) (path : String) :
    (Source.memory shelf).read files path =
      (shelf.get? path).elim (.error (.missingSource none (Path.normalize path))) .ok := by
  delta Source.read
  cases hget : shelf.get? path with
  | none => simp only [hget, Option.elim_none]
  | some revision => simp only [hget, Option.elim_some]

/-- The text that was put on a shelf last is read under its path. -/
theorem map_text_read_put (shelf : Shelf) (files : Files) (path text : String) :
    ((Source.memory (shelf.put path text)).read files (Path.normalize path)).map Revision.text =
      .ok text := by
  rw [read_memory, Shelf.get?, Shelf.put, Path.normalize_normalize, Table.get?_put_self]
  rfl

/-- Under other paths, there is what there was. -/
theorem read_put_of_ne {other : String} (hother : Path.normalize other ≠ Path.normalize path)
    (shelf : Shelf) (files : Files) (text : String) :
    (Source.memory (shelf.put path text)).read files other =
      (Source.memory shelf).read files other := by
  rw [read_memory, read_memory, Shelf.get?, Shelf.put, Table.get?_put_of_ne hother, Shelf.get?]

/-- What is due of a shelf is due of the text that was put on it last, or of the shelf before. -/
theorem due_put (shelf : Shelf) (files : Files) (path text other : String) :
    (e.onShelf (shelf.put path text)).due files other =
      if Path.normalize other = Path.normalize path then e.compile (Path.normalize path) text
      else (e.onShelf shelf).due files other := by
  split
  case isTrue hother =>
    rw [due_congr hother, due_eq]
    change ((Source.memory _).read files _).map _ >>= _ = _
    rw [map_text_read_put]
    rfl
  case isFalse hother =>
    rw [due_eq, due_eq]
    change ((Source.memory _).read files _).map _ >>= _ =
      ((Source.memory _).read files _).map _ >>= _
    rw [read_put_of_ne (by rwa [Path.normalize_normalize])]
    rfl

theorem due_empty (files : Files) (path : String) (t : Template) :
    (e.onShelf .empty).due files path ≠ .ok t := by
  intro h
  rw [due_eq] at h
  change ((Source.memory _).read files _).map _ >>= _ = _ at h
  rw [read_memory] at h
  cases h

/-- An engine without a cache may have any other text under a path instead. -/
theorem rewrites_put (hcache : e.cache = none) (shelf : Shelf) (files : Files)
    (path text text' : String) :
    (e.onShelf (shelf.put path text)).Rewrites (.ofFiles files) (.memory (shelf.put path text'))
      (.ofFiles files) path text text' where
  steady := steady_ofFiles (e := e.onShelf _) hcache files
  steady' := steady_ofFiles (e := e.onShelf _) hcache files
  current := isCurrent_ofFiles (e := e.onShelf _) hcache files
  current' := isCurrent_ofFiles (e := e.onShelf _) hcache files
  parsed := rfl
  text := map_text_read_put shelf files path text
  text' := map_text_read_put shelf files path text'
  others {other} hother := by
    change ((Source.memory _).read files other).map _ = ((Source.memory _).read files other).map _
    rw [read_put_of_ne hother, read_put_of_ne hother]
  loadDictionary language file := rfl

end Engine

-- ---------------------------------------------------------------------------
-- Pages that are one tag
-- ---------------------------------------------------------------------------

/-- A document that is one tag for a file. -/
def fileDocument (name file : String) : Document := ⟨⟨name, [("file", file)], 1, true, []⟩, []⟩

/-- The template of such a document. -/
def fileTemplate (lead name : String) (kind : TagKind) : Template :=
  ⟨"page.xml", lead, ⟨0, name, 1, kind, [], .none, [], true, none⟩, []⟩

def includeText : String := "<fig:include file=\"part.xml\"/>"

def includeTextPrefixed : String :=
  "<p:include file=\"part.xml\" xmlns:p=\"http://www.figdice.org/\"/>"

/-- A page that shows its own file. -/
def ownPageText : String := "<fig:cdata file=\"page.xml\"/>"

def ownPageTextPrefixed : String :=
  "<p:cdata file=\"page.xml\" xmlns:p=\"http://www.figdice.org/\"/>"

theorem withPrefix_fileDocument (suffix file : String) :
    (fileDocument ("fig:" ++ suffix) file).withPrefix "fig:" "p" 1 =
      ⟨⟨"p:" ++ suffix, [("file", file), Document.declaration "p"], 1, true, []⟩, []⟩ := by
  have hlead : "p" ++ ":" = "p:" := rfl
  have hname : Compile.afterLead? "fig:" ("fig:" ++ suffix) = some suffix :=
    Compile.afterLead?_eq_some_iff.2 rfl
  have hkey : Compile.afterLead? "fig:" "file" = none := by rfl
  simp [Document.withPrefix, fileDocument, Element.releaded, Element.contentReleaded,
    Element.releadAll, Element.relead, hname, hkey, hlead]

theorem read_of_markup {text name : String} {attributes : List (String × String)}
    (htext : Element.markup ⟨name, attributes, 1, true, []⟩ = text)
    (hname : Markup.IsPlainName name.toList) (hattributes : ∀ q ∈ attributes, Markup.IsWritable q)
    (hnodup : (attributes.map Prod.fst).Nodup) :
    Document.read text = .ok ⟨⟨name, attributes, 1, true, []⟩, []⟩ := by
  rw [← htext, Document.read_single hname hattributes hnodup]

theorem read_includeText :
    Document.read includeText = .ok (fileDocument "fig:include" "part.xml") :=
  read_of_markup (by rfl) (by decide) (by decide) (by decide)

theorem read_includeTextPrefixed : Document.read includeTextPrefixed =
    .ok ((fileDocument "fig:include" "part.xml").withPrefix "fig:" "p" 1) := by
  refine Eq.trans ?_ (congrArg Except.ok (withPrefix_fileDocument "include" "part.xml").symm)
  exact read_of_markup (by rfl) (by decide) (by decide) (by decide)

theorem read_ownPageText : Document.read ownPageText = .ok (fileDocument "fig:cdata" "page.xml") :=
  read_of_markup (by rfl) (by decide) (by decide) (by decide)

theorem read_ownPageTextPrefixed : Document.read ownPageTextPrefixed =
    .ok ((fileDocument "fig:cdata" "page.xml").withPrefix "fig:" "p" 1) := by
  refine Eq.trans ?_ (congrArg Except.ok (withPrefix_fileDocument "cdata" "page.xml").symm)
  exact read_of_markup (by rfl) (by decide) (by decide) (by decide)

unseal Text.unescape? in
theorem compile_ownPageText : Template.compile "page.xml" "fig:" ownPageText =
    .ok (fileTemplate "fig:" "fig:cdata" (.verbatim "page.xml")) := by
  rw [Template.compile, read_ownPageText]
  rfl

unseal Text.unescape? in
theorem compile_ownPageTextPrefixed : Template.compile "page.xml" "fig:" ownPageTextPrefixed =
    .ok (fileTemplate "p:" "p:cdata" (.verbatim "page.xml")) := by
  rw [Template.compile, read_ownPageTextPrefixed]
  rfl

unseal Text.unescape? in
theorem compile_includeText : Template.compile "page.xml" "fig:" includeText =
    .ok (fileTemplate "fig:" "fig:include" (.inclusion "part.xml")) := by
  rw [Template.compile, read_includeText]
  rfl

theorem compile_part : Template.compile "part.xml" "fig:" "<b/>" =
    .ok ⟨"part.xml", "fig:", ⟨0, "b", 1, .element, [], .none, [], true, none⟩, []⟩ := by
  have hread : Document.read "<b/>" = .ok ⟨⟨"b", [], 1, true, []⟩, []⟩ :=
    read_of_markup (by rfl) (by decide) (by decide) (by decide)
  rw [Template.compile, hread]
  rfl

namespace Engine

open Render

/-- An engine with a page, and with a part that the page may include. -/
def withPage (text : String) : Engine :=
  Engine.default.onShelf ((Shelf.empty.put "part.xml" "<b/>").put "page.xml" text)

theorem rewrites_withPage (text text' : String) :
    (withPage text).Rewrites (.ofFiles .empty) (withPage text').source (.ofFiles .empty) "page.xml"
      text text' :=
  rewrites_put rfl ..

/-- What there is, is a page or the part. -/
theorem due_withPage {text other : String} {t : Template}
    (h : (withPage text).due .empty other = .ok t) :
    Template.compile "page.xml" "fig:" text = .ok t ∨
      Template.compile "part.xml" "fig:" "<b/>" = .ok t := by
  have hpage : Path.normalize "page.xml" = "page.xml" := by rfl
  have hpart : Path.normalize "part.xml" = "part.xml" := by rfl
  rw [withPage, due_put, due_put, hpage, hpart] at h
  split at h
  · exact .inl h
  · split at h
    · exact .inr h
    · exact absurd h (due_empty _ _ _)

/-- A page that includes the part, with a prefix of its own. -/
theorem compile_renderFile_withPrefix_include :
    (withPage includeText).Rewrites (.ofFiles .empty) (withPage includeTextPrefixed).source
        (.ofFiles .empty) "page.xml" includeText includeTextPrefixed ∧
      IsPrefix "p" ∧ (fileDocument "fig:include" "part.xml").LeavesFree "p" ∧
      Document.read includeText = .ok (fileDocument "fig:include" "part.xml") ∧
      Document.read includeTextPrefixed =
        .ok ((fileDocument "fig:include" "part.xml").withPrefix "fig:" "p" 1) ∧
      (withPage includeText).IsUnshown (.ofFiles .empty) "page.xml" ∧
      ∀ data language,
        ((withPage includeTextPrefixed).renderFile "page.xml" data language
          (.ofFiles .empty)).1.mapError Stop.withoutTag =
        ((withPage includeText).renderFile "page.xml" data language
          (.ofFiles .empty)).1.mapError Stop.withoutTag := by
  have hrewrites := rewrites_withPage includeText includeTextPrefixed
  have hprefix : IsPrefix "p" := by decide
  have hfree : (fileDocument "fig:include" "part.xml").LeavesFree "p" := by decide
  have hunshown : (withPage includeText).IsUnshown (.ofFiles .empty) "page.xml" := by
    intro other compiled hload t ht file hkind
    have hdue : (withPage includeText).due .empty other = .ok compiled.template :=
      (hrewrites.current.load_eq other).symm.trans (congrArg (·.map Compiled.template) hload)
    rcases due_withPage hdue with hpage | hpart
    · rw [← Except.ok.inj (compile_includeText.symm.trans hpage)] at ht
      cases List.mem_singleton.1 ht
      cases hkind
    · rw [← Except.ok.inj (compile_part.symm.trans hpart)] at ht
      cases List.mem_singleton.1 ht
      cases hkind
  exact ⟨hrewrites, hprefix, hfree, read_includeText, read_includeTextPrefixed, hunshown,
    (Rewrites.compile_renderFile_withPrefix hrewrites hprefix hfree read_includeText
      read_includeTextPrefixed hunshown).2⟩

/-- A file without directives is shown as it is. -/
theorem output_tagStep_of_verbatim {e : Engine} {inner : Renderer} {t : Tag} {file : String}
    (hkind : t.kind = .verbatim file) (hdirectives : t.directives = .none) (view : Nat) :
    Renderer.output (tagStep e inner) t view .none = verbatim e view t file := by
  simp [Renderer.output, tagStep, single, condition, shown, kind, hkind, hdirectives,
    Directives.none, Suppressed.none]

/-- A page that shows its own file comes to its text. -/
theorem renderWithin_ownPage {e : Engine} {m : Memory} {text : String}
    (htext : (e.source.read m.files "page.xml").map Revision.text = .ok text)
    (lead name : String) (depth : Nat) :
    (e.renderWithin (depth + 1) (fileTemplate lead name (.verbatim "page.xml")) .null none m).1 =
      .ok ⟨text, []⟩ := by
  let page := fileTemplate lead name (.verbatim "page.xml")
  let s := (Session.start .null (none.or e.language)).addView page none
  obtain ⟨revision, hread, rfl⟩ : ∃ revision, e.source.read m.files "page.xml" = .ok revision ∧
      revision.text = text := by
    revert htext
    cases e.source.read m.files "page.xml" with
    | error fault => nofun
    | ok revision => exact fun h => ⟨revision, rfl, Except.ok.inj h⟩
  have hresolve : Path.resolve "page.xml" "page.xml" = "page.xml" := by rfl
  have hroot : (tag e (depth + 1)).output page.root 0 .none s m = (.ok (revision.text, s), m) := by
    rw [tag, output_tagStep_of_verbatim rfl rfl, verbatim_eq, bind_apply, get_apply]
    change consult _ (fileText e.source (Path.resolve "page.xml" "page.xml")) s m = _
    rw [consult_apply, fileText, hresolve, hread]
    rfl
  have hsplice : Slot.splice [] [] revision.text = revision.text := String.ofList_toList ..
  simp only [renderWithin, StateT.run, page_apply, bind_apply]
  rw [hroot]
  refine Eq.trans ?_ (congrArg (fun output => Except.ok (Rendered.mk output [])) hsplice)
  rfl

theorem renderFile_ownPage {text lead name : String}
    (hcompile : Template.compile "page.xml" "fig:" text =
      .ok (fileTemplate lead name (.verbatim "page.xml"))) :
    ((withPage text).renderFile "page.xml" .null none (.ofFiles .empty)).1 = .ok ⟨text, []⟩ := by
  have hpath : Path.normalize "page.xml" = "page.xml" := by rfl
  have hrewrites := rewrites_withPage text text
  have hdue := hrewrites.due_text
  rw [hpath] at hdue
  have htext := map_text_read_put (Shelf.empty.put "part.xml" "<b/>")
    ((withPage text).load "page.xml" (.ofFiles .empty)).2.files "page.xml" text
  rw [hpath] at htext
  rw [hrewrites.current.renderFile_eq_ok (hdue.trans hcompile)]
  exact renderWithin_ownPage htext lead name 4095

/-- With another prefix, a document that shows its own file is rendered as something else. -/
theorem renderFile_ownPageText_ne_prefixed :
    Document.read ownPageText = .ok (fileDocument "fig:cdata" "page.xml") ∧
      Document.read ownPageTextPrefixed =
        .ok ((fileDocument "fig:cdata" "page.xml").withPrefix "fig:" "p" 1) ∧
      IsPrefix "p" ∧ (fileDocument "fig:cdata" "page.xml").LeavesFree "p" ∧
      ((withPage ownPageText).renderFile "page.xml" .null none (.ofFiles .empty)).1 =
        .ok ⟨ownPageText, []⟩ ∧
      ((withPage ownPageTextPrefixed).renderFile "page.xml" .null none (.ofFiles .empty)).1 =
        .ok ⟨ownPageTextPrefixed, []⟩ ∧
      ownPageTextPrefixed ≠ ownPageText :=
  ⟨read_ownPageText, read_ownPageTextPrefixed, by decide, by decide,
    renderFile_ownPage compile_ownPageText, renderFile_ownPage compile_ownPageTextPrefixed,
    by decide⟩

end Engine

end XmlTemplate
