import XmlTemplate.Proofs.Render.Abreast
import XmlTemplate.Proofs.Render.Depth

/-!
# Inclusions are transparent

A page that includes a part is rendered like the page with the root of the part in place of the
inclusion. The render of the inclusion is deeper, by one level for each inclusion that it is in: the
depth up to which the renders are alike is stated for both of them.
-/

namespace XmlTemplate

/-- The renders end with the same output, and with the same warnings and faults up to the lines at
which they show. -/
inductive Rendered.Same : Except Stop Rendered → Except Stop Rendered → Prop
  | ok (output : String) {warnings warnings' : List Fault}
      (h : List.Forall₂ Fault.Like warnings warnings') :
      Same (.ok ⟨output, warnings⟩) (.ok ⟨output, warnings'⟩)
  | stop {stop stop' : Stop} (h : stop.Like stop') : Same (.error stop) (.error stop')

namespace Render

variable {e : Engine} {m₀ : Memory} {page part template template' : Template}
variable {R : Memory → Memory → Prop} {first second : Prop}
variable {inner inner' : Renderer} {t t' : Tag}

/-- Tags in the same place are rendered alike as children, and if they are written alike, in any
way. -/
structure Renders (e : Engine) (m₀ : Memory) (page part : Template) (R : Memory → Memory → Prop)
    (first second : Prop) (inner inner' : Renderer) : Prop where
  child {view view' : Nat} {template template' : Template} {t t' : Tag}
    (h : Counterpart part template template' t t') :
    (abreast e m₀ page part R first second).Holds (Joint.Joins view view' template template')
      (inner.output t view .none) (inner'.output t' view' .none)
  written {view view' : Nat} {template template' : Template} {t t' : Tag}
    (h : Counterpart part template template' t t') (hwritten : Written part template template' t t')
    (suppressed : Suppressed) :
    (abreast e m₀ page part R first second).Holds (Joint.Joins view view' template template')
      (inner.output t view suppressed) (inner'.output t' view' suppressed)

/-- A bare inclusion is all that becomes of its tag. -/
theorem output_tagStep_of_inclusion {file : String} (hdirectives : t.directives = .none)
    (hkind : t.kind = .inclusion file) (view : Nat) :
    Renderer.output (tagStep e inner) t view .none = inclusion e inner view t file := by
  simp [Renderer.output, tagStep, single, condition, shown, kind, hdirectives, hkind,
    Directives.none, Suppressed.none]

section

variable (hoverlooks : e.Overlooks m₀ page part.path R)
  (hfunctions : ∀ factory ∈ e.functions, ∀ name f, factory name = some f →
    Function.IgnoresPlace f)
  (hload : (e.load part.path m₀).1.map Compiled.template = .ok part) (hquiet : IsQuiet e m₀ part)
  (hnumbered : part.IsNumbered) (hbelongs : part.root.kind.belongsToParent = false)

include hoverlooks hfunctions hbelongs

omit hoverlooks hfunctions in
/-- Children in the same place are written alike, unless the root of the part replaces one. -/
theorem Counterpart.child (hc : Counterpart part template template' t t') :
    t.kind.belongsToParent = false ∧ t'.kind.belongsToParent = false ∨
      Written part template template' t t' := by
  refine hc.cases.imp_left fun hreplaced => ?_
  obtain ⟨-, file, hkind, -⟩ := hreplaced.inclusion
  exact ⟨by rw [hkind]; rfl, by rw [(Tag.isCopy_iff.1 hreplaced.copy).kind, hbelongs]⟩

/-- What tags do by their kinds. -/
theorem Renders.kind (h : Renders e m₀ page part R first second inner inner') {view view' : Nat}
    (ht : Counterpart part template template' t t')
    (hwritten : Written part template template' t t') :
    (abreast e m₀ page part R first second).Holds (Joint.Joins view view' template template')
      (Render.kind e inner view t) (Render.kind e inner' view' t') := by
  by_cases hinclusion : ∃ file, t.kind = .inclusion file
  · obtain ⟨file, hkind⟩ := hinclusion
    unfold Render.kind
    simp only [hwritten.kind, hkind]
    exact abreast_inclusion hoverlooks ht.folder ht.mem hkind fun hother => h.child (.root hother)
  · by_cases hverbatim : ∃ file, t.kind = .verbatim file
    · obtain ⟨file, hkind⟩ := hverbatim
      unfold Render.kind
      simp only [hwritten.kind, hkind]
      exact abreast_verbatim ht.folder t t' fun hstates hjoins =>
        hoverlooks.read hstates.related (hstates.offers hjoins ht.mem hkind)
    · have hinclusion (file) : t.kind ≠ .inclusion file := fun hkind => hinclusion ⟨file, hkind⟩
      have hverbatim (file) : t.kind ≠ .verbatim file := fun hkind => hverbatim ⟨file, hkind⟩
      rw [← kind_source hinclusion hverbatim e (.memory .empty) inner view,
        ← kind_source (hwritten.kind ▸ hinclusion) (hwritten.kind ▸ hverbatim) e (.memory .empty)
          inner' view']
      exact (abreast_along hfunctions hoverlooks ht.folder).kind (Counterpart.child hbelongs)
        (fun hc _ => h.child hc) hwritten (fun file hkind => absurd hkind (hinclusion file))
        fun file name source hkind =>
          abreast_dictionary hfunctions hoverlooks ht.folder ht.mem hkind

/-- Tags that are written alike in the same place. -/
theorem Renders.tagStep (h : Renders e m₀ page part R first second inner inner') {view view' : Nat}
    (ht : Counterpart part template template' t t')
    (hwritten : Written part template template' t t')
    (suppressed : Suppressed) :
    (abreast e m₀ page part R first second).Holds (Joint.Joins view view' template template')
      (tagStep e inner t view suppressed) (tagStep e inner' t' view' suppressed) := by
  refine (abreast_along hfunctions hoverlooks ht.folder).tagStep_of_kind
    (Counterpart.child hbelongs) (fun hc _ => h.child hc) hwritten
    (fun _ _ => h.written ht hwritten _) (h.kind hoverlooks hfunctions hbelongs ht hwritten)
    (fun name _ => ?_) fun name _ all => ?_
  · refine Simulation.holds_modify fun (w : Joint) s m s' m' hstates hjoins => ?_
    exact ⟨w, .refl w, hstates.defineMacro hjoins name ht hwritten⟩
  · exact abreast_invoke t t' name all fun hu hwritten => h.written hu hwritten _

include hload hquiet hnumbered

/-- A level more of both renders, if the part is rendered alike one level deeper in the first
one. -/
theorem Renders.succ (h : Renders e m₀ page part R first second inner inner')
    (hpart : ∀ {view view' : Nat} {template' : Template} {t' : Tag},
      Counterpart part part template' part.root t' → Written part part template' part.root t' →
      (abreast e m₀ page part R first second).Holds (Joint.Joins view view' part template')
        (inner.output part.root view .none)
        (Renderer.output (Render.tagStep e inner') t' view' .none)) :
    Renders e m₀ page part R first second (Render.tagStep e inner) (Render.tagStep e inner') := by
  have hwritten {view view' : Nat} {template template' : Template} {t t' : Tag}
      (ht : Counterpart part template template' t t')
      (hwritten : Written part template template' t t') (suppressed : Suppressed) :
      (abreast e m₀ page part R first second).Holds (Joint.Joins view view' template template')
        (Renderer.output (Render.tagStep e inner) t view suppressed)
        (Renderer.output (Render.tagStep e inner') t' view' suppressed) :=
    joins_pairs.map _ (h.tagStep hoverlooks hfunctions hbelongs ht hwritten suppressed)
  refine ⟨fun ht => ?_, hwritten⟩
  rcases ht.cases with hreplaced | hsame
  · obtain ⟨hdirectives, file, hkind, hpath⟩ := hreplaced.inclusion
    have hroot := ht.ofReplaced hnumbered hreplaced
    rw [output_tagStep_of_inclusion hdirectives hkind]
    exact abreast_replaced hoverlooks hload hquiet ht.mem hkind hpath fun view =>
      hpart hroot (hroot.written_of_copy hreplaced.copy)
  · exact hwritten ht hsame .none

/-- The render of the inclusion ends within a depth that is enough for the other one. -/
theorem renders_of_le {depth depth' : Nat} (hle : depth ≤ depth') :
    Renders e m₀ page part R True False (tag e depth) (tag e depth') := by
  induction depth generalizing depth' with
  | zero => exact ⟨fun _ _ _ _ _ _ _ _ => .first trivial, fun _ _ _ _ _ _ _ _ _ _ => .first trivial⟩
  | succ depth ih =>
    cases depth' with
    | zero => cases hle
    | succ depth' =>
      have hle := Nat.le_of_succ_le_succ hle
      exact (ih hle).succ hoverlooks hfunctions hload hquiet hnumbered hbelongs
        fun hroot hwritten => (ih (Nat.le_succ_of_le hle)).written hroot hwritten .none

/-- Twice the depth is enough for the render of the inclusion. -/
theorem renders_of_two_mul_le {depth depth' : Nat} (hle : 2 * depth' ≤ depth) :
    Renders e m₀ page part R False True (tag e depth) (tag e depth') := by
  induction depth' generalizing depth with
  | zero =>
    exact ⟨fun _ _ _ _ _ _ _ _ => .second trivial, fun _ _ _ _ _ _ _ _ _ _ => .second trivial⟩
  | succ depth' ih =>
    obtain ⟨depth, rfl⟩ : ∃ less, depth = less + 2 := ⟨depth - 2, by omega⟩
    have hinner : 2 * depth' ≤ depth := by omega
    exact (ih (Nat.le_succ_of_le hinner)).succ hoverlooks hfunctions hload hquiet hnumbered hbelongs
      fun hroot hwritten => joins_pairs.map _
        ((ih hinner).tagStep hoverlooks hfunctions hbelongs hroot hwritten .none)

end

-- ---------------------------------------------------------------------------
-- Pages
-- ---------------------------------------------------------------------------

section

variable (hoverlooks : e.Overlooks m₀ page part.path R)

include hoverlooks

theorem Abreast.start (data : Value) (language : Option String) :
    Abreast e m₀ page part R ⟨[], []⟩ (.start data language) m₀ (.start data language) m₀ where
  core := rfl
  views := rfl
  shapes := rfl
  sound := ⟨nofun, nofun, nofun, nofun, nofun⟩
  covered := nofun
  quiet := nofun
  functions := nofun
  functions' := nofun
  macros _ := .none
  warnings := .nil
  parsed := rfl
  related := hoverlooks.start

/-- The pages end alike if the tags in the same place do. -/
theorem page_ends {depth depth' : Nat} {page' : Template}
    (h : Renders e m₀ page part R first second (tag e depth) (tag e depth'))
    (hroot : Counterpart part page page' page.root page'.root)
    (hinstructions : page'.instructions = page.instructions) (data : Value)
    (language : Option String) :
    ∃ w, (abreast e m₀ page part R first second).Ends w
      (Render.page e depth page (.start data language) m₀)
      (Render.page e depth' page' (.start data language) m₀) := by
  obtain ⟨hadded, hjoins⟩ := (Abreast.start hoverlooks data language).addLinked page page' none true
    nofun (.self page page.root) nofun
  refine ⟨Joint.addLinked page page' none true ⟨[], []⟩, ?_⟩
  rw [page_apply, page_apply, hinstructions]
  refine joins_pairs.bind (h.child hroot) (fun text => ?_) hadded hjoins
  refine Simulation.holds_get_bind fun (w : Joint) s m s' m' hstates hjoins => ?_
  rw [hstates.see (f := Session.slots) fun _ => rfl, hstates.see (f := Session.plugs) fun _ => rfl]
  exact joins_pairs.pure _ hstates hjoins

end

end Render

namespace Engine

/-- What pages come to whose tags are rendered alike. -/
theorem same_of_renders {e : Engine} {m : Memory} {part page page' : Template}
    {R : Memory → Memory → Prop} {first second : Prop} {depth depth' : Nat} {data : Value}
    {language : Option String} (hoverlooks : e.Overlooks m page part.path R)
    (h : Render.Renders e m page part R first second (Render.tag e depth) (Render.tag e depth'))
    (hroot : Render.Counterpart part page page' page.root page'.root)
    (hinstructions : page'.instructions = page.instructions)
    (hfirst : first → (e.renderWithin depth page data language m).1 ≠ .error .depth)
    (hsecond : second → (e.renderWithin depth' page' data language m).1 ≠ .error .depth) :
    Rendered.Same (e.renderWithin depth page data language m).1
      (e.renderWithin depth' page' data language m).1 := by
  obtain ⟨w, hends⟩ := Render.page_ends hoverlooks h hroot hinstructions data
    (language.or e.language)
  rw [renderWithin_eq, renderFrom] at hfirst hsecond
  rw [renderWithin_eq, renderWithin_eq, renderFrom, renderFrom]
  generalize Render.page e depth page (.start data (language.or e.language)) m = r at *
  generalize Render.page e depth' page' (.start data (language.or e.language)) m = r' at *
  cases hends with
  | ok _ hrel => exact .ok _ hrel.warnings
  | stop hlike => exact .stop hlike
  | first h => exact absurd rfl (hfirst h)
  | second h => exact absurd rfl (hsecond h)

/-- Let a page include a part from its folder, and let both declare no lead of their own. With the
root element of the part in place of the inclusions, the page compiles to a page that is rendered
with the same output, and with the same warnings and faults up to the lines at which they show. The
root of the part is neither walked nor an attribute or a parameter of the tag around it, and no
dictionary is attached in the part. What the engine knows is current, and its cache, if it has one,
lies apart from the files for the page. The render of the inclusions needs at most twice the
depth. -/
theorem renderWithin_inlines {e : Engine} {m : Memory} {path included text text' partText : String}
    {document document' partDocument : Document} {page part : Template} (hcurrent : e.IsCurrent m)
    (hcache : ∀ cache ∈ e.cache, ∃ trail base, e.KeepsApart cache trail base m page)
    (hfunctions : ∀ factory ∈ e.functions, ∀ name f, factory name = some f →
      Function.IgnoresPlace f)
    (hread : Document.read text = .ok document) (hread' : Document.read text' = .ok document')
    (hpartRead : Document.read partText = .ok partDocument)
    (hdeclared : Compile.declaredLead? document.root.attributes = none)
    (hpartDeclared : Compile.declaredLead? partDocument.root.attributes = none)
    (hfolder : Path.InSameFolder path included)
    (hinlines : Document.Inlines e.lead path included partDocument document document')
    (hpage : e.compile path text = .ok page) (hpart : e.compile included partText = .ok part)
    (hload : (e.load included m).1.map Compiled.template = .ok part)
    (hwalk : part.root.directives.walk = none) (hbelongs : part.root.kind.belongsToParent = false)
    (hquiet : Render.IsQuiet e m part) :
    ∃ page', e.compile path text' = .ok page' ∧ ∀ data language depth,
      ((e.renderWithin depth page data language m).1 ≠ .error .depth →
        Rendered.Same (e.renderWithin depth page data language m).1
          (e.renderWithin depth page' data language m).1) ∧
      ((e.renderWithin depth page' data language m).1 ≠ .error .depth →
        Rendered.Same (e.renderWithin (2 * depth) page data language m).1
          (e.renderWithin depth page' data language m).1) := by
  obtain ⟨page', hpage', hroot, hinstructions⟩ := Template.exists_compile_of_inlines hread hread'
    hpartRead hdeclared hpartDeclared hinlines hpage hpart hwalk
  have hnumbered := Template.isNumbered_of_compile hpart
  obtain rfl := Template.path_of_compile hpage
  obtain rfl := Template.path_of_compile hpart
  have hcounterpart : Render.Counterpart part page page' page.root page'.root :=
    { numbered := Template.isNumbered_of_compile hpage
      numbered' := Template.isNumbered_of_compile hpage'
      folder := fun _ => by rw [Template.path_of_compile hpage']
      mem := page.root.mem_tags_self
      mem' := page'.root.mem_tags_self
      similar := hroot.mono fun _ _ hinlined => ⟨hinlined.1, hfolder, hinlined.2⟩ }
  obtain ⟨R, hoverlooks⟩ := exists_overlooks hcurrent hcache part.path
  refine ⟨page', hpage', fun data language depth => ⟨fun hdepth => ?_, fun hdepth => ?_⟩⟩
  · have hrenders := Render.renders_of_le hoverlooks hfunctions hload hquiet hnumbered hbelongs
      (Nat.le_refl depth)
    exact same_of_renders hoverlooks hrenders hcounterpart hinstructions (fun _ => hdepth)
      False.elim
  · have hrenders := Render.renders_of_two_mul_le hoverlooks hfunctions hload hquiet hnumbered
      hbelongs (Nat.le_refl (2 * depth))
    exact same_of_renders hoverlooks hrenders hcounterpart hinstructions False.elim fun _ => hdepth

/-- No dictionary is attached in a template without inclusions if none of its tags does so. -/
theorem isQuiet_of_files {e : Engine} {m : Memory} {template : Template}
    (hfiles : template.root.files = [])
    (hkinds : ∀ u ∈ template.root.tags, ∀ file name source, u.kind ≠ .dictionary file name source) :
    Render.IsQuiet e m template :=
  fun _ u hcovers => hkinds u (hcovers.mem_of_files hfiles).2

/-- A part that is a macro, whose text comes of a function of the host. -/
def macroText : String := "<p fig:macro='m' fig:text='f()'/>"

/-- A page that includes the macro and calls it. -/
def borrowingText : String := "<a><fig:include file='part.xml'/><i fig:call='m'/></a>"

/-- The page with the macro in it. -/
def ownText : String := "<a><p fig:macro='m' fig:text='f()'/><i fig:call='m'/></a>"

/-- An engine on a folder, with a cache beside it. -/
def borrowing : Engine :=
  { Engine.default with
    source := .folder "site"
    cache := some ⟨"cache", Cache.digest⟩
    functions := [fun _ => some fun anchor _ => .ok (.ofNat anchor.serial)] }

/-- The folder with the macro, and the cache as it is at first. -/
def borrowed : Memory :=
  .ofFiles ⟨[("cache", .folder), ("site", .folder),
    ("site/part.xml", .file (.text macroText) 0)]⟩

theorem liesAt_borrowing : Cache.LiesAt ⟨"cache", Cache.digest⟩ ["", "cache"] "cache" where
  entryName := Cache.slash_notMem_digest
  way kind := by cases kind <;> rfl
  outside kind := by cases kind <;> decide

theorem at?_entryPlace_borrowed (kind : Cache.Kind) (key : String) :
    borrowed.files.at? (Cache.entryPlace ⟨"cache", Cache.digest⟩ "cache" kind key) = none := by
  have hne := Cache.entryPlace_ne ⟨"cache", Cache.digest⟩ "cache" kind key
  have htop := hne "" (by decide)
  have hroot := hne "/" (by decide)
  have hcache := (hne "cache" (by decide)).symm
  have hsite := (hne "site" (by decide)).symm
  have hpart := (hne "site/part.xml" (by decide)).symm
  simp [borrowed, Memory.ofFiles, Files.at?, Table.get?, htop, hroot, hcache, hsite, hpart]

theorem reached_borrowed :
    Cache.Reached ⟨"cache", Cache.digest⟩ ["", "cache"] "cache" borrowed.files := by
  intro kind key hsome
  rw [at?_entryPlace_borrowed] at hsome
  cases hsome

theorem isCurrent_borrowed : borrowing.IsCurrent borrowed :=
  isCurrent_of_entries liesAt_borrowing reached_borrowed rfl rfl (at?_entryPlace_borrowed _)

theorem keepsApart_borrowing (page : Template) :
    borrowing.KeepsApart ⟨"cache", Cache.digest⟩ ["", "cache"] "cache" borrowed page := by
  refine keepsApart_of_roots liesAt_borrowing reached_borrowed (by decide)
    (fun root hroot => ?_) page
  have hroot : root = "site" := by
    rcases hroot with hroot | hroot
    · cases hroot
      rfl
    · cases hroot
  subst hroot
  exact ⟨⟨[""], "site"⟩, rfl, fun kind => by cases kind <;> decide⟩

theorem renderWithin_inlines_borrowing :
    ∃ page page', borrowing.compile "page.xml" borrowingText = .ok page ∧
      borrowing.compile "page.xml" ownText = .ok page' ∧ ∀ data language depth,
        ((borrowing.renderWithin depth page data language borrowed).1 ≠ .error .depth →
          Rendered.Same (borrowing.renderWithin depth page data language borrowed).1
            (borrowing.renderWithin depth page' data language borrowed).1) ∧
        ((borrowing.renderWithin depth page' data language borrowed).1 ≠ .error .depth →
          Rendered.Same (borrowing.renderWithin (2 * depth) page data language borrowed).1
            (borrowing.renderWithin depth page' data language borrowed).1) := by
  have hwritten : (Document.read borrowingText).toOption.any fun d =>
      (Document.read ownText).toOption.any fun d' =>
        (Document.read macroText).toOption.any fun part =>
          decide (Document.Inlines borrowing.lead "page.xml" "part.xml" part d d' ∧
            Compile.declaredLead? d.root.attributes = none ∧
            Compile.declaredLead? part.root.attributes = none) := by
    decide +kernel
  have hpage : (borrowing.compile "page.xml" borrowingText).toOption.any fun _ => true := by
    decide +kernel
  have hpart : (borrowing.compile "part.xml" macroText).toOption.any fun t =>
      t.root.directives.walk.isNone && !t.root.kind.belongsToParent && t.root.files == [] &&
        t.root.tags.all fun u => match u.kind with
          | .dictionary .. => false
          | _ => true := by
    decide +kernel
  obtain ⟨document, hread, hwritten⟩ := Outcome.exists_of_any hwritten
  obtain ⟨document', hread', hwritten⟩ := Outcome.exists_of_any hwritten
  obtain ⟨partDocument, hpartRead, hwritten⟩ := Outcome.exists_of_any hwritten
  obtain ⟨hinlines, hdeclared, hpartDeclared⟩ := of_decide_eq_true hwritten
  obtain ⟨page, hpage, -⟩ := Outcome.exists_of_any hpage
  obtain ⟨part, hpart, htests⟩ := Outcome.exists_of_any hpart
  simp only [Bool.and_eq_true, Option.isNone_iff_eq_none, Bool.not_eq_true', beq_iff_eq,
    List.all_eq_true] at htests
  obtain ⟨⟨⟨hwalk, hbelongs⟩, hfiles⟩, hkinds⟩ := htests
  have hsource : borrowing.source.read borrowed.files (Path.normalize "part.xml") =
      .ok ⟨macroText, 0⟩ := Source.read_folder_eq_ok_iff.2 ⟨.text macroText, rfl, rfl⟩
  have hload : (borrowing.load "part.xml" borrowed).1.map Compiled.template = .ok part := by
    rw [isCurrent_borrowed.load_eq, due, hsource]
    rw [show Path.normalize "part.xml" = "part.xml" by rfl]
    exact hpart
  have hfolder : Path.InSameFolder "page.xml" "part.xml" :=
    Path.inSameFolder_of_folder_eq (by rfl)
  obtain ⟨page', hpage', hsame⟩ := renderWithin_inlines isCurrent_borrowed
    (fun cache hcache => by
      cases hcache
      exact ⟨_, _, keepsApart_borrowing page⟩)
    (fun factory hfactory name f hf => by
      cases List.mem_singleton.1 hfactory
      cases hf
      exact fun _ _ _ => .ok _) hread hread' hpartRead hdeclared hpartDeclared hfolder hinlines
    hpage hpart hload hwalk hbelongs (isQuiet_of_files hfiles fun u hu file name source hkind => by
      have htest := hkinds u hu
      rw [hkind] at htest
      cases htest)
  exact ⟨page, page', hpage, hpage', hsame⟩

end Engine

end XmlTemplate
