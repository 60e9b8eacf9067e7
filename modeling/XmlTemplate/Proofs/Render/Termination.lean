import Mathlib.Data.Set.Finite.List
import Mathlib.Order.WellFoundedSet
import XmlTemplate.Proofs.Engine.Steady
import XmlTemplate.Proofs.Render.Order

/-!
# Renders that end

If templates do not include each other in a circle and the calls in the body of a macro are of
macros of lower rank, every render ends. What decreases is, in this order: a bound on the ranks of
the macros that are called from a tag on, the templates that are included from its template on, the
size of the tag, and the walk that is still to be started. Macros may be defined anew at any time;
what carries the argument through their table is that a name always stands for a tag that defines
a macro of this name.
-/

namespace XmlTemplate

/-- From a tag only macros are called whose ranks are below a bound. -/
def Engine.CallsBelow (e : Engine) (m : Memory) (rank : String → Nat) (bound : Nat)
    (template : Template) (t : Tag) : Prop :=
  ∀ other u called, e.Covers m template t other u → u.directives.call = some called →
    rank called < bound

/-- The templates include none but themselves, and in no circle, and calls in the body of a macro
are of macros of lower rank. -/
structure Engine.Ranks (e : Engine) (m : Memory) (templates : List Template)
    (rank : String → Nat) : Prop where
  compiled : ∀ template ∈ templates,
    ∃ path lead text, Template.compile path lead text = .ok template
  closed : ∀ template ∈ templates, ∀ other, e.Includes m template other → other ∈ templates
  acyclic : ∀ template ∈ templates, ¬ Relation.TransGen (e.Includes m) template template
  calls : ∀ template ∈ templates, ∀ t ∈ template.root.tags, ∀ name,
    t.directives.macroName = some name → e.CallsBelow m rank (rank name) template t

/-- Finitely many things have a bound in common if each has a bound and all greater ones. -/
theorem exists_bound_forall {α : Type} {Q : Nat → α → Prop}
    (hmono : ∀ {bound bound' a}, bound ≤ bound' → Q bound a → Q bound' a) {as : List α}
    (h : ∀ a ∈ as, ∃ bound, Q bound a) : ∃ bound, ∀ a ∈ as, Q bound a := by
  induction as with
  | nil => exact ⟨0, nofun⟩
  | cons a as ih =>
    obtain ⟨first, hfirst⟩ := h a (List.mem_cons_self ..)
    obtain ⟨rest, hrest⟩ := ih fun b hb => h b (List.mem_cons_of_mem _ hb)
    refine ⟨max first rest, fun b hb => ?_⟩
    rcases List.mem_cons.1 hb with rfl | hb
    · exact hmono (Nat.le_max_left ..) hfirst
    · exact hmono (Nat.le_max_right ..) (hrest b hb)

namespace Engine.Ranks

variable {e : Engine} {m : Memory} {templates : List Template} {rank : String → Nat}

/-- What passes to a template from those it includes holds of all templates. -/
theorem induction (h : e.Ranks m templates rank) {P : Template → Prop}
    (hstep : ∀ template ∈ templates, (∀ other, e.Includes m template other → P other) →
      P template) : ∀ template ∈ templates, P template := by
  let below (other template : Template) : Prop :=
    template ∈ templates ∧ Relation.TransGen (e.Includes m) template other
  have : IsStrictOrder Template below :=
    { irrefl := fun template htemplate => h.acyclic template htemplate.1 htemplate.2
      trans := fun _ _ _ hfirst hrest => ⟨hrest.1, hrest.2.trans hfirst.2⟩ }
  have hfounded : {template | template ∈ templates}.WellFoundedOn below :=
    (List.finite_toSet templates).wellFoundedOn
  intro template htemplate
  refine hfounded.induction htemplate fun template htemplate ih => ?_
  exact hstep template htemplate fun other hother =>
    ih other (h.closed template htemplate other hother) ⟨htemplate, .single hother⟩

/-- The ranks of all macros that are called are bounded. -/
theorem exists_callsBelow (h : e.Ranks m templates rank) :
    ∃ bound, ∀ template ∈ templates, e.CallsBelow m rank bound template template.root := by
  obtain ⟨bound, hbound⟩ : ∃ bound, ∀ template ∈ templates, ∀ u ∈ template.root.tags, ∀ called,
      u.directives.call = some called → rank called < bound := by
    refine exists_bound_forall
      (fun hle h u hu called hcall => Nat.lt_of_lt_of_le (h u hu called hcall) hle)
      fun template _ => exists_bound_forall
        (fun hle h called hcall => Nat.lt_of_lt_of_le (h called hcall) hle) fun u _ => ?_
    cases u.directives.call with
    | none => exact ⟨0, nofun⟩
    | some called =>
      refine ⟨rank called + 1, fun other hother => ?_⟩
      cases hother
      exact Nat.lt_succ_self _
  refine ⟨bound, fun template htemplate other u called hcovers hcall => ?_⟩
  have hmem := hcovers.mem (S := (· ∈ templates))
    (fun included other hincluded => h.closed included hincluded other)
    fun v hv file hkind included hgives =>
      h.closed template htemplate included ⟨v, hv, file, hkind, hgives⟩
  rcases hmem with ⟨rfl, hu⟩ | ⟨hother, hu⟩
  · exact hbound other htemplate u hu called hcall
  · exact hbound other hother u hu called hcall

end Engine.Ranks

namespace Render

variable {e : Engine} {m₀ : Memory} {templates : List Template}

-- ---------------------------------------------------------------------------
-- Depths at which tags end
-- ---------------------------------------------------------------------------

/-- In all sessions in order, the tag of the template ends within the depth. -/
def Settles (e : Engine) (m₀ : Memory) (templates : List Template) (depth : Nat)
    (template : Template) (t : Tag) (suppressed : Suppressed) : Prop :=
  ∀ view, Orderly e m₀ templates (IsAt view template) (tag e depth t view suppressed)

theorem ne_depth_of_ends {α : Type} {known : List Template} {r : Outcome α}
    (h : (inOrder e m₀ templates).Ends known r r) : r.1 ≠ .error .depth := by
  generalize hr : r = r' at h
  intro hdepth
  cases h with
  | ok => cases hdepth
  | stop h =>
    cases hdepth
    exact h.2 rfl
  | first h => exact h
  | second h => exact h

theorem Settles.mono {depth depth' : Nat} {template : Template} {t : Tag} {suppressed : Suppressed}
    (h : Settles e m₀ templates depth template t suppressed) (hle : depth ≤ depth') :
    Settles e m₀ templates depth' template t suppressed := by
  rintro view known s m _ _ hrel hA
  have hends := h view hrel hA
  obtain ⟨rfl, rfl, -⟩ := hrel
  rwa [tag_of_le hle (ne_depth_of_ends hends)]

theorem orderly_inclusion {inner : Renderer} {view : Nat} {template : Template} (t : Tag)
    {file : String}
    (h : ∀ other, e.Gives m₀ (Path.resolve template.path file) other → other ∈ templates ∧
      ∀ view, Orderly e m₀ templates (IsAt view other) (inner other.root view .none)) :
    Orderly e m₀ templates (IsAt view template) (inclusion e inner view t file) := by
  rintro (known : List Template) _ _ s m ⟨rfl, rfl, horder⟩ hA
  rw [inclusion_apply, horder.path hA]
  have hasked := horder.asked.load (Path.resolve template.path file)
  have hgives {compiled : Compiled}
      (hload : (e.load (Path.resolve template.path file) m).1 = .ok compiled) :
      e.Gives m₀ (Path.resolve template.path file) compiled.template := .of_load horder.asked hload
  generalize e.load (Path.resolve template.path file) m = r at hasked hgives
  obtain ⟨f | compiled, n⟩ := r
  · exact .stop ⟨rfl, nofun⟩
  · obtain ⟨hother, hinner⟩ := h compiled.template (hgives rfl)
    have hadded := InOrder.addView { horder with asked := hasked } hother (some view)
    have hat : IsAt s.views.length compiled.template (known ++ [compiled.template]) := by
      rw [IsAt, ← horder.views]
      simp
    refine .mono (List.prefix_append known [compiled.template]) ?_
    exact (isAt_pairs ..).map _ (hinner _) ⟨rfl, rfl, hadded⟩ hat

theorem orderly_invoke {inner : Renderer} {A : List Template → Prop} (view : Nat) (t : Tag)
    {name : String} (all : Table Value)
    (h : ∀ template ∈ templates, ∀ u ∈ template.root.tags, u.directives.macroName = some name →
      ∀ view, Orderly e m₀ templates (IsAt view template) (inner u view ⟨false, true⟩)) :
    Orderly e m₀ templates A (invoke inner view t name all) := by
  rintro (known : List Template) _ _ s m ⟨rfl, rfl, horder⟩ hA
  rw [invoke_apply]
  cases hget : s.macros.get? name with
  | none => exact .ok List.prefix_rfl ⟨rfl, rfl, horder.of_eq rfl rfl rfl⟩
  | some body =>
    obtain ⟨template, u, hat, hu, hfind, hname⟩ := horder.macros name body hget
    have hfound : (s.views[body.view]?).bind (fun v => v.template.find? body.tag) = some u := by
      rw [← horder.views, List.getElem?_map, Option.map_eq_some_iff] at hat
      obtain ⟨v, hv, rfl⟩ := hat
      rw [hv]
      exact hfind
    have htemplate := horder.among template (List.mem_of_getElem? hat)
    simp only [hfound]
    have hpairs := isAt_pairs e m₀ templates body.view template
    have hentered : InOrder e m₀ templates known (s.enterMacro all) m := horder.of_eq rfl rfl rfl
    refine hpairs.bind (hpairs.map _ (h template htemplate u hu hname body.view)) (fun text => ?_)
      ⟨rfl, rfl, hentered⟩ hat
    refine hpairs.bind ?_ fun _ => hpairs.pure text
    exact orderly_modify (fun _ => rfl) (fun _ => rfl) fun _ => rfl

section

variable (hfinite : ∀ factory ∈ e.functions, ∀ name f, factory name = some f →
  Function.IsFinite f)

include hfinite

/-- A tag ends one deeper than all that is rendered in it, if templates and bodies of macros that it
may meet end. -/
theorem settles_succ {depth : Nat} {template : Template} {t : Tag} {suppressed : Suppressed}
    (hnumbered : template.IsNumbered) (ht : t ∈ template.root.tags)
    (hinside : ∀ c ∈ Tag.contentTags t.children, Settles e m₀ templates depth template c .none)
    (hwalked : suppressed.walk = false →
      Settles e m₀ templates depth template t { suppressed with walk := true })
    (hincluded : ∀ file, t.kind = .inclusion file →
      ∀ other, e.Gives m₀ (Path.resolve template.path file) other → other ∈ templates ∧
        Settles e m₀ templates depth other other.root .none)
    (hcalled : ∀ name, t.directives.call = some name → ∀ other ∈ templates,
      ∀ u ∈ other.root.tags, u.directives.macroName = some name →
        Settles e m₀ templates depth other u ⟨false, true⟩) :
    Settles e m₀ templates (depth + 1) template t suppressed := by
  intro view
  have halong := orderly_along (isAt_lasts e m₀ templates view template) hfinite view
  refine halong.tagStep (fun hc => .inr hc.alike) ?_ t.alike_isInside ?_ ?_ ?_ ?_ ?_
  · rintro _ c ⟨rfl, hc⟩ -
    exact (isAt_pairs ..).map _ (hinside c hc view)
  · exact fun _ hsuppressed => (isAt_pairs ..).map _ (hwalked hsuppressed view)
  · exact fun file hkind => orderly_inclusion t fun other hgives =>
      hincluded file hkind other hgives
  · exact fun file name source _ =>
      orderly_dictionary (isAt_lasts _ _ _ _ _) hfinite view t file name source
  · intro name hname
    refine Simulation.holds_modify ?_
    rintro known _ _ s m ⟨rfl, rfl, horder⟩ hat
    exact ⟨known, List.prefix_rfl, rfl, rfl,
      horder.defineMacro hat ht (hnumbered.find?_eq ht) hname⟩
  · exact fun name hname all => orderly_invoke view t all (hcalled name hname)

/-- A tag ends if all ends that is rendered in it: first without its walk, and so with it too. -/
theorem exists_settles {template : Template} {t : Tag} (hnumbered : template.IsNumbered)
    (ht : t ∈ template.root.tags)
    (hinside : ∀ c ∈ Tag.contentTags t.children,
      ∃ depth, Settles e m₀ templates depth template c .none)
    (hincluded : ∀ file, t.kind = .inclusion file →
      ∀ other, e.Gives m₀ (Path.resolve template.path file) other → other ∈ templates ∧
        ∃ depth, Settles e m₀ templates depth other other.root .none)
    (hcalled : ∃ depth, ∀ name, t.directives.call = some name → ∀ other ∈ templates,
      ∀ u ∈ other.root.tags, u.directives.macroName = some name →
        Settles e m₀ templates depth other u ⟨false, true⟩) (suppressed : Suppressed) :
    ∃ depth, Settles e m₀ templates depth template t suppressed := by
  obtain ⟨inside, hinside⟩ := exists_bound_forall
    (Q := fun depth c => Settles e m₀ templates depth template c .none)
    (fun hle h => h.mono hle) hinside
  obtain ⟨called, hcalled⟩ := hcalled
  obtain ⟨included, hincluded⟩ : ∃ depth, ∀ file, t.kind = .inclusion file →
      ∀ other, e.Gives m₀ (Path.resolve template.path file) other → other ∈ templates ∧
        Settles e m₀ templates depth other other.root .none := by
    have hroot : ∀ other ∈ templates, ∃ depth, ∀ file, t.kind = .inclusion file →
        e.Gives m₀ (Path.resolve template.path file) other →
          Settles e m₀ templates depth other other.root .none := by
      intro other _
      by_cases hother : ∃ file, t.kind = .inclusion file ∧
          e.Gives m₀ (Path.resolve template.path file) other
      · obtain ⟨file, hkind, hgives⟩ := hother
        obtain ⟨depth, hdepth⟩ := (hincluded file hkind other hgives).2
        exact ⟨depth, fun _ _ _ => hdepth⟩
      · exact ⟨0, fun file hkind hgives => absurd ⟨file, hkind, hgives⟩ hother⟩
    obtain ⟨depth, hdepth⟩ := exists_bound_forall
      (fun hle h file hkind hgives => Settles.mono (h file hkind hgives) hle) hroot
    refine ⟨depth, fun file hkind other hgives => ?_⟩
    have hother := (hincluded file hkind other hgives).1
    exact ⟨hother, hdepth other hother file hkind hgives⟩
  let depth := max inside (max called included)
  have hwithin {suppressed : Suppressed} (more : Nat) (hwalked : suppressed.walk = false →
      Settles e m₀ templates (depth + more) template t { suppressed with walk := true }) :
      Settles e m₀ templates (depth + more + 1) template t suppressed := by
    refine settles_succ hfinite hnumbered ht (fun c hc => (hinside c hc).mono (by omega)) hwalked
      (fun file hkind other hgives => ?_) fun name hname other hother u hu hdefines => ?_
    · obtain ⟨hother, hroot⟩ := hincluded file hkind other hgives
      exact ⟨hother, hroot.mono (by omega)⟩
    · exact (hcalled name hname other hother u hu hdefines).mono (by omega)
  exact ⟨depth + 2, hwithin 1 fun _ => hwithin 0 nofun⟩

/-- With the bodies of macros of lower rank, all tags end from which only such macros are called. -/
theorem exists_settles_of_callsBelow {rank : String → Nat} (hranks : e.Ranks m₀ templates rank)
    {bound : Nat} (hbodies : ∃ depth, ∀ name, rank name < bound → ∀ other ∈ templates,
      ∀ u ∈ other.root.tags, u.directives.macroName = some name →
        Settles e m₀ templates depth other u ⟨false, true⟩) :
    ∀ template ∈ templates, ∀ t ∈ template.root.tags, e.CallsBelow m₀ rank bound template t →
      ∀ suppressed, ∃ depth, Settles e m₀ templates depth template t suppressed := by
  refine hranks.induction fun template htemplate ihtemplate t => ?_
  obtain ⟨path, lead, text, hcompile⟩ := hranks.compiled template htemplate
  have hnumbered := Template.isNumbered_of_compile hcompile
  -- the induction needs all tags in the children, not only the children
  suffices hall : t ∈ template.root.tags → e.CallsBelow m₀ rank bound template t →
      ∀ u ∈ t.tags, ∀ suppressed, ∃ depth, Settles e m₀ templates depth template u suppressed from
    fun ht hcalls => hall ht hcalls t t.mem_tags_self
  induction t using Tag.induction with
  | h t ih =>
    intro ht hcalls u hu
    have hchild {c : Tag} (hc : .child c ∈ t.children) := ih c hc
      (Tag.mem_tags_trans ht (Tag.mem_tags_of_child hc))
      fun other v called hcovers => hcalls other v called (.child hc hcovers)
    rcases Tag.mem_tags_iff.1 hu with rfl | ⟨c, hc, hu⟩
    · refine exists_settles hfinite hnumbered ht (fun c hc => ?_)
        (fun file hkind other hgives => ?_) ?_
      · obtain ⟨around, haround, hc⟩ := Tag.mem_contentTags_iff.1 hc
        exact hchild haround c hc .none
      · have hincludes : e.Includes m₀ template other := ⟨u, ht, file, hkind, hgives⟩
        refine ⟨hranks.closed template htemplate other hincludes, ?_⟩
        exact ihtemplate other hincludes other.root other.root.mem_tags_self
          (fun last v called hcovers => hcalls last v called (.inclusion hkind hgives hcovers))
          .none
      · obtain ⟨depth, hbodies⟩ := hbodies
        exact ⟨depth, fun name hname other hother =>
          hbodies name (hcalls template u name (.self template u) hname) other hother⟩
    · exact hchild hc u hu

/-- All tags of ranked templates end. -/
theorem exists_settles_of_ranks {rank : String → Nat} (hranks : e.Ranks m₀ templates rank)
    (bound : Nat) : ∀ template ∈ templates, ∀ t ∈ template.root.tags,
      e.CallsBelow m₀ rank bound template t → ∀ suppressed,
        ∃ depth, Settles e m₀ templates depth template t suppressed := by
  induction bound using Nat.strong_induction_on with
  | h bound ih =>
    refine exists_settles_of_callsBelow hfinite hranks ?_
    have hbody : ∀ other ∈ templates, ∀ u ∈ other.root.tags, ∃ depth, ∀ name,
        rank name < bound → u.directives.macroName = some name →
          Settles e m₀ templates depth other u ⟨false, true⟩ := by
      intro other hother u hu
      by_cases hdefines : ∃ name, rank name < bound ∧ u.directives.macroName = some name
      · obtain ⟨name, hrank, hname⟩ := hdefines
        obtain ⟨depth, hdepth⟩ := ih (rank name) hrank other hother u hu
          (hranks.calls other hother u hu name hname) ⟨false, true⟩
        exact ⟨depth, fun _ _ _ => hdepth⟩
      · exact ⟨0, fun name hrank hname => absurd ⟨name, hrank, hname⟩ hdefines⟩
    have hbodies : ∀ other ∈ templates, ∃ depth, ∀ u ∈ other.root.tags, ∀ name,
        rank name < bound → u.directives.macroName = some name →
          Settles e m₀ templates depth other u ⟨false, true⟩ := by
      intro other hother
      refine exists_bound_forall (fun {depth depth' u} hle h name hrank hname => ?_)
        (hbody other hother)
      exact (h name hrank hname).mono hle
    obtain ⟨depth, hdepth⟩ := exists_bound_forall
      (fun {depth depth' other} hle h u hu name hrank hname =>
        Settles.mono (h u hu name hrank hname) hle) hbodies
    exact ⟨depth, fun name hrank other hother u hu hname =>
      hdepth other hother u hu name hrank hname⟩

end

/-- A page ends if its root does. -/
theorem page_ne_depth {depth : Nat} {template : Template} (htemplate : template ∈ templates)
    (h : Settles e m₀ templates depth template template.root .none) (data : Value)
    (language : Option String) :
    (page e depth template (.start data language) m₀).1 ≠ .error .depth := by
  have hempty : InOrder e m₀ templates [] (.start data language) m₀ := .start data language m₀
  have hstart := hempty.addView htemplate none
  have hends := Simulation.Ends.bind (h 0 ⟨rfl, rfl, hstart⟩ rfl)
    (f := fun output => do
      let s ← get
      let instructions := String.join (template.instructions.map (· ++ "\n"))
      return instructions ++ Slot.splice s.slots s.plugs (output.getD ""))
    (fun _ _ _ _ _ _ _ hrel => by
      obtain ⟨rfl, rfl, horder⟩ := hrel
      exact .ok List.prefix_rfl ⟨rfl, rfl, horder⟩)
  exact ne_depth_of_ends hends

end Render

/-- If templates do not include each other in a circle, and macros are ranked so that the bodies of
macros call macros of lower ranks only, rendering them ends. From some depth on the depth does not
matter, for all data and languages alike. -/
theorem Engine.renderWithin_settles {e : Engine} {m : Memory} {templates : List Template}
    {rank : String → Nat} (hranks : e.Ranks m templates rank)
    (hfinite : ∀ factory ∈ e.functions, ∀ name f, factory name = some f → Function.IsFinite f) :
    ∃ bound, ∀ template ∈ templates, ∀ data language,
      (e.renderWithin bound template data language m).1 ≠ .error .depth ∧
      ∀ depth, bound ≤ depth → e.renderWithin depth template data language m =
        e.renderWithin bound template data language m := by
  obtain ⟨below, hbelow⟩ := hranks.exists_callsBelow
  obtain ⟨bound, hbound⟩ := exists_bound_forall
    (Q := fun depth template =>
      Render.Settles e m templates depth template template.root .none)
    (fun hle h => h.mono hle)
    fun template htemplate => Render.exists_settles_of_ranks hfinite hranks below template
      htemplate template.root template.root.mem_tags_self (hbelow template htemplate) .none
  refine ⟨bound, fun template htemplate data language => ?_⟩
  have hdepth : (e.renderWithin bound template data language m).1 ≠ .error .depth := by
    have hpage := Render.page_ne_depth htemplate (hbound template htemplate) data
      (language.or e.language)
    unfold renderWithin
    simp only [StateT.run]
    split
    · nofun
    · rename_i heq
      rw [heq] at hpage
      intro hstop
      cases hstop
      exact hpage rfl
  exact ⟨hdepth, fun depth hle => e.renderWithin_of_le hle hdepth⟩

/-- The macros that are called in a tag. -/
def Tag.calls (t : Tag) : List String := t.tags.filterMap (·.directives.call)

namespace Engine

variable {e : Engine} {m : Memory} {template other : Template}

theorem includes_iff : e.Includes m template other ↔
    ∃ file ∈ template.root.files, e.Gives m (Path.resolve template.path file) other := by
  constructor
  · rintro ⟨t, ht, file, hkind, hgives⟩
    exact ⟨file, Tag.mem_files_iff.2 ⟨t, ht, hkind⟩, hgives⟩
  · rintro ⟨file, hfile, hgives⟩
    obtain ⟨t, ht, hkind⟩ := Tag.mem_files_iff.1 hfile
    exact ⟨t, ht, file, hkind, hgives⟩

/-- The calls in a tag without inclusions. -/
theorem callsBelow_of_calls {rank : String → Nat} {bound : Nat} {t : Tag} (hfiles : t.files = [])
    (hcalls : ∀ called ∈ t.calls, rank called < bound) : e.CallsBelow m rank bound template t := by
  intro other u called hcovers hcall
  obtain ⟨-, hu⟩ := hcovers.mem_of_files hfiles
  exact hcalls called (List.mem_filterMap.2 ⟨u, hu, hcall⟩)

/-- A page that calls a macro of a part that it includes. The body of the macro calls another one,
which the part has defined anew. -/
def lending : Engine :=
  { Engine.default.onShelf ((Shelf.empty.put "page.xml"
      "<a><b fig:macro='n' fig:text='seven()'/><fig:include file='part.xml'/><b fig:call='m'/></a>").put
      "part.xml" "<p><u fig:macro='n'/><i fig:macro='m'><u fig:call='n'/></i></p>") with
    functions := [fun name => if name = "seven" then some fun _ _ => .ok (.int 7) else none] }

/-- The macro of the part is above the other one. -/
def lendingRank (name : String) : Nat := if name = "m" then 1 else 0

/-- The path of a template, the files it includes, and its macros with their calls and the files
that they include. -/
def outline (template : Template) :
    String × List String × List (Option String × List String × List String) :=
  (template.path, template.root.files, (template.root.tags.filter
    (·.directives.macroName.isSome)).map fun u => (u.directives.macroName, u.calls, u.files))

theorem mem_outline {t : Tag} {name : String} (ht : t ∈ template.root.tags)
    (hname : t.directives.macroName = some name) :
    (some name, t.calls, t.files) ∈ (outline template).2.2 :=
  List.mem_map.2 ⟨t, List.mem_filter.2 ⟨ht, by simp [hname]⟩, by rw [hname]⟩

theorem lending_ranks {page part : Template} (hdue : lending.due ⟨[]⟩ "page.xml" = .ok page)
    (hdue' : lending.due ⟨[]⟩ "part.xml" = .ok part)
    (hpage : outline page = ("page.xml", ["part.xml"], [(some "n", [], [])]))
    (hpart : outline part = ("part.xml", [], [(some "n", [], []), (some "m", ["n"], [])])) :
    lending.Ranks (.ofFiles ⟨[]⟩) [page, part] lendingRank := by
  have hcurrent : lending.IsCurrent (.ofFiles ⟨[]⟩) := isCurrent_ofFiles rfl ⟨[]⟩
  have hcompiled {path : String} {t : Template} (h : lending.due ⟨[]⟩ path = .ok t) :
      ∃ path lead text, Template.compile path lead text = .ok t :=
    (exists_compile_of_due h).elim fun text htext => ⟨_, _, text, htext⟩
  have hincludes {other : Template} (h : lending.Includes (.ofFiles ⟨[]⟩) page other) :
      other = part := by
    obtain ⟨file, hfile, hgives⟩ := includes_iff.1 h
    rw [show page.root.files = ["part.xml"] from congrArg (·.2.1) hpage,
      List.mem_singleton] at hfile
    subst hfile
    have hfile : Path.resolve "page.xml" "part.xml" = "part.xml" := by rfl
    rw [show page.path = "page.xml" from congrArg Prod.fst hpage, hfile] at hgives
    cases hdue'.symm.trans (hcurrent.due_eq_of_gives (admits_stays_of_none rfl) hgives)
    rfl
  have hnone {other : Template} : ¬ lending.Includes (.ofFiles ⟨[]⟩) part other := by
    intro h
    obtain ⟨file, hfile, -⟩ := includes_iff.1 h
    rw [show part.root.files = [] from congrArg (·.2.1) hpart] at hfile
    cases hfile
  refine ⟨?_, ?_, ?_, ?_⟩ <;> simp only [List.forall_mem_cons, List.not_mem_nil, false_implies,
    implies_true, and_true]
  · exact ⟨hcompiled hdue, hcompiled hdue'⟩
  · exact ⟨fun other h => by simp [hincludes h], fun other h => (hnone h).elim⟩
  · constructor
    · intro h
      obtain ⟨other, hfirst, hrest⟩ := Relation.TransGen.head'_iff.1 h
      cases hincludes hfirst
      rcases Relation.ReflTransGen.cases_head hrest with rfl | ⟨_, hnext, -⟩
      · simp [hpage] at hpart
      · exact hnone hnext
    · intro h
      obtain ⟨other, hfirst, -⟩ := Relation.TransGen.head'_iff.1 h
      exact hnone hfirst
  · constructor
    · intro t ht name hname
      have hbody := mem_outline ht hname
      simp only [hpage, List.mem_singleton, Prod.mk.injEq, Option.some.injEq] at hbody
      obtain ⟨rfl, hcalls, hfiles⟩ := hbody
      exact callsBelow_of_calls hfiles (by simp [hcalls])
    · intro t ht name hname
      have hbody := mem_outline ht hname
      simp only [hpart, List.mem_cons, List.not_mem_nil, or_false, Prod.mk.injEq,
        Option.some.injEq] at hbody
      rcases hbody with ⟨rfl, hcalls, hfiles⟩ | ⟨rfl, hcalls, hfiles⟩
      · exact callsBelow_of_calls hfiles (by simp [hcalls])
      · exact callsBelow_of_calls hfiles (by simp [hcalls, lendingRank])

theorem renderWithin_settles_lending :
    ∃ page part, lending.due ⟨[]⟩ "page.xml" = .ok page ∧ lending.due ⟨[]⟩ "part.xml" = .ok part ∧
      lending.Ranks (.ofFiles ⟨[]⟩) [page, part] lendingRank ∧
      ∃ bound, ∀ template ∈ [page, part], ∀ data language,
        (lending.renderWithin bound template data language (.ofFiles ⟨[]⟩)).1 ≠ .error .depth ∧
        ∀ depth, bound ≤ depth →
          lending.renderWithin depth template data language (.ofFiles ⟨[]⟩) =
            lending.renderWithin bound template data language (.ofFiles ⟨[]⟩) := by
  have hpage : (lending.due ⟨[]⟩ "page.xml").toOption.any (fun t =>
      outline t == ("page.xml", ["part.xml"], [(some "n", [], [])])) := by
    decide +kernel
  have hpart : (lending.due ⟨[]⟩ "part.xml").toOption.any (fun t =>
      outline t == ("part.xml", [], [(some "n", [], []), (some "m", ["n"], [])])) := by
    decide +kernel
  obtain ⟨page, hdue, hpage⟩ := Outcome.exists_of_any hpage
  obtain ⟨part, hdue', hpart⟩ := Outcome.exists_of_any hpart
  have hranks := lending_ranks hdue hdue' (beq_iff_eq.1 hpage) (beq_iff_eq.1 hpart)
  refine ⟨page, part, hdue, hdue', hranks, renderWithin_settles hranks ?_⟩
  intro factory hfactory name f hf
  cases List.mem_singleton.1 hfactory
  simp only at hf
  split at hf
  · cases hf
    exact fun _ _ => nofun
  · cases hf

end Engine

end XmlTemplate
