import XmlTemplate.Proofs.Render.Mounting
import XmlTemplate.Proofs.Template.Tree

/-!
# Tags that leave no trace

A tag may do more than come to a text: it mounts values, defines macros and fills slots. A tag that
has nothing of this in it, nor another template or a macro that could bring it in, leaves the root,
the macros, the slots and the plugs of the session as they are. So do the parameters of a call if
their content is of such tags.
-/

namespace XmlTemplate

/-- Nothing was mounted, defined or put into slots between the sessions. -/
structure Session.Rests (s s' : Session) : Prop where
  root : s'.root = s.root
  macros : s'.macros = s.macros
  slots : s'.slots = s.slots
  plugs : s'.plugs = s.plugs

namespace Session

theorem Rests.refl (s : Session) : s.Rests s := ⟨rfl, rfl, rfl, rfl⟩

theorem Rests.trans {s t u : Session} (h : s.Rests t) (k : t.Rests u) : s.Rests u where
  root := k.root.trans h.root
  macros := k.macros.trans h.macros
  slots := k.slots.trans h.slots
  plugs := k.plugs.trans h.plugs

theorem Keeps.rests {s s' : Session} (h : s.Keeps s') (hroot : s'.root = s.root) : s.Rests s' :=
  ⟨hroot, h.macros, h.slots, h.plugs⟩

end Session

-- ---------------------------------------------------------------------------
-- Inert tags
-- ---------------------------------------------------------------------------

/-- The kind neither mounts nor includes. -/
def TagKind.isInert : TagKind → Bool
  | inclusion _ | feed .. | mount .. => false
  | _ => true

/-- Neither macros nor slots are defined or used. -/
structure Directives.AreInert (d : Directives) : Prop where
  macroName : d.macroName = .none
  call : d.call = .none
  slot : d.slot = .none
  plug : d.plug = .none

namespace Tag

/-- Nothing in the tag, itself included, mounts, includes, or has to do with macros and slots. -/
def IsInert (t : Tag) : Prop := ∀ u ∈ t.tags, u.kind.isInert ∧ u.directives.AreInert

/-- The children of the tag are inert, whatever it is itself. -/
def HasInertContent (t : Tag) : Prop := ∀ c, .child c ∈ t.children → c.IsInert

/-- Parameters of the tag that are given by their content have inert content. -/
def HasInertParameters (t : Tag) : Prop :=
  ∀ c ∈ t.childTags, ∀ name, c.kind = .param name none → c.HasInertContent

variable {t : Tag}

theorem IsInert.content (h : t.IsInert) : t.HasInertContent :=
  fun _ hc _ hu => h _ (mem_tags_trans (mem_tags_of_child hc) hu)

end Tag

namespace Render

-- ---------------------------------------------------------------------------
-- Steps that leave no trace
-- ---------------------------------------------------------------------------

/-- Whenever the step ends, it has left no trace. -/
abbrev Resting (x : Render α) : Prop := Steps Session.Rests x

theorem resting_composes : Composes Render Resting :=
  steps_composes Session.Rests.refl Session.Rests.trans

theorem resting_of_keeping {x : Render α} (hkeeping : Keeping x) (hroot : LeavesRoot x) :
    Resting x :=
  fun s _ _ _ _ hr => (hkeeping s hr).rests (hroot s hr)

theorem resting_modify {g : Session → Session} (h : ∀ s : Session, s.Rests (g s)) :
    Resting (modify g : Render Unit) :=
  steps_modify h

theorem resting_get_bind {f : Session → Render α} (h : ∀ s, Resting (f s)) :
    Resting (get >>= f) :=
  steps_get_bind fun s => h s s

theorem resting_consult (place : Place) (use : Memory → Except Fault α × Memory) :
    Resting (consult place use) :=
  resting_of_keeping (keeping_consult place use) (leavesRoot_consult place use)

variable (e : Engine)

/-- The steps of a tag that warn, look up and read leave no trace. -/
theorem resting_still (view : Nat) : Still e view view Eq (Itself Resting) where
  toPairs := itself_pairs resting_composes
  evaluate hline expr _ := ⟨hline ▸ rfl, resting_of_keeping ((keeping_local e).evaluate _ expr)
    ((leavesRoot_local e).evaluate _ expr)⟩
  evaluateAttribute hline raw _ := ⟨hline ▸ rfl, resting_of_keeping
    ((keeping_local e).evaluateAttribute _ raw) ((leavesRoot_local e).evaluateAttribute _ raw)⟩
  failAt hline f _ := ⟨hline ▸ rfl, steps_failAt _ f⟩
  warnAt hline _ _ := ⟨hline ▸ rfl, resting_modify fun s => (s.keeps_warn _).rests rfl⟩
  language hfg :=
    ⟨bind_congr fun s => (hfg s.language).1, resting_get_bind fun s => (hfg s.language).2⟩
  translate hfg := ⟨bind_congr fun _ => (hfg _).1, resting_get_bind fun _ => (hfg _).2⟩
  findFeed hline feedClass parameters := ⟨hline ▸ rfl, resting_of_keeping
    (keeping_findFeed e _ feedClass parameters) (leavesRoot_findFeed e _ feedClass parameters)⟩
  verbatim hline file := by
    refine ⟨verbatim_of_line hline e view file, resting_get_bind fun s => ?_⟩
    exact resting_composes.bind (resting_consult _ _) fun _ => resting_composes.pure _

-- ---------------------------------------------------------------------------
-- Tags
-- ---------------------------------------------------------------------------

/-- An inert tag beside itself. -/
def IsInertCopy (t t' : Tag) : Prop := t' = t ∧ t.IsInert

theorem alike_of_hasInertContent {t : Tag} (h : t.HasInertContent) : t.Alike Eq IsInertCopy t :=
  .self t rfl fun c hc => ⟨rfl, h c hc⟩

theorem child_of_isInertCopy {t t' : Tag} (h : IsInertCopy t t') :
    t.kind.belongsToParent = false ∧ t'.kind.belongsToParent = false ∨
      t.Alike Eq IsInertCopy t' := by
  obtain ⟨rfl, hinert⟩ := h
  exact .inr (alike_of_hasInertContent hinert.content)

section

variable {e} {inner : Renderer} {t : Tag} {view : Nat}
  (hinner : ∀ t : Tag, t.IsInert → ∀ view suppressed, Resting (inner t view suppressed))

include hinner

theorem output_of_isInertCopy {t t' : Tag} (h : IsInertCopy t t') (view : Nat)
    (suppressed : Suppressed) :
    Itself Resting (inner.output t view suppressed) (inner.output t' view suppressed) := by
  obtain ⟨rfl, hinert⟩ := h
  exact ⟨rfl, resting_composes.map _ (hinner _ hinert view suppressed)⟩

theorem resting_content (h : t.HasInertContent) : Resting (content inner view t) :=
  ((resting_still .default view).content child_of_isInertCopy
    (fun hc _ => output_of_isInertCopy hinner hc view .none) (alike_of_hasInertContent h)).2

theorem resting_kind (h : t.IsInert) : Resting (kind e inner view t) := by
  have hstill := resting_still e view
  have hchild {c c' : Tag} (hc : IsInertCopy c c') (_ : c.kind.belongsToParent = false) :=
    output_of_isInertCopy hinner hc view .none
  have halike := alike_of_hasInertContent h.content
  have helement := (hstill.element (Still.child_within child_of_isInertCopy) hchild halike
    (tagWithin_true t)).2
  obtain ⟨hkind, -⟩ := h t t.mem_tags_self
  unfold kind
  cases hcase : t.kind with
  | element | control => exact helement
  | inclusion | feed | mount =>
    rw [hcase] at hkind
    cases hkind
  | verbatim file => exact (hstill.verbatim (rfl : t.line = t.line) file).2
  | attr | param => exact resting_composes.pure _
  | dictionary file name source =>
    refine resting_composes.bind (hstill.attaching t t file name source
      (fun _ => ⟨rfl, resting_consult _ _⟩)
      (fun _ => ⟨rfl, resting_modify fun s => (s.keeps_warn _).rests rfl⟩)
      fun d => ⟨rfl, resting_modify fun s => (s.keeps_attach name d view).rests rfl⟩).2
      fun _ => resting_composes.pure _
  | trans key dict source => exact (hstill.trans child_of_isInertCopy hchild halike _ _ _).2

theorem resting_tagStep (h : t.IsInert) (suppressed : Suppressed) :
    Resting (tagStep e inner t view suppressed) := by
  have hstill := resting_still e view
  have halike := alike_of_hasInertContent h.content
  have hkind : Resting (kind e inner view t) := resting_kind hinner h
  obtain ⟨-, hdirectives⟩ := h t t.mem_tags_self
  have hshown : Resting (shown e inner view t) := by
    unfold shown
    rw [hdirectives.call, hdirectives.slot, hdirectives.plug]
    exact resting_composes.map _ hkind
  unfold tagStep
  split
  · rename_i d _ _
    refine resting_composes.map _ (hstill.walk halike (startsWithin_true d.expr) (fun _ => ?_) ?_
      fun item => ⟨rfl, ?_⟩).2
    · exact ⟨rfl, resting_modify fun _ => ⟨rfl, rfl, rfl, rfl⟩⟩
    · exact ⟨rfl, resting_modify fun _ => ⟨rfl, rfl, rfl, rfl⟩⟩
    · exact resting_composes.bind (resting_modify fun _ => ⟨rfl, rfl, rfl, rfl⟩) fun _ =>
        resting_composes.bind (output_of_isInertCopy hinner ⟨rfl, h⟩ view _).2 fun _ =>
          resting_composes.bind (resting_modify fun _ => ⟨rfl, rfl, rfl, rfl⟩) fun _ =>
            resting_composes.pure _
  · refine resting_composes.bind (hstill.condition halike (tagWithin_true t)).2 fun isThere => ?_
    rw [hdirectives.macroName]
    split
    · exact hshown
    · exact resting_composes.pure _

/-- Parameters with inert content leave no trace. -/
theorem resting_parameters (h : t.HasInertParameters) : Resting (parameters e inner view t) := by
  have hpairs : Pairs Render (Itself Resting) := itself_pairs resting_composes
  refine (hpairs.foldlM (fun done c hc => ⟨rfl, ?_⟩) []).2
  unfold addParameter
  cases hkind : c.kind with
  | param name value =>
    have hcondition := resting_of_keeping ((keeping_local e).condition view c)
      ((leavesRoot_local e).condition view c)
    refine resting_composes.bind hcondition fun isThere => ?_
    split
    · cases value with
      | some d =>
        exact resting_composes.bind (resting_of_keeping ((keeping_local e).evaluate _ _)
          ((leavesRoot_local e).evaluate _ _)) fun _ => resting_composes.pure _
      | none =>
        exact resting_composes.bind (resting_content hinner (h c hc name hkind)) fun _ =>
          resting_composes.pure _
    · exact resting_composes.pure _
  | _ => exact resting_composes.pure _

end

/-- An inert tag leaves no trace. -/
theorem resting_tag (depth : Nat) {t : Tag} (h : t.IsInert) (view : Nat) (suppressed : Suppressed) :
    Resting (tag e depth t view suppressed) := by
  induction depth generalizing t view suppressed with
  | zero => exact fun _ _ _ _ _ hr => nomatch hr
  | succ depth ih => exact resting_tagStep (fun _ hu => ih hu) h suppressed

end Render

end XmlTemplate
