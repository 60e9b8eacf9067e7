import XmlTemplate.Proofs.Expr.Stored
import XmlTemplate.Template.Stored

/-!
# Stored templates are read back
-/

namespace XmlTemplate

open Json (ReadsBack given bind_given)
open Json.Draft

-- ---------------------------------------------------------------------------
-- Directives
-- ---------------------------------------------------------------------------

/-- The floats of some directives. -/
def Directive.listFloats (ds : List (Option Directive)) : List Float :=
  ds.flatMap fun d => d.elim [] fun d => d.expr.floats

/-- The floats in the directives of a tag. -/
def Directives.floats (d : Directives) : List Float :=
  Directive.listFloats [d.walk, d.cond, d.text, d.mute, d.void, d.auto, d.append]

/-- The floats in the kind of a tag. -/
def TagKind.floats : TagKind → List Float
  | .attr _ value | .param _ value | .mount _ value => Directive.listFloats [value]
  | _ => []

theorem Directive.readsBack (d : Directive) (h : ∀ f ∈ d.expr.floats, Json.Keeps f) :
    ReadsBack Directive.ofDraft? d.toJson d :=
  readsBack_record _ rfl (by decide) fun _ =>
    bind_required? rfl (readsBack_string d.source) (bind_required? rfl (d.expr.readsBack h) rfl)

/-- An optional directive is read back if the floats in it are. -/
theorem Directive.readsBack_option (o : Option Directive)
    (h : ∀ f ∈ Directive.listFloats [o], Json.Keeps f) :
    ReadsBack (optional? Directive.ofDraft?) (.ofOption Directive.toJson o) o := by
  refine Json.Draft.readsBack_option o (fun d hd => d.readsBack fun f hf => h f ?_)
    fun _ _ => ofJson_object_ne_null _
  cases hd
  simp [Directive.listFloats, hf]

theorem Directives.readsBack (d : Directives) (h : ∀ f ∈ d.floats, Json.Keeps f) :
    ReadsBack Directives.ofDraft? d.toJson d := by
  have hexpr (o : Option Directive)
      (ho : o ∈ [d.walk, d.cond, d.text, d.mute, d.void, d.auto, d.append]) :
      ReadsBack (optional? Directive.ofDraft?) (.ofOption Directive.toJson o) o := by
    refine Directive.readsBack_option o fun f hf => h f (List.mem_flatMap.2 ⟨o, ho, ?_⟩)
    simpa [Directive.listFloats] using hf
  refine readsBack_record _ rfl (by decide) fun _ => ?_
  -- in the order of the fields
  refine bind_missing? rfl (hexpr d.walk (by simp)) ?_
  refine bind_missing? rfl (hexpr d.cond (by simp)) ?_
  refine bind_missing? rfl (hexpr d.text (by simp)) ?_
  refine bind_missing? rfl (hexpr d.mute (by simp)) ?_
  refine bind_missing? rfl (hexpr d.void (by simp)) ?_
  refine bind_missing? rfl (hexpr d.auto (by simp)) ?_
  refine bind_missing? rfl (hexpr d.append (by simp)) ?_
  refine bind_missing? rfl (readsBack_optionString d.macroName) ?_
  refine bind_missing? rfl (readsBack_optionString d.call) ?_
  refine bind_missing? rfl (readsBack_optionString d.slot) ?_
  refine bind_missing? rfl (readsBack_optionString d.plug) ?_
  exact bind_missing? rfl (readsBack_optionString d.filter) rfl

-- ---------------------------------------------------------------------------
-- Kinds
-- ---------------------------------------------------------------------------

namespace TagKind

theorem ofDraft?_of_case?_eq_none {d : Json.Draft} (h : d.case? = none) :
    TagKind.ofDraft? d = none := by
  rw [TagKind.ofDraft?, h]
  rfl

theorem readsBack (k : TagKind) (h : ∀ f ∈ k.floats, Json.Keeps f) :
    ReadsBack TagKind.ofDraft? k.toJson k := by
  have hnone := @ofDraft?_of_case?_eq_none
  cases k with
  | element | control =>
    intro depth
    rfl
  | inclusion file =>
    refine readsBack_case @hnone (fun d c hd => by rw [TagKind.ofDraft?, hd]; rfl)
      (readsBack_record (names "Include") rfl (by decide) fun _ => ?_)
    exact bind_required? rfl (readsBack_string file) rfl
  | verbatim file =>
    refine readsBack_case @hnone (fun d c hd => by rw [TagKind.ofDraft?, hd]; rfl)
      (readsBack_record (names "CData") rfl (by decide) fun _ => ?_)
    exact bind_required? rfl (readsBack_string file) rfl
  | attr name value =>
    refine readsBack_case @hnone (fun d c hd => by rw [TagKind.ofDraft?, hd]; rfl)
      (readsBack_record (names "Attr") rfl (by decide) fun _ => ?_)
    exact bind_required? rfl (readsBack_string name)
      (bind_missing? rfl (Directive.readsBack_option value h) rfl)
  | param name value =>
    refine readsBack_case @hnone (fun d c hd => by rw [TagKind.ofDraft?, hd]; rfl)
      (readsBack_record (names "Param") rfl (by decide) fun _ => ?_)
    exact bind_required? rfl (readsBack_string name)
      (bind_missing? rfl (Directive.readsBack_option value h) rfl)
  | feed feedClass target =>
    refine readsBack_case @hnone (fun d c hd => by rw [TagKind.ofDraft?, hd]; rfl)
      (readsBack_record (names "Feed") rfl (by decide) fun _ => ?_)
    exact bind_required? rfl (readsBack_string feedClass)
      (bind_missing? rfl (readsBack_optionString target) rfl)
  | dictionary file name source =>
    refine readsBack_case @hnone (fun d c hd => by rw [TagKind.ofDraft?, hd]; rfl)
      (readsBack_record (names "Dictionary") rfl (by decide) fun _ => ?_)
    exact bind_required? rfl (readsBack_string file)
      (bind_missing? rfl (readsBack_optionString name)
        (bind_missing? rfl (readsBack_optionString source) rfl))
  | mount target value =>
    refine readsBack_case @hnone (fun d c hd => by rw [TagKind.ofDraft?, hd]; rfl)
      (readsBack_record (names "Mount") rfl (by decide) fun _ => ?_)
    exact bind_required? rfl (readsBack_string target)
      (bind_missing? rfl (Directive.readsBack_option value h) rfl)
  | trans key dict source =>
    refine readsBack_case @hnone (fun d c hd => by rw [TagKind.ofDraft?, hd]; rfl)
      (readsBack_record (names "Trans") rfl (by decide) fun _ => ?_)
    exact bind_missing? rfl (readsBack_optionString key)
      (bind_missing? rfl (readsBack_optionString dict)
        (bind_missing? rfl (readsBack_optionString source) rfl))

end TagKind

-- ---------------------------------------------------------------------------
-- Tags
-- ---------------------------------------------------------------------------

mutual

/-- The floats in a tag and all tags within it. -/
def Tag.floats : Tag → List Float
  | ⟨_, _, _, kind, _, directives, children, _, _⟩ =>
    kind.floats ++ (directives.floats ++ Tag.contentFloats children)

def Tag.contentFloats : List (Node Tag) → List Float
  | [] => []
  | .text _ :: rest => Tag.contentFloats rest
  | .child t :: rest => t.floats ++ Tag.contentFloats rest

end

mutual

/-- The numbers and the lines of all tags are up to a bound. -/
def Tag.UpTo (high : Nat) : Tag → Prop
  | ⟨id, _, line, _, _, _, children, _, _⟩ =>
    (id ≤ high ∧ line ≤ high) ∧ Tag.ContentUpTo high children

def Tag.ContentUpTo (high : Nat) : List (Node Tag) → Prop
  | [] => True
  | .text _ :: rest => Tag.ContentUpTo high rest
  | .child t :: rest => t.UpTo high ∧ Tag.ContentUpTo high rest

end

theorem readsBack_pair (p : String × String) : ReadsBack pairOfDraft? (pairToJson p) p := by
  intro depth
  rw [pairToJson, ofJson_array]
  by_cases h : depth + 1 < Json.maxDepth <;>
    simp [h, ofItems, ofJson, pairOfDraft?, Json.fits, Json.itemsFit]

/-- The fields of a tag are read in their order. -/
theorem Tag.ofDraft?_eq (d : Json.Draft) :
    Tag.ofDraft? d = (d.record? Tag.names).bind fun fields =>
      (required? fields "id" (nat? maxStored)).bind fun id =>
      (required? fields "name" string?).bind fun name =>
      (required? fields "line" (nat? maxStored)).bind fun line =>
      (required? fields "kind" TagKind.ofDraft?).bind fun kind =>
      (required? fields "attributes" items?).bind fun attributes =>
      (attributes.mapM pairOfDraft?).bind fun attributes =>
      (required? fields "directives" Directives.ofDraft?).bind fun directives =>
      (required? fields "children" fun d => d.items?.bind Tag.contentOfDraft?).bind fun children =>
      (required? fields "self_closing" bool?).bind fun selfClosing =>
      (missing? fields "indent" string?).bind fun indent =>
      some ⟨id, name, line, kind, attributes, directives, children, selfClosing, indent⟩ := by
  rw [Tag.ofDraft?]
  split
  · simp [*]
  · rename_i hfields
    rw [hfields, Option.bind_some]
    split
    · rename_i hchildren
      simp [required?, hchildren]
    · rename_i hchildren
      split
      · rename_i hitems
        simp [required?, hchildren, hitems]
      · rename_i hitems
        simp [required?, hchildren, hitems]

theorem Tag.nodeOfDraft?_of_case?_eq_none {d : Json.Draft} (h : d.case? = none) :
    Tag.nodeOfDraft? d = none := by
  rw [Tag.nodeOfDraft?]
  split <;> simp_all

mutual

/-- A tag is read back from the tree that it is written as, if its floats and numbers are. -/
theorem Tag.readsBack : ∀ t : Tag, t.UpTo maxStored → (∀ f ∈ t.floats, Json.Keeps f) →
    ReadsBack Tag.ofDraft? t.toJson t
  | ⟨id, name, line, kind, attributes, directives, children, selfClosing, indent⟩, hnumbers, h => by
    obtain ⟨⟨hid, hline⟩, hrest⟩ := hnumbers
    have hkind := kind.readsBack fun f hf => h f (List.mem_append_left _ hf)
    have hdirectives := directives.readsBack fun f hf =>
      h f (List.mem_append_right _ (List.mem_append_left _ hf))
    have hchildren : ReadsBack (fun d => d.items?.bind Tag.contentOfDraft?)
        (.array (Tag.contentToJson children)) children := by
      intro depth
      simp only [items?_array]
      exact bind_given (Tag.contentReadsBack children hrest
        (fun f hf => h f (List.mem_append_right _ (List.mem_append_right _ hf))) (depth + 1))
    rw [Tag.toJson, funext Tag.ofDraft?_eq]
    refine readsBack_record Tag.names rfl (by decide) fun _ => ?_
    -- in the order of the fields
    refine bind_required? rfl (readsBack_nat hid) ?_
    refine bind_required? rfl (readsBack_string name) ?_
    refine bind_required? rfl (readsBack_nat hline) ?_
    refine bind_required? rfl hkind ?_
    refine bind_requiredItems? rfl (fun p _ => readsBack_pair p) ?_
    refine bind_required? rfl hdirectives ?_
    refine bind_required? rfl hchildren ?_
    refine bind_required? rfl (readsBack_bool selfClosing) ?_
    exact bind_missing? rfl (readsBack_optionString indent) rfl

theorem Tag.contentReadsBack : ∀ content : List (Node Tag), Tag.ContentUpTo maxStored content →
    (∀ f ∈ Tag.contentFloats content, Json.Keeps f) → ∀ depth,
      Tag.contentOfDraft? (ofItems depth (Tag.contentToJson content)) =
        given (Json.itemsFit depth (Tag.contentToJson content)) content
  | [], _, _, _ => by rw [Tag.contentToJson, ofItems, Tag.contentOfDraft?]; rfl
  | .text text :: rest, hnumbers, h, depth => by
    have hnode : ReadsBack Tag.nodeOfDraft? (.ofCase "Text" (.string text)) (.text text) := by
      refine readsBack_case @Tag.nodeOfDraft?_of_case?_eq_none (fun d c hd => ?_)
        ((readsBack_string text).map Node.text)
      rw [Tag.nodeOfDraft?]
      split <;> simp_all
    have hrest := Tag.contentReadsBack rest hnumbers h depth
    rw [Tag.contentToJson, ofItems, Tag.contentOfDraft?, hnode depth, hrest, Json.itemsFit]
    cases (Json.ofCase "Text" (.string text)).fits depth <;>
      cases Json.itemsFit depth (Tag.contentToJson rest) <;> rfl
  | .child t :: rest, hnumbers, h, depth => by
    have ht := t.readsBack hnumbers.1 fun f hf => h f (List.mem_append_left _ hf)
    have hnode : ReadsBack Tag.nodeOfDraft? (.ofCase "Tag" t.toJson) (.child t) := by
      refine readsBack_case @Tag.nodeOfDraft?_of_case?_eq_none (fun d c hd => ?_)
        (ht.map Node.child)
      rw [Tag.nodeOfDraft?]
      split <;> simp_all
    have hrest := Tag.contentReadsBack rest hnumbers.2
      (fun f hf => h f (List.mem_append_right _ hf)) depth
    rw [Tag.contentToJson, ofItems, Tag.contentOfDraft?, hnode depth, hrest, Json.itemsFit]
    cases (Json.ofCase "Tag" t.toJson).fits depth <;>
      cases Json.itemsFit depth (Tag.contentToJson rest) <;> rfl

end

-- ---------------------------------------------------------------------------
-- Templates
-- ---------------------------------------------------------------------------

namespace Template

/-- The floats in a template. -/
def floats (t : Template) : List Float := t.root.floats

theorem readsBack (t : Template) (hnumbers : t.root.UpTo maxStored)
    (h : ∀ f ∈ t.floats, Json.Keeps f) : ReadsBack Template.ofDraft? t.toJson t := by
  refine readsBack_record _ rfl (by decide) fun _ => ?_
  refine bind_required? rfl (readsBack_string t.path) ?_
  refine bind_required? rfl (readsBack_string t.lead) ?_
  refine bind_required? rfl (t.root.readsBack hnumbers h) ?_
  exact bind_requiredItems? rfl (fun s _ => readsBack_string s) rfl

end Template

end XmlTemplate
