import XmlTemplate.Proofs.Dictionary.Stored
import XmlTemplate.Proofs.Markup.Opening
import XmlTemplate.Proofs.Render.Interpolation
import XmlTemplate.Proofs.Template.Accepted
import XmlTemplate.Render.Page

/-!
# Plain documents

A document without names of the control namespace and without runs in its attributes is shown as it
is: whatever the data and the language, its page is the document written down again, and nothing
else happens.
-/

namespace XmlTemplate

/-! ## Documents -/

namespace Element

mutual

/-- The element as a page shows it. -/
def page : Element → String
  | ⟨name, attributes, _, selfClosing, children⟩ =>
    let tag := "<" ++ name ++ String.join (attributes.map attributeMarkup)
    let text := contentPage children
    if text == "" && selfClosing then tag ++ " />" else tag ++ ">" ++ text ++ "</" ++ name ++ ">"

/-- Content as a page shows it. -/
def contentPage : List (Node Element) → String
  | [] => ""
  | .text text :: rest => text ++ contentPage rest
  | .child e :: rest => e.page ++ contentPage rest

end

mutual

/-- How many elements lie within each other. -/
def height : Element → Nat
  | ⟨_, _, _, _, children⟩ => contentHeight children + 1

def contentHeight : List (Node Element) → Nat
  | [] => 0
  | .text _ :: rest => contentHeight rest
  | .child e :: rest => max e.height (contentHeight rest)

end

/-- The element has no control meaning: no name starts with the lead, and no value of an attribute
holds an opening brace. -/
structure IsPlain (lead : String) (e : Element) : Prop where
  name : Compile.afterLead? lead e.name = none
  attributes : ∀ q ∈ e.attributes, Compile.afterLead? lead q.1 = none
  values : ∀ q ∈ e.attributes, '\x7b' ∉ q.2.toList

instance (lead : String) (e : Element) : Decidable (e.IsPlain lead) :=
  decidable_of_iff (Compile.afterLead? lead e.name = none ∧
    (∀ q ∈ e.attributes, Compile.afterLead? lead q.1 = none) ∧
    ∀ q ∈ e.attributes, '\x7b' ∉ q.2.toList)
    ⟨fun h => ⟨h.1, h.2.1, h.2.2⟩, fun h => ⟨h.1, h.2, h.3⟩⟩

end Element

/-- The document declares no control namespace, and its elements have no control meaning. -/
structure Document.IsPlain (lead : String) (d : Document) : Prop where
  undeclared : Compile.declaredLead? d.root.attributes = none
  elements : ∀ e ∈ d.root.elements, e.IsPlain lead

instance (lead : String) (d : Document) : Decidable (d.IsPlain lead) :=
  decidable_of_iff (Compile.declaredLead? d.root.attributes = none ∧
    ∀ e ∈ d.root.elements, e.IsPlain lead) ⟨fun h => ⟨h.1, h.2⟩, fun h => ⟨h.1, h.2⟩⟩

/-! ## Compiling -/

namespace Compile

variable {s : Setting} {e : Element}

theorem plainAttributes_of_isPlain (hs : s.declaration = none) (he : e.IsPlain s.lead) :
    plainAttributes s e.attributes = e.attributes := by
  refine List.filter_eq_self.2 fun q hq => ?_
  simp [hs, he.attributes q hq]

theorem controlAttributes_of_isPlain (hs : s.declaration = none) (he : e.IsPlain s.lead) :
    controlAttributes s e.attributes = [] := by
  refine List.filterMap_eq_nil_iff.2 fun q hq => ?_
  simp [hs, he.attributes q hq]

theorem directives_of_isPlain (hs : s.declaration = none) (he : e.IsPlain s.lead) :
    directives s e.line (controlAttributes s e.attributes) = .ok .none := by
  rw [controlAttributes_of_isPlain hs he]
  rfl

theorem kindOf_of_isPlain (hs : s.declaration = none) (he : e.IsPlain s.lead) :
    kindOf s e.line e.name (plainAttributes s e.attributes) = .ok (.element, e.attributes) := by
  rw [plainAttributes_of_isPlain hs he, kindOf, he.name]

theorem accepts_of_isPlain (hs : s.declaration = none) (he : e.IsPlain s.lead) : s.Accepts e :=
  accepts_iff.2 ⟨⟨_, directives_of_isPlain hs he, rfl⟩, _, kindOf_of_isPlain hs he⟩

/-- The tag of a plain element is an element with its name and attributes and without directives. -/
theorem of_element_of_isPlain (hs : s.declaration = none) (he : e.IsPlain s.lead) {id next : Nat}
    {indent : Option String} {t : Tag} (h : element s id indent e = .ok (t, next)) :
    ∃ nodes, content s (id + 1) none e.children = .ok (nodes, next) ∧
      t = ⟨id, e.name, e.line, .element, e.attributes, .none, nodes, e.selfClosing, none⟩ := by
  obtain ⟨name, attributes, line, selfClosing, children⟩ := e
  obtain ⟨d, kind, plain, nodes, hd, hkind, hnodes, -, rfl⟩ := element_eq_ok_iff.1 h
  cases hd.symm.trans (directives_of_isPlain hs he)
  cases hkind.symm.trans (kindOf_of_isPlain hs he)
  exact ⟨nodes, hnodes, rfl⟩

end Compile

/-! ## Rendering -/

/-- The tag is written with the attributes that it has, none of which is read, and none of its
children is taken in. -/
structure Tag.IsPlain (t : Tag) : Prop where
  kind : t.kind = .element
  directives : t.directives = .none
  values : ∀ q ∈ t.attributes, '\x7b' ∉ q.2.toList
  keys : (Table.keys t.attributes).Nodup
  children : ∀ u ∈ t.childTags, u.kind = .element

namespace Render

variable {e : Engine} {inner : Renderer} {view : Nat} {t : Tag}

theorem interpolate_of_notMem (place : Place) {raw : String} (h : '\x7b' ∉ raw.toList) :
    interpolate e place raw = pure raw := by
  have hnone : Run.Finds '\x7b' raw.toList [] raw.toList := by
    refine .last fun before tail inner rest htext hstarts => h ?_
    rw [htext, hstarts.1]
    simp
  rw [interpolate_eq hnone]
  simp [runTexts, Run.fill]

theorem foldlM_addPlain (place : Place) {attributes : List (String × String)} (done : Table String)
    (h : ∀ q ∈ attributes, '\x7b' ∉ q.2.toList) :
    attributes.foldlM (addPlain e place) done =
      pure (attributes.foldl (fun t (key, text) => Table.put key text t) done) := by
  induction attributes generalizing done with
  | nil => rfl
  | cons q attributes ih =>
    obtain ⟨hq, hothers⟩ := List.forall_mem_cons.1 h
    rw [List.foldlM_cons, addPlain, interpolate_of_notMem place hq, pure_bind, pure_bind,
      ih _ hothers]
    rfl

theorem foldlM_addSet {children : List Tag} (done : Table String)
    (h : ∀ u ∈ children, u.kind = .element) :
    children.foldlM (addSet e inner view) done = pure done := by
  induction children with
  | nil => rfl
  | cons child children ih =>
    obtain ⟨hchild, hothers⟩ := List.forall_mem_cons.1 h
    rw [List.foldlM_cons, addSet, hchild, pure_bind, ih hothers]

theorem attributes_of_isPlain (h : t.IsPlain) : attributes e inner view t = pure t.attributes := by
  have hplain := foldlM_addPlain (e := e) (t.place view) [] h.values
  have hpairs : t.attributes.foldl (fun t (key, text) => Table.put key text t) [] = t.attributes :=
    Table.ofPairs_of_nodup h.keys
  rw [attributes, hplain, hpairs, pure_bind, foldlM_addSet _ h.children]

/-- What follows the attributes of a plain element. -/
def plainEnd (name : String) (selfClosing : Bool) (text : String) : String :=
  if text == "" && selfClosing then " />" else ">" ++ text ++ "</" ++ name ++ ">"

theorem flag_none (place : Place) : flag e place none = pure false := rfl

theorem elementEnd_of_isPlain (h : t.IsPlain) (text : String) :
    elementEnd e view t text = pure (plainEnd t.name t.selfClosing text) := by
  have hvoid : t.directives.void = none := by rw [h.directives]; rfl
  have hauto : t.directives.auto = none := by rw [h.directives]; rfl
  rw [elementEnd, emptyEnd, hvoid, hauto, flag_none, pure_bind, plainEnd]
  by_cases htext : text = ""
  · cases t.selfClosing <;> simp [htext]
  · simp [htext]

theorem element_of_isPlain (h : t.IsPlain) : element e inner view t = (do
    let text ← content inner view t
    return opening t.name t.attributes ++ plainEnd t.name t.selfClosing text) := by
  have hbody : body e inner view t = content inner view t := by
    simp [body, h.directives, Directives.none]
  have hmute : t.directives.mute = none := by rw [h.directives]; rfl
  simp only [element, h.kind, hmute, flag_none, pure_bind, attributes_of_isPlain h, hbody,
    elementEnd_of_isPlain h]
  rfl

theorem tagStep_of_isPlain (h : t.IsPlain) :
    tagStep e inner t view .none = (do
      let text ← content inner view t
      return some (opening t.name t.attributes ++ plainEnd t.name t.selfClosing text)) := by
  have hkind : kind e inner view t = element e inner view t := by rw [kind, h.kind]
  simp [tagStep, single, condition, shown, hkind, element_of_isPlain h, h.directives,
    Directives.none, Suppressed.none]

theorem elementPage_eq (u : Element) : u.page =
    opening u.name u.attributes ++
      plainEnd u.name u.selfClosing (Element.contentPage u.children) := by
  obtain ⟨name, attributes, line, selfClosing, children⟩ := u
  have hopening : opening name attributes =
      "<" ++ name ++ String.join (attributes.map Element.attributeMarkup) := rfl
  rw [plainEnd, Element.page, hopening]
  simp only
  split
  · rfl
  · simp only [String.append_assoc]

variable {s : Compile.Setting}

mutual

/-- A plain element is rendered as a page shows it. -/
theorem tag_of_element (hs : s.declaration = none) :
    ∀ {u : Element} {id next : Nat} {indent : Option String} {t : Tag},
    Compile.element s id indent u = .ok (t, next) →
    (∀ v ∈ u.elements, v.IsPlain s.lead ∧ (v.attributes.map Prod.fst).Nodup) →
    t.kind = .element ∧ ∀ depth, u.height ≤ depth → ∀ view,
      tag e depth t view .none = pure (some u.page)
  | ⟨name, attributes, line, selfClosing, children⟩, id, next, indent, t, h, hplain => by
    obtain ⟨⟨hu, hkeys⟩, hothers⟩ := List.forall_mem_cons.1 hplain
    obtain ⟨nodes, hnodes, rfl⟩ := Compile.of_element_of_isPlain hs hu h
    obtain ⟨hkinds, hcontent⟩ := content_of_content hs hnodes hothers
    refine ⟨rfl, fun depth hdepth view => ?_⟩
    cases depth with
    | zero => cases hdepth
    | succ depth =>
      -- the children are one level less deep, and their content is added to none
      have ht :
          Tag.IsPlain ⟨id, name, line, .element, attributes, .none, nodes, selfClosing, none⟩ :=
        ⟨rfl, rfl, hu.values, hkeys, hkinds⟩
      have hinner := hcontent depth (Nat.le_of_succ_le_succ hdepth) view ""
      rw [String.empty_append] at hinner
      rw [tag, tagStep_of_isPlain ht, content, hinner, pure_bind, elementPage_eq]

theorem content_of_content (hs : s.declaration = none) : ∀ {us : List (Node Element)}
    {id next : Nat} {indent : Option String} {nodes : List (Node Tag)},
    Compile.content s id indent us = .ok (nodes, next) →
    (∀ v ∈ Element.contentElements us, v.IsPlain s.lead ∧ (v.attributes.map Prod.fst).Nodup) →
    (∀ t ∈ nodes.filterMap fun | .text _ => none | .child t => some t, t.kind = .element) ∧
      ∀ depth, Element.contentHeight us ≤ depth → ∀ view done,
        nodes.foldlM (addNode (tag e depth) view) done = pure (done ++ Element.contentPage us)
  | [], id, next, indent, nodes, h, hplain => by
    rw [Compile.content] at h
    cases h
    exact ⟨nofun, fun _ _ _ done => by rw [Element.contentPage, String.append_empty]; rfl⟩
  | .text text :: rest, id, next, indent, nodes, h, hplain => by
    rw [Compile.content] at h
    obtain ⟨⟨others, after⟩, hrest, h⟩ := Outcome.of_bind h
    cases h
    obtain ⟨hkinds, hcontent⟩ := content_of_content hs hrest hplain
    refine ⟨hkinds, fun depth hdepth view done => ?_⟩
    rw [List.foldlM_cons, addNode, pure_bind, hcontent depth hdepth, Element.contentPage,
      String.append_assoc]
  | .child u :: rest, id, next, indent, nodes, h, hplain => by
    rw [Compile.content] at h
    obtain ⟨⟨t, middle⟩, helement, h⟩ := Outcome.of_bind h
    obtain ⟨⟨others, after⟩, hrest, h⟩ := Outcome.of_bind h
    cases h
    obtain ⟨hu, hothers⟩ := List.forall_mem_append.1 hplain
    obtain ⟨hkind, htag⟩ := tag_of_element hs helement hu
    obtain ⟨hkinds, hcontent⟩ := content_of_content hs hrest hothers
    refine ⟨List.forall_mem_cons.2 ⟨hkind, hkinds⟩, fun depth hdepth view done => ?_⟩
    obtain ⟨hheight, hheights⟩ := Nat.max_le.1 hdepth
    have hchild : addNode (tag e depth) view done (.child t) = pure (done ++ u.page) := by
      simp [addNode, hkind, TagKind.belongsToParent, htag depth hheight]
    rw [List.foldlM_cons, hchild, pure_bind, hcontent depth hheights, Element.contentPage,
      String.append_assoc]

end

/-- The page of a template whose root comes to a text and leaves the session as it is. -/
theorem page_of_tag {depth : Nat} (template : Template) {text : String}
    (h : tag e depth template.root 0 .none = pure (some text)) {s : Session}
    (hslots : s.slots = []) (m : Memory) :
    page e depth template s m =
      (.ok (String.join (template.instructions.map (· ++ "\n")) ++ text,
        s.addView template none), m) := by
  have hsplice : Slot.splice s.slots s.plugs text = text := by
    rw [hslots]
    exact String.ofList_toList
  have hpage : page e depth template s m =
      (.ok (String.join (template.instructions.map (· ++ "\n")) ++
        Slot.splice s.slots s.plugs text, s.addView template none), m) := by
    simp only [page, h, pure_bind]
    rfl
  rw [hpage, hsplice]

end Render

namespace Engine

/-- A plain document is shown as it is. Its template is compiled, and rendering it within enough
depth gives, without a warning and whatever the data and the language, the instructions, each on a
line of its own, and then the document written down again. -/
theorem renderWithin_plain (e : Engine) (path : String) {text : String} {document : Document}
    (hread : Document.read text = .ok document) (hplain : document.IsPlain e.lead) :
    ∃ template, e.compile path text = .ok template ∧
      ∀ depth, document.root.height ≤ depth → ∀ data language m,
        e.renderWithin depth template data language m =
          (.ok ⟨String.join (document.instructions.map (· ++ "\n")) ++
            document.root.page, []⟩, m) := by
  let s : Compile.Setting := ⟨path, e.lead, none⟩
  have haccepts : ∀ u ∈ document.root.elements, s.Accepts u := by
    intro u hu
    exact Compile.accepts_of_isPlain rfl (hplain.elements u hu)
  obtain ⟨⟨root, next⟩, hroot⟩ := (Compile.exists_element_iff document.root 0 none).2 haccepts
  have hcompile : e.compile path text = .ok ⟨path, e.lead, root, document.instructions⟩ := by
    rw [compile, Template.compile, hread]
    simp only [Template.ofDocument_eq hplain.undeclared]
    exact congrArg (· >>= _) hroot
  have hnodup := Document.nodup_of_read hread
  obtain ⟨-, htag⟩ := Render.tag_of_element (e := e) rfl hroot fun u hu =>
    ⟨hplain.elements u hu, hnodup u hu⟩
  refine ⟨_, hcompile, fun depth hdepth data language m => ?_⟩
  have hpage := Render.page_of_tag ⟨path, e.lead, root, document.instructions⟩
    (htag depth hdepth 0) (s := .start data (language.or e.language)) rfl m
  simp only [renderWithin, StateT.run, hpage]
  rfl

/-- A page with quotes in an attribute, a reference and a run in its text, and two ways to write an
element without content. -/
def plainText : String := "<?a b?><p class='x \"y\"'>t &amp; \x7bu\x7d<br/><i></i></p>"

theorem renderWithin_plain_plainText :
    ∃ document template, Document.read plainText = .ok document ∧ document.IsPlain "fig:" ∧
      Engine.default.compile "page.xml" plainText = .ok template ∧
      ∀ data language m, Engine.default.renderWithin 2 template data language m =
        (.ok ⟨"<?a b?>\n<p class=\"x \"y\"\">t &amp; \x7bu\x7d<br /><i></i></p>", []⟩, m) := by
  have htests : (Document.read plainText).toOption.any fun document =>
      decide (document.IsPlain "fig:") && decide (document.root.height ≤ 2) &&
        String.join (document.instructions.map (· ++ "\n")) ++ document.root.page ==
          "<?a b?>\n<p class=\"x \"y\"\">t &amp; \x7bu\x7d<br /><i></i></p>" := by
    decide +kernel
  obtain ⟨document, hread, htests⟩ := Outcome.exists_of_any htests
  simp only [Bool.and_eq_true, decide_eq_true_iff, beq_iff_eq] at htests
  obtain ⟨⟨hplain, hheight⟩, hpage⟩ := htests
  obtain ⟨template, hcompile, hrender⟩ :=
    renderWithin_plain .default "page.xml" hread hplain
  refine ⟨document, template, hread, hplain, hcompile, fun data language m => ?_⟩
  rw [hrender 2 hheight, hpage]

end Engine

end XmlTemplate
