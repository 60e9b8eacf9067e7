import XmlTemplate.Proofs.Outcome
import XmlTemplate.Proofs.Render.Pair
import XmlTemplate.Proofs.Template.Tree

/-!
# Templates that are written alike

Elements match if they are written alike apart from their lines, down to elements that are related
in some other way. What they are compiled to then matches too: whether an element compiles does not
depend on the line and the template where it stands, and its number shows nowhere else.
-/

namespace XmlTemplate

-- ---------------------------------------------------------------------------
-- Elements and tags
-- ---------------------------------------------------------------------------

mutual

/-- The elements are related by `S`, or are written alike with children that match. -/
def Element.Matches (S : Element → Element → Prop) : Element → Element → Prop
  | ⟨name, attributes, line, selfClosing, children⟩, e' =>
    S ⟨name, attributes, line, selfClosing, children⟩ e' ∨
      e'.name = name ∧ e'.attributes = attributes ∧ e'.selfClosing = selfClosing ∧
        Element.ContentMatches S children e'.children

def Element.ContentMatches (S : Element → Element → Prop) :
    List (Node Element) → List (Node Element) → Prop
  | [], content => content = []
  | .text text :: rest, content => ∃ rest', content = .text text :: rest' ∧
      Element.ContentMatches S rest rest'
  | .child e :: rest, content => ∃ e' rest', content = .child e' :: rest' ∧ e.Matches S e' ∧
      Element.ContentMatches S rest rest'

end

/-- The same element, on whatever lines. -/
def Element.IsCopy : Element → Element → Prop := Element.Matches fun _ _ => False

mutual

/-- The tags are related by `S`, or are written alike with children that match. -/
def Tag.Matches (S : Tag → Tag → Prop) : Tag → Tag → Prop
  | ⟨id, name, line, kind, attributes, directives, children, selfClosing, indent⟩, t' =>
    S ⟨id, name, line, kind, attributes, directives, children, selfClosing, indent⟩ t' ∨
      t'.name = name ∧ t'.kind = kind ∧ t'.attributes = attributes ∧ t'.directives = directives ∧
        t'.selfClosing = selfClosing ∧ t'.indent = indent ∧
          Tag.ContentMatches S children t'.children

def Tag.ContentMatches (S : Tag → Tag → Prop) : List (Node Tag) → List (Node Tag) → Prop
  | [], content => content = []
  | .text text :: rest, content => ∃ rest', content = .text text :: rest' ∧
      Tag.ContentMatches S rest rest'
  | .child t :: rest, content => ∃ t' rest', content = .child t' :: rest' ∧ t.Matches S t' ∧
      Tag.ContentMatches S rest rest'

end

/-- The same tag, whatever its numbers and lines. -/
def Tag.IsCopy : Tag → Tag → Prop := Tag.Matches fun _ _ => False

theorem Element.Matches.attributes {S : Element → Element → Prop} {e e' : Element}
    (h : e.Matches S e') : S e e' ∨ e'.attributes = e.attributes := by
  obtain ⟨⟩ := e
  exact h.imp_right fun hsame => hsame.2.1

/-! ## Matching is decided -/

section

variable {S : Element → Element → Prop}

theorem Element.contentMatches_nil_iff {content : List (Node Element)} :
    ContentMatches S [] content ↔ content.isEmpty := by
  rw [ContentMatches, List.isEmpty_iff]

theorem Element.contentMatches_text_iff {text text' : String} {rest rest' : List (Node Element)} :
    ContentMatches S (.text text :: rest) (.text text' :: rest') ↔
      text' = text ∧ ContentMatches S rest rest' := by
  simp only [ContentMatches, List.cons.injEq, Node.text.injEq, and_assoc]
  exact ⟨fun ⟨_, htext, hrest, h⟩ => ⟨htext, hrest ▸ h⟩, fun ⟨htext, h⟩ => ⟨rest', htext, rfl, h⟩⟩

theorem Element.contentMatches_child_iff {e e' : Element} {rest rest' : List (Node Element)} :
    ContentMatches S (.child e :: rest) (.child e' :: rest') ↔
      e.Matches S e' ∧ ContentMatches S rest rest' := by
  simp only [ContentMatches, List.cons.injEq, Node.child.injEq, and_assoc]
  exact ⟨fun ⟨_, _, he, hrest, h, k⟩ => ⟨he ▸ h, hrest ▸ k⟩,
    fun ⟨h, k⟩ => ⟨e', rest', rfl, rfl, h, k⟩⟩

mutual

instance Element.decidableMatches [∀ e e', Decidable (S e e')] :
    ∀ e e' : Element, Decidable (e.Matches S e')
  | ⟨name, attributes, line, selfClosing, children⟩, e' =>
    have := Element.decidableContentMatches children e'.children
    inferInstanceAs (Decidable (S ⟨name, attributes, line, selfClosing, children⟩ e' ∨
      e'.name = name ∧ e'.attributes = attributes ∧ e'.selfClosing = selfClosing ∧
        Element.ContentMatches S children e'.children))

instance Element.decidableContentMatches [∀ e e', Decidable (S e e')] :
    ∀ content content' : List (Node Element), Decidable (Element.ContentMatches S content content')
  | [], content => decidable_of_iff _ Element.contentMatches_nil_iff.symm
  | .text _ :: _, [] | .child _ :: _, [] => isFalse (by simp [Element.ContentMatches])
  | .text _ :: _, .child _ :: _ | .child _ :: _, .text _ :: _ =>
    isFalse (by simp [Element.ContentMatches])
  | .text _ :: rest, .text _ :: rest' =>
    have := Element.decidableContentMatches rest rest'
    decidable_of_iff _ Element.contentMatches_text_iff.symm
  | .child e :: rest, .child e' :: rest' =>
    have := Element.decidableMatches e e'
    have := Element.decidableContentMatches rest rest'
    decidable_of_iff _ Element.contentMatches_child_iff.symm

end

end

namespace Tag

variable {S : Tag → Tag → Prop} {t t' : Tag}

theorem contentMatches_iff {content content' : List (Node Tag)} :
    ContentMatches S content content' ↔
      List.Forall₂ (Node.Alike (Matches S)) content content' := by
  induction content generalizing content' with
  | nil => rw [ContentMatches, List.forall₂_nil_left_iff]
  | cons node rest ih =>
    rw [List.forall₂_cons_left_iff]
    cases node with
    | text text =>
      constructor
      · rintro ⟨rest', rfl, hrest⟩
        exact ⟨_, _, .text text, ih.1 hrest, rfl⟩
      · rintro ⟨_, rest', ⟨⟩, hrest, rfl⟩
        exact ⟨rest', rfl, ih.2 hrest⟩
    | child t =>
      constructor
      · rintro ⟨t', rest', rfl, ht, hrest⟩
        exact ⟨_, _, .child ht, ih.1 hrest, rfl⟩
      · rintro ⟨_, rest', hnode, hrest, rfl⟩
        cases hnode with
        | child ht => exact ⟨_, rest', rfl, ht, ih.2 hrest⟩

/-- Tags that match are related, or written alike. -/
theorem matches_iff : t.Matches S t' ↔ S t t' ∨ t.Alike (fun _ _ => True) (Matches S) t' := by
  obtain ⟨⟩ := t
  rw [Matches, contentMatches_iff]
  refine or_congr_right ⟨?_, ?_⟩
  · rintro ⟨hname, hkind, hattributes, hdirectives, hselfClosing, hindent, hchildren⟩
    exact ⟨hname, trivial, hkind, hattributes, hdirectives, hselfClosing, hindent, hchildren⟩
  · rintro ⟨hname, -, hkind, hattributes, hdirectives, hselfClosing, hindent, hchildren⟩
    exact ⟨hname, hkind, hattributes, hdirectives, hselfClosing, hindent, hchildren⟩

theorem matches_self (t : Tag) : t.Matches S t := by
  induction t using Tag.induction with
  | h t ih => exact matches_iff.2 (.inr (.self t trivial ih))

mutual

theorem Matches.mono {S S' : Tag → Tag → Prop} (hS : ∀ t t', S t t' → S' t t') :
    ∀ {t t' : Tag}, t.Matches S t' → t.Matches S' t'
  | ⟨_, _, _, _, _, _, _, _, _⟩, _, h =>
    h.imp (hS _ _) fun ⟨hname, hkind, hattributes, hdirectives, hselfClosing, hindent, hchildren⟩ =>
      ⟨hname, hkind, hattributes, hdirectives, hselfClosing, hindent,
        ContentMatches.mono hS hchildren⟩

theorem ContentMatches.mono {S S' : Tag → Tag → Prop} (hS : ∀ t t', S t t' → S' t t') :
    ∀ {content content' : List (Node Tag)}, ContentMatches S content content' →
      ContentMatches S' content content'
  | [], _, h => h
  | .text _ :: _, _, ⟨rest', heq, hrest⟩ => ⟨rest', heq, ContentMatches.mono hS hrest⟩
  | .child _ :: _, _, ⟨t', rest', heq, ht, hrest⟩ =>
    ⟨t', rest', heq, ht.mono hS, ContentMatches.mono hS hrest⟩

end

/-- A copy matches, whatever else matches. -/
theorem IsCopy.matches (h : t.IsCopy t') : t.Matches S t' := h.mono fun _ _ => False.elim

theorem isCopy_iff : t.IsCopy t' ↔ t.Alike (fun _ _ => True) IsCopy t' :=
  matches_iff.trans (or_iff_right False.elim)

end Tag

-- ---------------------------------------------------------------------------
-- Compiling
-- ---------------------------------------------------------------------------

namespace Compile

variable (s s' : Setting)

theorem toOption_directive (line line' : Nat) (source : String) :
    (directive s line source).toOption = (directive s' line' source).toOption := by
  unfold directive
  cases Expr.parse source <;> rfl

theorem toOption_directives (line line' : Nat) (control : List (String × String)) :
    (directives s line control).toOption = (directives s' line' control).toOption := by
  have hadd (d : Directives) (p : String × String) :
      (addDirective s line d p).toOption = (addDirective s' line' d p).toOption := by
    unfold addDirective
    split <;> simp only [Outcome.toOption_bind, toOption_directive s s' line line']
  suffices hfold : ∀ d, (control.foldlM (addDirective s line) d).toOption =
      (control.foldlM (addDirective s' line') d).toOption from hfold .none
  induction control with
  | nil => exact fun _ => rfl
  | cons p rest ih =>
    intro d
    simp only [List.foldlM_cons, Outcome.toOption_bind, hadd, ih]

theorem toOption_kindOf (hlead : s'.lead = s.lead) (line line' : Nat) (tag : String)
    (attributes : List (String × String)) :
    (kindOf s line tag attributes).toOption = (kindOf s' line' tag attributes).toOption := by
  have hrequired (name : String) (value : Option String) :
      (required s line tag name value).toOption = (required s' line' tag name value).toOption := by
    cases value <;> rfl
  have hoptional (value : Option String) :
      (optional s line value).toOption = (optional s' line' value).toOption := by
    cases value with
    | none => rfl
    | some source =>
      simp only [optional, Outcome.toOption_bind, toOption_directive s s' line line']
  unfold kindOf
  rw [hlead]
  split
  · unfold controlKind
    split <;> simp only [Outcome.toOption_bind, hrequired, hoptional]
  · rfl

variable {s s'} {id next : Nat} {indent : Option String} {t : Tag}

theorem element_eq_ok_iff {name : String} {attributes : List (String × String)} {line : Nat}
    {selfClosing : Bool} {children : List (Node Element)} :
    element s id indent ⟨name, attributes, line, selfClosing, children⟩ = .ok (t, next) ↔
      ∃ d kind plain nodes, directives s line (controlAttributes s attributes) = .ok d ∧
        kindOf s line name (plainAttributes s attributes) = .ok (kind, plain) ∧
        content s (id + 1) none children = .ok (nodes, next) ∧ conflict? d = none ∧
        t = ⟨id, name, line, kind, plain, d, nodes, selfClosing,
          if d.walk.isSome then indent else none⟩ := by
  rw [element]
  constructor
  · intro h
    obtain ⟨d, hd, h⟩ := Outcome.of_bind h
    obtain ⟨⟨kind, plain⟩, hkind, h⟩ := Outcome.of_bind h
    obtain ⟨⟨nodes, after⟩, hnodes, h⟩ := Outcome.of_bind h
    simp only at h
    split at h
    · cases h
    · rename_i hconflict
      cases h
      exact ⟨d, kind, plain, nodes, hd, hkind, hnodes, hconflict, rfl⟩
  · rintro ⟨d, kind, plain, nodes, hd, hkind, hnodes, hconflict, rfl⟩
    rw [hd, hkind, hnodes]
    simp only [bind, Except.bind, hconflict]
    rfl

/-- The blanks before an element show only if it is walked. -/
theorem element_of_walk_eq_none {e : Element} (h : element s id indent e = .ok (t, next))
    (hwalk : t.directives.walk = none) (indent' : Option String) :
    element s id indent' e = .ok (t, next) := by
  obtain ⟨name, attributes, line, selfClosing, children⟩ := e
  obtain ⟨d, kind, plain, nodes, hd, hkind, hnodes, hconflict, rfl⟩ := element_eq_ok_iff.1 h
  refine element_eq_ok_iff.2 ⟨d, kind, plain, nodes, hd, hkind, hnodes, hconflict, ?_⟩
  simp only at hwalk
  simp [hwalk]

/-- Two settings under which elements are compiled alike, and those related by `S` to tags related
by `R`. -/
structure Agree (s s' : Setting) (S : Element → Element → Prop) (R : Tag → Tag → Prop) : Prop where
  lead : s'.lead = s.lead
  declaration : s'.declaration = s.declaration
  related {e e' : Element} {id next : Nat} {indent : Option String} {t : Tag} : S e e' →
    element s id indent e = .ok (t, next) →
      ∀ id', ∃ t' next', element s' id' indent e' = .ok (t', next') ∧ R t t'

mutual

/-- What an element is compiled to matches what a matching element is compiled to. -/
theorem exists_element_of_matches {S : Element → Element → Prop} {R : Tag → Tag → Prop}
    (hagree : Agree s s' S R) : ∀ {e e' : Element}, e.Matches S e' →
    ∀ {id next : Nat} {indent : Option String} {t : Tag}, element s id indent e = .ok (t, next) →
      ∀ id', ∃ t' next', element s' id' indent e' = .ok (t', next') ∧ t.Matches R t'
  | ⟨name, attributes, line, selfClosing, children⟩,
    ⟨name', attributes', line', selfClosing', children'⟩, h, id, next, indent, t, ht, id' => by
    rcases h with h | ⟨rfl, rfl, rfl, hchildren⟩
    · obtain ⟨t', next', ht', hR⟩ := hagree.related h ht id'
      exact ⟨t', next', ht', Tag.matches_iff.2 (.inl hR)⟩
    · obtain ⟨d, kind, plain, nodes, hd, hkind, hnodes, hconflict, rfl⟩ := element_eq_ok_iff.1 ht
      obtain ⟨nodes', next', hnodes', hmatches⟩ :=
        exists_content_of_matches hagree hchildren hnodes (id' + 1)
      have hd' : directives s' line' (controlAttributes s' attributes') = .ok d := by
        apply Outcome.of_toOption
        unfold controlAttributes at hd ⊢
        rw [← toOption_directives s s' line line', hagree.lead, hagree.declaration, hd]
        rfl
      have hkind' : kindOf s' line' name' (plainAttributes s' attributes') = .ok (kind, plain) := by
        apply Outcome.of_toOption
        unfold plainAttributes at hkind ⊢
        rw [← toOption_kindOf s s' hagree.lead line line', hagree.lead, hagree.declaration, hkind]
        rfl
      refine ⟨_, next',
        element_eq_ok_iff.2 ⟨d, kind, plain, nodes', hd', hkind', hnodes', hconflict, rfl⟩, ?_⟩
      exact .inr ⟨rfl, rfl, rfl, rfl, rfl, rfl, hmatches⟩

theorem exists_content_of_matches {S : Element → Element → Prop} {R : Tag → Tag → Prop}
    (hagree : Agree s s' S R) : ∀ {es es' : List (Node Element)}, Element.ContentMatches S es es' →
    ∀ {id next : Nat} {indent : Option String} {ts : List (Node Tag)},
      content s id indent es = .ok (ts, next) →
        ∀ id', ∃ ts' next', content s' id' indent es' = .ok (ts', next') ∧
          Tag.ContentMatches R ts ts'
  | [], es', h, id, next, indent, ts, hts, id' => by
    cases h
    cases hts
    exact ⟨[], id', rfl, rfl⟩
  | .text text :: rest, es', ⟨rest', heq, hrest⟩, id, next, indent, ts, hts, id' => by
    subst heq
    rw [content] at hts
    obtain ⟨⟨others, after⟩, hothers, hts⟩ := Outcome.of_bind hts
    cases hts
    obtain ⟨others', next', hothers', hmatches⟩ :=
      exists_content_of_matches hagree hrest hothers id'
    refine ⟨.text text :: others', next', ?_, others', rfl, hmatches⟩
    rw [content, hothers']
    rfl
  | .child e :: rest, es', ⟨e', rest', heq, he, hrest⟩, id, next, indent, ts, hts, id' => by
    subst heq
    rw [content] at hts
    obtain ⟨⟨t, middle⟩, ht, hts⟩ := Outcome.of_bind hts
    obtain ⟨⟨others, after⟩, hothers, hts⟩ := Outcome.of_bind hts
    cases hts
    obtain ⟨t', middle', ht', htmatches⟩ := exists_element_of_matches hagree he ht id'
    obtain ⟨others', next', hothers', hmatches⟩ :=
      exists_content_of_matches hagree hrest hothers middle'
    refine ⟨.child t' :: others', next', ?_, t', others', rfl, htmatches, hmatches⟩
    rw [content, ht']
    change (do
      let (others, next) ← content s' middle' none rest'
      return (Node.child t' :: others, next) : Except Fault _) = _
    rw [hothers']
    rfl

end

/-- A copy of an element is compiled to a copy. -/
theorem exists_element_of_isCopy (s' : Setting) {e e' : Element} (h : e.IsCopy e')
    (ht : element s id indent e = .ok (t, next)) (hlead : s'.lead = s.lead)
    (hdeclaration : s'.declaration = s.declaration) (id' : Nat) :
    ∃ t' next', element s' id' indent e' = .ok (t', next') ∧ t.IsCopy t' :=
  exists_element_of_matches ⟨hlead, hdeclaration, False.elim⟩ h ht id'

end Compile

-- ---------------------------------------------------------------------------
-- Inclusions
-- ---------------------------------------------------------------------------

/-- The element includes the template at a path into the one at another path, and has no control
attributes. -/
structure Element.IsInclusion (lead path included : String) (e : Element) : Prop where
  name : e.name = lead ++ "include"
  plain : ∀ p ∈ e.attributes, Compile.afterLead? lead p.1 = none
  file : ∃ raw, e.attribute? "file" = some raw ∧
    Path.resolve path (Text.unescape raw) = included

theorem Element.isInclusion_iff {lead path included : String} {e : Element} :
    e.IsInclusion lead path included ↔ e.name = lead ++ "include" ∧
      (∀ p ∈ e.attributes, Compile.afterLead? lead p.1 = none) ∧
        ((e.attribute? "file").map fun raw => Path.resolve path (Text.unescape raw)) =
          some included := by
  rw [Option.map_eq_some_iff]
  exact ⟨fun h => ⟨h.name, h.plain, h.file⟩, fun ⟨hname, hplain, hfile⟩ => ⟨hname, hplain, hfile⟩⟩

instance (lead path included : String) (e : Element) :
    Decidable (e.IsInclusion lead path included) :=
  decidable_of_iff _ Element.isInclusion_iff.symm

/-- The same for a tag. -/
def Tag.IsInclusion (path included : String) (t : Tag) : Prop :=
  t.directives = .none ∧ ∃ file, t.kind = .inclusion file ∧ Path.resolve path file = included

theorem Compile.isInclusion_of_element {s : Setting} {included : String} {e : Element}
    (h : e.IsInclusion s.lead s.path included) (hdeclaration : s.declaration = none) {id next : Nat}
    {indent : Option String} {t : Tag} (ht : element s id indent e = .ok (t, next)) :
    t.IsInclusion s.path included := by
  obtain ⟨name, attributes, line, selfClosing, children⟩ := e
  obtain ⟨d, kind, plain, nodes, hd, hkind, -, -, rfl⟩ := element_eq_ok_iff.1 ht
  obtain ⟨raw, hraw, hpath⟩ := h.file
  have hcontrol : controlAttributes s attributes = [] := by
    refine List.filterMap_eq_nil_iff.2 fun p hp => ?_
    simp [hdeclaration, h.plain p hp]
  have hplain : plainAttributes s attributes = attributes := by
    refine List.filter_eq_self.2 fun p hp => ?_
    simp [hdeclaration, h.plain p hp]
  have hsuffix : afterLead? s.lead name = some "include" := by
    obtain rfl := h.name
    rw [afterLead?, String.toList_append, Text.after?_eq_some_iff.2 rfl]
    rfl
  rw [hcontrol] at hd
  cases hd
  have hfile : (take "file" attributes).1 = some (Text.unescape raw) := by
    rw [take, show attributes.lookup "file" = some raw from hraw]
    rfl
  rw [hplain, kindOf, hsuffix] at hkind
  simp only [controlKind, hfile, required] at hkind
  cases hkind
  exact ⟨rfl, _, rfl, hpath⟩

/-- The pages are written alike, but for inclusions of a part in the one page that are its root
element in the other page. -/
structure Document.Inlines (lead path included : String) (part page page' : Document) : Prop where
  root : page.root.Matches (fun e e' => e.IsInclusion lead path included ∧ part.root.IsCopy e')
    page'.root
  instructions : page'.instructions = page.instructions

theorem Document.inlines_iff {lead path included : String} {part page page' : Document} :
    Document.Inlines lead path included part page page' ↔
      page.root.Matches (fun e e' => e.IsInclusion lead path included ∧
        part.root.Matches (fun _ _ => False) e') page'.root ∧
          page'.instructions = page.instructions :=
  ⟨fun h => ⟨h.root, h.instructions⟩, fun h => ⟨h.1, h.2⟩⟩

instance (lead path included : String) (part page page' : Document) :
    Decidable (Document.Inlines lead path included part page page') :=
  decidable_of_iff _ Document.inlines_iff.symm

/-- The tags are written alike, but for inclusions of a part in the one tag that are its root tag in
the other tag. -/
def Tag.Inlines (path : String) (part : Template) : Tag → Tag → Prop :=
  Tag.Matches fun t t' => t.IsInclusion path part.path ∧ part.root.IsCopy t'

namespace Template

theorem compile_eq_ok_iff {path lead text : String} {document : Document} {t : Template}
    (hread : Document.read text = .ok document)
    (hdeclared : Compile.declaredLead? document.root.attributes = none) :
    compile path lead text = .ok t ↔
      ∃ root next, Compile.element ⟨path, lead, none⟩ 0 none document.root = .ok (root, next) ∧
        t = ⟨path, lead, root, document.instructions⟩ := by
  rw [compile, hread]
  simp only [ofDocument, hdeclared, Option.getD_none, Option.map_none]
  constructor
  · intro h
    obtain ⟨⟨root, next⟩, hroot, h⟩ := Outcome.of_bind h
    cases h
    exact ⟨root, next, hroot, rfl⟩
  · rintro ⟨root, next, hroot, rfl⟩
    rw [hroot]
    rfl

/-- With a part, a page compiles with its root element in place of inclusions. -/
theorem exists_compile_of_inlines {path included lead text text' partText : String}
    {document document' partDocument : Document} {page part : Template}
    (hread : Document.read text = .ok document) (hread' : Document.read text' = .ok document')
    (hpartRead : Document.read partText = .ok partDocument)
    (hdeclared : Compile.declaredLead? document.root.attributes = none)
    (hpartDeclared : Compile.declaredLead? partDocument.root.attributes = none)
    (hinlines : Document.Inlines lead path included partDocument document document')
    (hpage : compile path lead text = .ok page) (hpart : compile included lead partText = .ok part)
    (hwalk : part.root.directives.walk = none) :
    ∃ page', compile path lead text' = .ok page' ∧ page.root.Inlines path part page'.root ∧
      page'.instructions = page.instructions := by
  obtain ⟨root, next, hroot, rfl⟩ := (compile_eq_ok_iff hread hdeclared).1 hpage
  obtain ⟨partRoot, after, hpartRoot, rfl⟩ := (compile_eq_ok_iff hpartRead hpartDeclared).1 hpart
  have hdeclared' : Compile.declaredLead? document'.root.attributes = none := by
    rcases hinlines.root.attributes with ⟨-, hcopy⟩ | hsame
    · exact (hcopy.attributes.resolve_left id).symm ▸ hpartDeclared
    · rwa [hsame]
  have hagree : Compile.Agree ⟨path, lead, none⟩ ⟨path, lead, none⟩
      (fun e e' => e.IsInclusion lead path included ∧ partDocument.root.IsCopy e')
      (fun t t' => t.IsInclusion path included ∧ partRoot.IsCopy t') :=
    { lead := rfl
      declaration := rfl
      related := fun {e e' id next indent t} hrelated ht id' => by
        obtain ⟨hinclusion, hcopy⟩ := hrelated
        obtain ⟨t', next', ht', hmatches⟩ : ∃ t' next',
            Compile.element ⟨path, lead, none⟩ id' indent e' = .ok (t', next') ∧
              partRoot.IsCopy t' :=
          Compile.exists_element_of_isCopy ⟨path, lead, none⟩ hcopy
            (Compile.element_of_walk_eq_none hpartRoot hwalk indent) rfl rfl id'
        exact ⟨t', next', ht', Compile.isInclusion_of_element hinclusion rfl ht, hmatches⟩ }
  obtain ⟨root', next', hroot', hmatches⟩ :=
    Compile.exists_element_of_matches hagree hinlines.root hroot 0
  exact ⟨_, (compile_eq_ok_iff hread' hdeclared').2 ⟨root', next', hroot', rfl⟩, hmatches,
    hinlines.instructions⟩

end Template

end XmlTemplate
