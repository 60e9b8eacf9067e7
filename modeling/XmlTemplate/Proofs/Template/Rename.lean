import Mathlib.Data.List.Basic
import XmlTemplate.Proofs.Template.Names
import XmlTemplate.Template.Compile

/-!
# Other prefixes of the control namespace

A document may declare a prefix of its own for the control namespace. It is then compiled as the
document that uses the lead of the engine is compiled instead: the templates differ only in names
that are not written, and the faults only in the names of tags. All that reads names looks at what
follows the lead, and the declaration is left out.
-/

namespace XmlTemplate

/-- The fault without the name of the tag where it shows. -/
def Fault.withoutTag : Fault → Fault
  | conflict location _ pair => conflict location "" pair
  | missingAttribute location _ key => missingAttribute location "" key
  | fault => fault

/-- A prefix that the control namespace can be declared for: no colon at its end is taken for the
one behind it, and no name with the prefix is a declaration itself. -/
structure IsPrefix (p : String) : Prop where
  noColon : p.toList.getLast? ≠ some ':'
  notReserved : Compile.afterLead? "xmlns:" (p ++ ":") = none

instance (p : String) : Decidable (IsPrefix p) :=
  decidable_of_iff (p.toList.getLast? ≠ some ':' ∧ Compile.afterLead? "xmlns:" (p ++ ":") = none)
    ⟨fun h => ⟨h.1, h.2⟩, fun h => ⟨h.1, h.2⟩⟩

-- ---------------------------------------------------------------------------
-- Documents
-- ---------------------------------------------------------------------------

namespace Element

mutual

/-- An element and all elements in it. -/
def elements : Element → List Element
  | ⟨name, attributes, line, selfClosing, children⟩ =>
    ⟨name, attributes, line, selfClosing, children⟩ :: contentElements children

/-- All elements in some content. -/
def contentElements : List (Node Element) → List Element
  | [] => []
  | .text _ :: rest => contentElements rest
  | .child e :: rest => e.elements ++ contentElements rest

end

/-- The name with another lead, if it starts with the first one. -/
def relead (lead other name : String) : String :=
  match Compile.afterLead? lead name with
  | some rest => other ++ rest
  | none => name

/-- Attributes with another lead. -/
def releadAll (lead other : String) (attributes : List (String × String)) :
    List (String × String) :=
  attributes.map fun (key, value) => (relead lead other key, value)

mutual

/-- The element with another lead of its name, its attributes and all elements in it. -/
def releaded (lead other : String) : Element → Element
  | ⟨name, attributes, line, selfClosing, children⟩ =>
    ⟨relead lead other name, releadAll lead other attributes, line, selfClosing,
      contentReleaded lead other children⟩

/-- Content with another lead. -/
def contentReleaded (lead other : String) : List (Node Element) → List (Node Element)
  | [] => []
  | .text text :: rest => .text text :: contentReleaded lead other rest
  | .child e :: rest => .child (e.releaded lead other) :: contentReleaded lead other rest

end

/-- No name starts with the prefix, and the element does not declare it. -/
structure LeavesFree (p : String) (e : Element) : Prop where
  name : Compile.afterLead? (p ++ ":") e.name = none
  attributes : ∀ q ∈ e.attributes, Compile.afterLead? (p ++ ":") q.1 = none ∧ q.1 ≠ "xmlns:" ++ p

instance (p : String) (e : Element) : Decidable (e.LeavesFree p) :=
  decidable_of_iff (Compile.afterLead? (p ++ ":") e.name = none ∧ ∀ q ∈ e.attributes,
    Compile.afterLead? (p ++ ":") q.1 = none ∧ q.1 ≠ "xmlns:" ++ p)
    ⟨fun h => ⟨h.1, h.2⟩, fun h => ⟨h.1, h.2⟩⟩

end Element

namespace Document

/-- The declaration of the prefix for the control namespace. -/
def declaration (p : String) : String × String := ("xmlns:" ++ p, "http://www.figdice.org/")

/-- The document with the prefix in place of the lead, declared among the attributes of the root
behind the first `n`. -/
def withPrefix (lead p : String) (n : Nat) (d : Document) : Document :=
  let root := d.root.releaded lead (p ++ ":")
  let attributes := root.attributes.take n ++ declaration p :: root.attributes.drop n
  { d with root := { root with attributes := attributes } }

/-- The document declares no prefix for the control namespace and does not use this one. -/
structure LeavesFree (p : String) (d : Document) : Prop where
  undeclared : Compile.declaredLead? d.root.attributes = none
  elements : ∀ e ∈ d.root.elements, e.LeavesFree p

instance (p : String) (d : Document) : Decidable (d.LeavesFree p) :=
  decidable_of_iff (Compile.declaredLead? d.root.attributes = none ∧
    ∀ e ∈ d.root.elements, e.LeavesFree p)
    ⟨fun h => ⟨h.1, h.2⟩, fun h => ⟨h.1, h.2⟩⟩

end Document

-- ---------------------------------------------------------------------------
-- Outcomes
-- ---------------------------------------------------------------------------

namespace Compile

/-- Both have results that correspond, or faults that differ at most in the name of a tag. -/
inductive Likewise {α β : Type} (R : α → β → Prop) : Except Fault α → Except Fault β → Prop
  | ok {a : α} {b : β} (h : R a b) : Likewise R (.ok a) (.ok b)
  | error {f f' : Fault} (h : f'.withoutTag = f.withoutTag) : Likewise R (.error f) (.error f')

theorem Likewise.refl {α : Type} (x : Except Fault α) : Likewise Eq x x := by
  cases x with
  | error f => exact .error rfl
  | ok a => exact .ok rfl

theorem Likewise.mono {α β : Type} {R S : α → β → Prop} {x : Except Fault α} {y : Except Fault β}
    (h : Likewise R x y) (hRS : ∀ a b, R a b → S a b) : Likewise S x y := by
  cases h with
  | ok h => exact .ok (hRS _ _ h)
  | error h => exact .error h

theorem Likewise.bind {α β γ δ : Type} {R : α → β → Prop} {S : γ → δ → Prop} {x : Except Fault α}
    {y : Except Fault β} {f : α → Except Fault γ} {g : β → Except Fault δ} (h : Likewise R x y)
    (hfg : ∀ a b, R a b → Likewise S (f a) (g b)) : Likewise S (x >>= f) (y >>= g) := by
  cases h with
  | ok h => exact hfg _ _ h
  | error h => exact .error h

-- ---------------------------------------------------------------------------
-- Names
-- ---------------------------------------------------------------------------

theorem afterLead?_eq_some_iff {lead name rest : String} :
    afterLead? lead name = some rest ↔ name = lead ++ rest := by
  rw [afterLead?, Option.map_eq_some_iff]
  constructor
  · rintro ⟨text, htext, rfl⟩
    rw [← String.toList_inj, Text.after?_eq_some_iff.1 htext]
    simp
  · rintro rfl
    exact ⟨rest.toList, Text.after?_eq_some_iff.2 (by simp), by simp⟩

end Compile

open Compile Element

variable {lead p : String}

/-- No name with the prefix is a declaration. -/
theorem IsPrefix.append_colon_ne (hp : IsPrefix p) (rest other : String) :
    p ++ ":" ++ rest ≠ "xmlns:" ++ other := by
  intro heq
  have hreserved (more : List Char) : p.toList ++ [':'] ≠ "xmlns:".toList ++ more := by
    intro h
    have hname : p ++ ":" = "xmlns:" ++ String.ofList more :=
      String.toList_inj.1 (by simpa using h)
    cases hp.notReserved.symm.trans (afterLead?_eq_some_iff.2 hname)
  have hchars : (p.toList ++ [':']) ++ rest.toList =
      ("xmlns".toList ++ [':']) ++ other.toList := by
    simpa using congrArg String.toList heq
  rcases List.append_eq_append_iff.1 hchars with ⟨more, hmore, -⟩ | ⟨more, hmore, -⟩
  · -- the only colon of the reserved lead is at its end
    rw [List.append_assoc] at hmore
    rcases List.append_eq_append_iff.1 hmore with ⟨between, hp', hend⟩ | ⟨between, hp', hend⟩
    · cases between with
      | nil => exact hreserved [] (by rw [hp']; rfl)
      | cons c between => simp at hend
    · cases between with
      | nil => exact hreserved [] (by rw [← List.append_nil p.toList, ← hp']; rfl)
      | cons c between =>
        obtain ⟨rfl, -⟩ := List.cons.inj hend
        have hcolon : ':' ∈ "xmlns".toList := by simp [hp']
        exact absurd hcolon (by decide)
  · exact hreserved more hmore

theorem afterLead?_relead {name : String} (hfree : afterLead? (p ++ ":") name = none) :
    afterLead? (p ++ ":") (relead lead (p ++ ":") name) = afterLead? lead name := by
  unfold relead
  cases hrest : afterLead? lead name with
  | none => exact hfree
  | some rest => exact afterLead?_eq_some_iff.2 rfl

theorem relead_ne (hp : IsPrefix p) {key : String} (hkey : key ≠ "xmlns:" ++ p) :
    relead lead (p ++ ":") key ≠ "xmlns:" ++ p := by
  unfold relead
  cases afterLead? lead key with
  | none => exact hkey
  | some rest => exact hp.append_colon_ne rest p

/-- A declaration of a lead is one of a name that starts with `xmlns:`. -/
theorem declares_relead (hp : IsPrefix p) {key value : String}
    (h : (afterLead? "xmlns:" key).bind (fun name =>
      if Text.holds "figdice".toList value.toList then some (name ++ ":") else none) = none) :
    (afterLead? "xmlns:" (relead lead (p ++ ":") key)).bind (fun name =>
      if Text.holds "figdice".toList value.toList then some (name ++ ":") else none) = none := by
  unfold relead
  cases afterLead? lead key with
  | none => exact h
  | some rest =>
    have hnone : afterLead? "xmlns:" (p ++ ":" ++ rest) = none := by
      rw [Option.eq_none_iff_forall_not_mem]
      exact fun other hother => hp.append_colon_ne rest other (afterLead?_eq_some_iff.1 hother)
    rw [hnone]
    rfl

theorem dropWhileEnd_append_colon {text : List Char} (h : text.getLast? ≠ some ':') :
    Text.dropWhileEnd (· == ':') (text ++ [':']) = text := by
  induction text with
  | nil => rfl
  | cons c text ih =>
    cases text with
    | nil => simpa [Text.dropWhileEnd] using h
    | cons d text =>
      rw [List.getLast?_cons_cons] at h
      rw [List.cons_append, Text.dropWhileEnd, ih h]

theorem declarationOf_eq (hp : IsPrefix p) : declarationOf (p ++ ":") = "xmlns:" ++ p := by
  rw [declarationOf, String.toList_append]
  change "xmlns:" ++ String.ofList (Text.dropWhileEnd (· == ':') (p.toList ++ [':'])) = _
  rw [dropWhileEnd_append_colon hp.noColon, String.ofList_toList]

theorem declaredLead?_declaration (hp : IsPrefix p) {attributes : List (String × String)}
    (hundeclared : declaredLead? attributes = none) (lead : String) (n : Nat) :
    declaredLead? ((releadAll lead (p ++ ":") attributes).take n ++ Document.declaration p ::
      (releadAll lead (p ++ ":") attributes).drop n) = some (p ++ ":") := by
  have hnone : declaredLead? (releadAll lead (p ++ ":") attributes) = none := by
    unfold declaredLead? releadAll at *
    rw [List.findSome?_eq_none_iff] at *
    intro q hq
    obtain ⟨⟨key, value⟩, hmem, rfl⟩ := List.mem_map.1 hq
    exact declares_relead hp (hundeclared _ hmem)
  have hdeclares : afterLead? "xmlns:" ("xmlns:" ++ p) = some p := afterLead?_eq_some_iff.2 rfl
  have hvalue : Text.holds "figdice".toList "http://www.figdice.org/".toList = true := by rfl
  have htake : declaredLead? ((releadAll lead (p ++ ":") attributes).take n) = none := by
    unfold declaredLead? at *
    rw [List.findSome?_eq_none_iff] at *
    exact fun q hq => hnone q (List.mem_of_mem_take hq)
  unfold declaredLead? at htake ⊢
  rw [List.findSome?_append, htake, Option.none_or, List.findSome?_cons]
  simp only [Document.declaration, hdeclares, Option.bind_some, hvalue, if_true]

-- ---------------------------------------------------------------------------
-- Elements
-- ---------------------------------------------------------------------------

section

variable (path lead p : String)

/-- What a document is compiled with that declares nothing. -/
def undeclared : Setting := ⟨path, lead, none⟩

/-- What a document is compiled with that declares the prefix. -/
def declared : Setting := ⟨path, p ++ ":", some ("xmlns:" ++ p)⟩

end

variable {path : String}

/-- Only the kind and the plain attributes of a tag depend on the lead. -/
theorem plainAttributes_relead {attributes : List (String × String)}
    (hfree : ∀ q ∈ attributes, afterLead? (p ++ ":") q.1 = none ∧ q.1 ≠ "xmlns:" ++ p)
    (hp : IsPrefix p) :
    plainAttributes (declared path p) (releadAll lead (p ++ ":") attributes) =
      plainAttributes (undeclared path lead) attributes := by
  induction attributes with
  | nil => rfl
  | cons q attributes ih =>
    obtain ⟨key, value⟩ := q
    obtain ⟨⟨hkey, hne⟩, hrest⟩ := List.forall_mem_cons.1 hfree
    have hname : afterLead? (p ++ ":") (relead lead (p ++ ":") key) = afterLead? lead key :=
      afterLead?_relead hkey
    have hother : (some (relead lead (p ++ ":") key) != some ("xmlns:" ++ p)) = true := by
      simpa using relead_ne hp hne
    have hkeep : (some key != none) = true := rfl
    have htail := ih hrest
    unfold plainAttributes releadAll at htail ⊢
    simp only [declared, undeclared, List.map_cons, List.filter_cons, hname, hother, hkeep,
      Bool.true_and] at htail ⊢
    rw [htail]
    cases hlead : afterLead? lead key with
    | some rest => rfl
    | none => simp [relead, hlead]

theorem controlAttributes_relead {attributes : List (String × String)}
    (hfree : ∀ q ∈ attributes, afterLead? (p ++ ":") q.1 = none ∧ q.1 ≠ "xmlns:" ++ p)
    (hp : IsPrefix p) :
    controlAttributes (declared path p) (releadAll lead (p ++ ":") attributes) =
      controlAttributes (undeclared path lead) attributes := by
  unfold controlAttributes releadAll
  rw [List.filterMap_map]
  refine List.filterMap_congr fun q hq => ?_
  obtain ⟨hkey, hne⟩ := hfree q hq
  simp only [Function.comp_apply, declared, undeclared, afterLead?_relead hkey,
    Option.some.injEq, relead_ne hp hne, if_false, reduceCtorEq]

/-- The declaration is left out, wherever it stands. -/
theorem plainAttributes_declaration (attributes : List (String × String)) (n : Nat) :
    plainAttributes (declared path p) (attributes.take n ++ Document.declaration p ::
      attributes.drop n) = plainAttributes (declared path p) attributes := by
  unfold plainAttributes
  rw [List.filter_append, List.filter_cons_of_neg (by simp [Document.declaration, declared]),
    ← List.filter_append, List.take_append_drop]

theorem controlAttributes_declaration (attributes : List (String × String)) (n : Nat) :
    controlAttributes (declared path p) (attributes.take n ++ Document.declaration p ::
      attributes.drop n) = controlAttributes (declared path p) attributes := by
  unfold controlAttributes
  rw [List.filterMap_append, List.filterMap_cons_none (by simp [Document.declaration, declared]),
    ← List.filterMap_append, List.take_append_drop]

/-- The directives of a tag do not depend on the lead. -/
theorem directives_declared (line : Nat) (control : List (String × String)) :
    directives (declared path p) line control = directives (undeclared path lead) line control :=
  rfl

theorem required_likewise (line : Nat) (tag tag' name : String) (value : Option String) :
    Likewise Eq (required (undeclared path lead) line tag name value)
      (required (declared path p) line tag' name value) := by
  cases value with
  | none => exact .error rfl
  | some value => exact .ok rfl

theorem optional_likewise (line : Nat) (value : Option String) :
    Likewise Eq (optional (undeclared path lead) line value)
      (optional (declared path p) line value) :=
  .refl _

/-- The kind of a tag of the control namespace does not depend on the lead, and it is not written
with its name. -/
theorem controlKind_likewise (line : Nat) (tag tag' suffix : String)
    (attributes : List (String × String)) :
    Likewise (fun r r' => r' = r ∧ r.1 ≠ .element)
      (controlKind (undeclared path lead) line tag suffix attributes)
      (controlKind (declared path p) line tag' suffix attributes) := by
  unfold controlKind
  split
  · exact (required_likewise line tag tag' _ _).bind fun _ _ h => .ok ⟨by rw [h], nofun⟩
  · exact (required_likewise line tag tag' _ _).bind fun _ _ h => .ok ⟨by rw [h], nofun⟩
  · exact (required_likewise line tag tag' _ _).bind fun _ _ hname =>
      (optional_likewise line _).bind fun _ _ hvalue => .ok ⟨by rw [hname, hvalue], nofun⟩
  · exact (required_likewise line tag tag' _ _).bind fun _ _ hname =>
      (optional_likewise line _).bind fun _ _ hvalue => .ok ⟨by rw [hname, hvalue], nofun⟩
  · exact (required_likewise line tag tag' _ _).bind fun _ _ h => .ok ⟨by rw [h], nofun⟩
  · exact (required_likewise line tag tag' _ _).bind fun _ _ h => .ok ⟨by rw [h], nofun⟩
  · exact (required_likewise line tag tag' _ _).bind fun _ _ hname =>
      (optional_likewise line _).bind fun _ _ hvalue => .ok ⟨by rw [hname, hvalue], nofun⟩
  · exact .ok ⟨rfl, nofun⟩
  · exact .ok ⟨rfl, nofun⟩

theorem kindOf_likewise {tag : String} (hfree : afterLead? (p ++ ":") tag = none) (line : Nat)
    (attributes : List (String × String)) :
    Likewise (fun r r' => r' = r ∧ r.1.written (relead lead (p ++ ":") tag) = r.1.written tag)
      (kindOf (undeclared path lead) line tag attributes)
      (kindOf (declared path p) line (relead lead (p ++ ":") tag) attributes) := by
  have hname : afterLead? (p ++ ":") (relead lead (p ++ ":") tag) = afterLead? lead tag :=
    afterLead?_relead hfree
  have hlead : afterLead? (declared path p).lead (relead lead (p ++ ":") tag) =
      afterLead? (undeclared path lead).lead tag := hname
  unfold kindOf
  rw [hlead]
  cases hsuffix : afterLead? (undeclared path lead).lead tag with
  | none =>
    change afterLead? lead tag = none at hsuffix
    refine .ok ⟨rfl, ?_⟩
    simp only [relead, hsuffix]
  | some suffix =>
    refine (controlKind_likewise line tag _ suffix attributes).mono fun r r' h => ⟨h.1, ?_⟩
    rw [TagKind.written_of_ne h.2, TagKind.written_of_ne h.2]

/-- Compiled elements that differ in names only that are not written. -/
def SameUnnamed (r r' : Tag × Nat) : Prop := r'.1.unnamed = r.1.unnamed ∧ r'.2 = r.2

/-- Compiled content that differs in such names only. -/
def SameContent (r r' : List (Node Tag) × Nat) : Prop :=
  Tag.contentUnnamed r'.1 = Tag.contentUnnamed r.1 ∧ r'.2 = r.2

/-- An element is compiled alike if its attributes are taken apart in the same way. -/
theorem element_likewise_of {name : String} (hname : afterLead? (p ++ ":") name = none)
    {attributes attributes' : List (String × String)}
    (hcontrol : controlAttributes (declared path p) attributes' =
      controlAttributes (undeclared path lead) attributes)
    (hplain : plainAttributes (declared path p) attributes' =
      plainAttributes (undeclared path lead) attributes)
    {id : Nat} {children children' : List (Node Element)}
    (hchildren : Likewise SameContent (content (undeclared path lead) (id + 1) none children)
      (content (declared path p) (id + 1) none children'))
    (indent : Option String) (line : Nat) (selfClosing : Bool) :
    Likewise SameUnnamed
      (element (undeclared path lead) id indent ⟨name, attributes, line, selfClosing, children⟩)
      (element (declared path p) id indent
        ⟨relead lead (p ++ ":") name, attributes', line, selfClosing, children'⟩) := by
  rw [element, element, hcontrol, hplain, directives_declared]
  refine (Likewise.refl _).bind fun d d' hd => ?_
  subst hd
  refine (kindOf_likewise hname line _).bind fun r r' hr => ?_
  obtain ⟨rfl, hwritten⟩ := hr
  refine hchildren.bind fun c c' hc => ?_
  obtain ⟨hcontent, hnext⟩ := hc
  obtain ⟨kind, plain⟩ := r'
  obtain ⟨c, next⟩ := c
  obtain ⟨c', next'⟩ := c'
  simp only at hcontent hnext ⊢
  subst hnext
  cases conflict? d with
  | some pair => exact .error rfl
  | none =>
    refine .ok ⟨?_, rfl⟩
    simp only [Tag.unnamed, hcontent, hwritten]

mutual

theorem element_likewise (hp : IsPrefix p) : ∀ (e : Element) (id : Nat) (indent : Option String),
    (∀ u ∈ e.elements, u.LeavesFree p) →
      Likewise SameUnnamed (element (undeclared path lead) id indent e)
        (element (declared path p) id indent (e.releaded lead (p ++ ":")))
  | ⟨name, attributes, line, selfClosing, children⟩, id, indent, hfree => by
    obtain ⟨⟨hname, hattributes⟩, hchildren⟩ := List.forall_mem_cons.1 hfree
    exact element_likewise_of hname (controlAttributes_relead hattributes hp)
      (plainAttributes_relead hattributes hp)
      (content_likewise hp children (id + 1) none hchildren) indent line selfClosing

theorem content_likewise (hp : IsPrefix p) :
    ∀ (children : List (Node Element)) (next : Nat) (indent : Option String),
      (∀ u ∈ contentElements children, u.LeavesFree p) →
        Likewise SameContent (content (undeclared path lead) next indent children)
          (content (declared path p) next indent (contentReleaded lead (p ++ ":") children))
  | [], next, indent, hfree => .ok ⟨rfl, rfl⟩
  | .text text :: rest, next, indent, hfree => by
    rw [contentReleaded, content, content]
    refine (content_likewise hp rest next (indentOf text) hfree).bind fun r r' hr => ?_
    exact .ok ⟨congrArg (Node.text text :: ·) hr.1, hr.2⟩
  | .child e :: rest, next, indent, hfree => by
    rw [contentElements, List.forall_mem_append] at hfree
    rw [contentReleaded, content, content]
    refine (element_likewise hp e next indent hfree.1).bind fun r r' hr => ?_
    obtain ⟨t, middle⟩ := r
    obtain ⟨t', middle'⟩ := r'
    obtain ⟨htag, hmiddle⟩ := hr
    simp only at htag hmiddle ⊢
    subst hmiddle
    refine (content_likewise hp rest middle' none hfree.2).bind fun r r' hr => ?_
    refine .ok ⟨?_, hr.2⟩
    simp only [Tag.contentUnnamed, htag, hr.1]

end

-- ---------------------------------------------------------------------------
-- Templates
-- ---------------------------------------------------------------------------

namespace Template

theorem ofDocument_eq {d : Document} {declared? : Option String}
    (hdeclared : declaredLead? d.root.attributes = declared?) (path lead : String) :
    ofDocument path lead d = (do
      let (root, _) ← element ⟨path, declared?.getD lead, declared?.map declarationOf⟩ 0 none d.root
      return ⟨path, declared?.getD lead, root, d.instructions⟩) := by
  rw [← hdeclared]
  rfl

/-- A document is compiled alike with a prefix of its own. -/
theorem ofDocument_likewise (hp : IsPrefix p) {d : Document} (hfree : d.LeavesFree p)
    (path lead : String) (n : Nat) :
    Likewise (fun t t' : Template => t'.unnamed = t.unnamed) (ofDocument path lead d)
      (ofDocument path lead (d.withPrefix lead p n)) := by
  obtain ⟨⟨name, attributes, line, selfClosing, children⟩, instructions⟩ := d
  obtain ⟨hundeclared, helements⟩ := hfree
  obtain ⟨⟨hname, hattributes⟩, hchildren⟩ := List.forall_mem_cons.1 helements
  have hdeclared := declaredLead?_declaration hp hundeclared lead n
  have hroot : Likewise SameUnnamed
      (element (undeclared path lead) 0 none ⟨name, attributes, line, selfClosing, children⟩)
      (element (declared path p) 0 none (Document.withPrefix lead p n
        ⟨⟨name, attributes, line, selfClosing, children⟩, instructions⟩).root) :=
    element_likewise_of hname
      ((controlAttributes_declaration _ n).trans (controlAttributes_relead hattributes hp))
      ((plainAttributes_declaration _ n).trans (plainAttributes_relead hattributes hp))
      (content_likewise hp children 1 none hchildren) none line selfClosing
  have hsetting :
      (⟨path, p ++ ":", some (declarationOf (p ++ ":"))⟩ : Setting) = declared path p := by
    rw [declarationOf_eq hp]
    rfl
  rw [ofDocument_eq hundeclared, ofDocument_eq hdeclared, Option.map_some, Option.getD_some,
    hsetting]
  exact hroot.bind fun r r' hr => .ok (congrArg (Template.mk path "" · instructions) hr.1)

/-- A text is compiled alike with a prefix of its own: with the same tags up to names that are not
written, or with the same fault up to the name of a tag. -/
theorem compile_likewise (hp : IsPrefix p) {d : Document} (hfree : d.LeavesFree p) {lead : String}
    {n : Nat} {text text' : String} (hread : Document.read text = .ok d)
    (hread' : Document.read text' = .ok (d.withPrefix lead p n)) (path : String) :
    Likewise (fun t t' : Template => t'.unnamed = t.unnamed) (compile path lead text)
      (compile path lead text') := by
  unfold compile
  rw [hread, hread']
  exact ofDocument_likewise hp hfree path lead n

end Template

end XmlTemplate
