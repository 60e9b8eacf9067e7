import XmlTemplate.Proofs.Render.Correspondence

/-!
# Pages and their slots

What comes of the slots of a page. Which marks are left in an output depends on the marks of the
page and of the plugs alone. A page that can be drawn as a tree keeps none of its marks: its output
is the one of the tree.
-/

namespace XmlTemplate

open Slot (Drawn Layout Mark Marked Misplaced Plugging)

/-- A text holds the start of a mark of a slot. -/
def Slot.Held (text : String) : Prop := '/' :: Mark.core <:+: text.toList

namespace Render

/-- A template rendered as the first view of a session, with the marks of its slots. -/
def draft (e : Engine) (depth : Nat) (template : Template) : Render String := do
  modify (Session.addView template none)
  let output ← tag e depth template.root 0 .none
  return output.getD ""

/-- Processing instructions in front of a page. -/
def instructed (template : Template) : String :=
  String.join (template.instructions.map (· ++ "\n"))

theorem page_eq (e : Engine) (depth : Nat) (template : Template) :
    page e depth template = (do
      let output ← draft e depth template
      let s ← get
      return instructed template ++ Slot.splice s.slots s.plugs output) := by
  simp only [page, draft, instructed, bind_assoc, pure_bind]

theorem of_renderWithin_eq_ok {e : Engine} {depth : Nat} {template : Template} {data : Value}
    {language : Option String} {m m' : Memory} {r : Rendered}
    (h : e.renderWithin depth template data language m = (.ok r, m')) :
    ∃ output s, draft e depth template (.start data (language.or e.language)) m =
        (.ok (output, s), m') ∧
      r = ⟨instructed template ++ Slot.splice s.slots s.plugs output, s.warnings⟩ := by
  unfold Engine.renderWithin at h
  simp only [StateT.run, page_eq] at h
  split at h
  · rename_i hpage
    cases h
    obtain ⟨output, s, m₁, hdraft, hrest⟩ := bind_eq_ok_iff.1 hpage
    cases hrest
    exact ⟨output, _, hdraft, rfl⟩
  · cases h

end Render

/-! ## Marks that are left -/

/-- A page and the plugs of a session with the marks in them as symbols. -/
structure Reading (s : Session) (output : String) where
  page : Marked
  plugs : String → Option Marked
  text_page : page.text = output.toList
  text_plugs (name : String) : (plugs name).map Marked.text = (s.plugs.get? name).map String.toList

namespace Reading

variable {s : Session} {output : String}

/-- No text between marks spells a mark, while the slots are resolved. -/
def Unforged (reading : Reading s output) : Prop :=
  Marked.Unforged reading.plugs s.slots reading.page

/-- What is left of the marks when the slots are resolved, regardless of the text between them. -/
def residue (reading : Reading s output) : Marked :=
  s.slots.foldl (Marked.resolve fun name => (reading.plugs name).map Marked.bare) reading.page.bare

/-- A page holds a mark in the end just if not all marks cancel. -/
theorem held_splice_iff {reading : Reading s output} (h : reading.Unforged) :
    Slot.Held (Slot.splice s.slots s.plugs output) ↔ reading.residue ≠ [] := by
  have htext : (Slot.splice s.slots s.plugs output).toList =
      (s.slots.foldl (Marked.resolve reading.plugs) reading.page).text := by
    rw [Slot.splice, String.toList_ofList, ← reading.text_page]
    exact h.foldl_resolve_text fun name => (reading.text_plugs name).symm
  rw [Slot.Held, htext, h.sound_foldl.infix_text_iff, residue, ← Marked.bare_foldl_resolve,
    Ne, Marked.bare_eq_nil_iff]
  simp

end Reading

/-! ## Processing instructions -/

theorem infix_or_of_append_cons {w a b : List Char} {c : Char} (hc : c ∉ w)
    (h : w <:+: a ++ c :: b) : w <:+: a ∨ w <:+: b := by
  rcases List.infix_append_iff.1 h with ha | hb | ⟨u, v, rfl, hu, hv⟩
  · exact .inl ha
  · rcases List.infix_cons_iff.1 hb with hv | hb
    · cases w with
      | nil => exact .inl List.nil_infix
      | cons d w =>
        obtain ⟨rfl, -⟩ := List.cons_prefix_cons.1 hv
        exact absurd (List.mem_cons_self ..) hc
    · exact .inr hb
  · cases v with
    | nil => exact .inl (by simpa using hu.isInfix)
    | cons d v =>
      obtain ⟨rfl, -⟩ := List.cons_prefix_cons.1 hv
      exact absurd (List.mem_append_right u (List.mem_cons_self ..)) hc

/-- Processing instructions end with a line break, so that no mark reaches from them into the
page. -/
theorem held_instructed_append_iff {template : Template} {output : String}
    (h : ∀ i ∈ template.instructions, ¬ Slot.Held i) :
    Slot.Held (Render.instructed template ++ output) ↔ Slot.Held output := by
  unfold Render.instructed
  generalize template.instructions = instructions at h
  induction instructions with
  | nil => simp
  | cons i rest ih =>
    have hrest := ih fun j hj => h j (List.mem_cons_of_mem i hj)
    rw [List.map_cons, String.join_cons, String.append_assoc, ← hrest]
    constructor
    · intro hheld
      rw [Slot.Held, String.append_assoc, String.toList_append, String.toList_append] at hheld
      rcases infix_or_of_append_cons (by decide) hheld with hi | hpage
      · exact absurd hi (h i (List.mem_cons_self ..))
      · exact hpage
    · intro hheld
      rw [Slot.Held, String.toList_append]
      exact hheld.trans (List.suffix_append _ _).isInfix

/-! ## Pages as trees -/

theorem follows_draft (e : Engine) (depth : Nat) (template : Template) :
    Render.Follows Drawn (Render.draft e depth template) (Draw.page e depth template) := by
  refine Render.follows_modify_bind ?_ ?_
  · exact fun s => ⟨rfl, rfl⟩
  · refine Render.follows_bind (Render.follows_tag e depth _ _ _) fun slots output l h =>
      Render.follows_pure ?_
    rwa [List.append_nil]

namespace Drawing

/-- A drawing and the page of a session go together. -/
structure Depicts (d : Drawing) (output : String) (s : Session) : Prop where
  drawn : Drawn s.slots output d.layout
  slots : d.slots = s.slots
  warnings : d.warnings = s.warnings
  plug (name : String) : s.plugs.get? name = d.plug name

variable {d : Drawing} {output : String} {s : Session}

theorem Depicts.toList_splice (h : d.Depicts output s) (hunforged : d.Unforged) :
    (Slot.splice s.slots s.plugs output).toList =
      (s.slots.foldl (Marked.resolve (Layout.markedPlugs d.plug)) d.layout.marked).text := by
  rw [Unforged, h.slots] at hunforged
  rw [Slot.splice, String.toList_ofList, h.drawn.text]
  apply hunforged.foldl_resolve_text
  intro name
  rw [h.plug, Layout.markedPlugs, Option.map_map]
  cases d.plug name <;> simp

/-- The slots of a page come out as the tree says. -/
theorem Depicts.splice_eq (h : d.Depicts output s) (hunforged : d.Unforged) :
    Slot.splice s.slots s.plugs output = d.layout.output d.plug := by
  have htext := h.toList_splice hunforged
  rw [Layout.foldl_resolve_marked h.drawn.placed d.plug h.drawn.count, Marked.text_ofText] at htext
  exact String.toList_inj.1 htext

theorem Depicts.not_held_splice (h : d.Depicts output s) (hunforged : d.Unforged) :
    ¬ Slot.Held (Slot.splice s.slots s.plugs output) := by
  have hsound := hunforged.sound_foldl
  rw [Slot.Held, h.toList_splice hunforged, ← h.slots, hsound.infix_text_iff, h.slots,
    Layout.foldl_resolve_marked h.drawn.placed d.plug h.drawn.count]
  simp [Marked.ofText]

end Drawing

/-- A page that is drawn is rendered the same way. -/
theorem depicts_of_drawWithin {e : Engine} {depth : Nat} {template : Template} {data : Value}
    {language : Option String} {m m' : Memory} {d : Drawing}
    (h : e.drawWithin depth template data language m = (.ok (.ok d), m')) :
    ∃ output s, Render.draft e depth template (.start data (language.or e.language)) m =
      (.ok (output, s), m') ∧ d.Depicts output s ∧ d.instructions = template.instructions := by
  unfold Engine.drawWithin at h
  split at h
  · rename_i l ps s m₁ hpage
    cases h
    obtain ⟨output, slots, hdraft, hslots, hdrawn, hagrees⟩ :=
      (follows_draft e depth template _).ok (fun _ => rfl) hpage
    obtain rfl : s.slots = slots := hslots
    exact ⟨output, s, hdraft, ⟨hdrawn, rfl, rfl, hagrees⟩, rfl⟩
  · cases h
  · cases h

theorem draft_of_drawWithin_eq_error {e : Engine} {depth : Nat} {template : Template} {data : Value}
    {language : Option String} {m m' : Memory} {stop : Stop}
    (h : e.drawWithin depth template data language m = (.error stop, m')) :
    Render.draft e depth template (.start data (language.or e.language)) m =
      (.error stop, m') := by
  unfold Engine.drawWithin at h
  split at h
  · cases h
  · cases h
  · rename_i hpage
    cases h
    exact (follows_draft e depth template _).stop (fun _ => rfl) hpage

/-! ## Renders -/

variable {e : Engine} {depth : Nat} {template : Template} {data : Value} {language : Option String}
  {m m' : Memory} {r : Rendered}

/-- The output of a render holds a mark just if the marks of the page and of the plugs, without any
text, do not cancel when the slots are resolved in the order in which they were met. They do if no
slot is within a slot of its name, and none is in a plug or in another text that the page is not
made of. -/
theorem held_output_iff (h : e.renderWithin depth template data language m = (.ok r, m'))
    (hinstructions : ∀ i ∈ template.instructions, ¬ Slot.Held i) :
    ∃ output s, Render.draft e depth template (.start data (language.or e.language)) m =
        (.ok (output, s), m') ∧
      (∀ reading : Reading s output, reading.Unforged →
        (Slot.Held r.output ↔ reading.residue ≠ [])) ∧
      ∀ d, e.drawWithin depth template data language m = (.ok (.ok d), m') → d.Unforged →
        ¬ Slot.Held r.output := by
  obtain ⟨output, s, hdraft, rfl⟩ := Render.of_renderWithin_eq_ok h
  refine ⟨output, s, hdraft, fun reading hunforged => ?_, fun d hd hunforged => ?_⟩
  · rw [held_instructed_append_iff hinstructions]
    exact reading.held_splice_iff hunforged
  · obtain ⟨output', s', hdraft', hdepicts, -⟩ := depicts_of_drawWithin hd
    cases hdraft.symm.trans hdraft'
    rw [held_instructed_append_iff hinstructions]
    exact hdepicts.not_held_splice hunforged

/-- A page with a slot, and in front of it a plug for the slot that holds another slot. -/
def slotInPlug : Template :=
  let inner : Tag := { (default : Tag) with
    id := 2, name := "b", directives := { Directives.none with slot := some "B" }
    children := [.text "x"] }
  let plug : Tag := { (default : Tag) with
    id := 1, name := "p", directives := { Directives.none with plug := some "A" }
    children := [.child inner] }
  let slot : Tag := { (default : Tag) with
    id := 3, name := "a", directives := { Directives.none with slot := some "A" } }
  let root : Tag := { (default : Tag) with name := "div", children := [.child plug, .child slot] }
  ⟨"page.xml", "fig:", root, []⟩

namespace slotInPlug

/-- The page with its marks, before the slots are resolved. -/
def page : Marked :=
  Marked.ofText "<div>".toList ++ .inr (.opening "A") :: (Marked.ofText "<a></a>".toList ++
    .inr (.closing "A") :: Marked.ofText "</div>".toList)

/-- The plugs with their marks. -/
def plugs (name : String) : Option Marked :=
  if name = "A" then
    some (Marked.ofText "<p>".toList ++ .inr (.opening "B") :: (Marked.ofText "<b>x</b>".toList ++
      .inr (.closing "B") :: Marked.ofText "</p>".toList))
  else none

theorem text_page : page.text = "<div>/==SLOT==A==BEGIN/<a></a>/==SLOT==A==END/</div>".toList := by
  rfl

theorem text_plugs {s : Session}
    (h : s.plugs = [("A", "<p>/==SLOT==B==BEGIN/<b>x</b>/==SLOT==B==END/</p>")]) (name : String) :
    (plugs name).map Marked.text = (s.plugs.get? name).map String.toList := by
  rw [h, Table.get?, Table.get?, plugs]
  by_cases hname : name = "A"
  · subst hname
    rfl
  · rw [if_neg hname, if_neg (Ne.symm hname)]
    rfl

/-- The marks read in the texts of a session. -/
def reading {s : Session} {output : String}
    (houtput : output = "<div>/==SLOT==A==BEGIN/<a></a>/==SLOT==A==END/</div>")
    (hplugs : s.plugs = [("A", "<p>/==SLOT==B==BEGIN/<b>x</b>/==SLOT==B==END/</p>")]) :
    Reading s output where
  page := page
  plugs := plugs
  text_page := houtput ▸ text_page
  text_plugs := text_plugs hplugs

end slotInPlug

theorem held_output_iff_slotInPlug :
    ∃ r m', Engine.default.renderWithin 5 slotInPlug .null none (.ofFiles .empty) = (.ok r, m') ∧
      Slot.Held r.output := by
  obtain ⟨r, m', h⟩ : ∃ r m', Engine.default.renderWithin 5 slotInPlug .null none
    (.ofFiles .empty) = (.ok r, m') := ⟨_, _, rfl⟩
  obtain ⟨output, s, hdraft, hreading, -⟩ := held_output_iff h (by simp [slotInPlug])
  obtain ⟨t, m₁, hrun, hslots, hplugs⟩ : ∃ t m₁, Render.draft .default 5 slotInPlug
      (.start .null none) (.ofFiles .empty) =
        (.ok ("<div>/==SLOT==A==BEGIN/<a></a>/==SLOT==A==END/</div>", t), m₁) ∧
      t.slots = ["B", "A"] ∧
      t.plugs = [("A", "<p>/==SLOT==B==BEGIN/<b>x</b>/==SLOT==B==END/</p>")] :=
    ⟨_, _, rfl, rfl, rfl⟩
  cases hdraft.symm.trans hrun
  refine ⟨r, m', h, (hreading (slotInPlug.reading rfl hplugs) ?_).2 ?_⟩
  · rw [Reading.Unforged, hslots]
    exact (by decide +kernel : Marked.Unforged slotInPlug.plugs ["B", "A"] slotInPlug.page)
  · rw [Reading.residue, hslots]
    exact (by decide +kernel : ["B", "A"].foldl (Marked.resolve fun name =>
      (slotInPlug.plugs name).map Marked.bare) slotInPlug.page.bare ≠ [])

/-- A page that has a tree is rendered to the output of the tree. -/
theorem output_eq_drawing (h : e.renderWithin depth template data language m = (.ok r, m'))
    (hplaced : ∀ misplaced m₁,
      e.drawWithin depth template data language m ≠ (.ok (.error misplaced), m₁)) :
    ∃ d, e.drawWithin depth template data language m = (.ok (.ok d), m') ∧
      r.warnings = d.warnings ∧ (d.Unforged → r.output = d.output) := by
  obtain ⟨output, s, hdraft, rfl⟩ := Render.of_renderWithin_eq_ok h
  rcases hd : e.drawWithin depth template data language m with ⟨stop | misplaced | d, m₁⟩
  · have hstop := draft_of_drawWithin_eq_error hd
    cases hdraft.symm.trans hstop
  · exact absurd hd (hplaced misplaced m₁)
  · obtain ⟨output', s', hdraft', hdepicts, hinstructions⟩ := depicts_of_drawWithin hd
    cases hdraft.symm.trans hdraft'
    refine ⟨d, rfl, hdepicts.warnings.symm, fun hunforged => ?_⟩
    rw [Drawing.output, hinstructions, ← hdepicts.splice_eq hunforged]
    rfl

/-- A page with a slot that is there twice, once within another slot, and two plugs for it around,
the second one added to the first. -/
def pluggedTwice : Template :=
  let plug (id : Nat) (text : String) (append : Option Directive) : Tag := { (default : Tag) with
    id := id, name := "a", directives := { Directives.none with plug := some "s", append := append }
    children := [.text text] }
  let slot (id : Nat) : Tag := { (default : Tag) with
    id := id, name := "b", directives := { Directives.none with slot := some "s" } }
  let outer : Tag := { (default : Tag) with
    id := 2, name := "i", directives := { Directives.none with slot := some "t" }
    children := [.child (slot 3)] }
  let root : Tag := { (default : Tag) with
    name := "x"
    children := [.child (plug 1 "1" none), .child outer, .child (slot 4),
      .child (plug 5 "2" (some ⟨"true", .literal (.bool true)⟩))] }
  ⟨"page.xml", "fig:", root, []⟩

set_option maxRecDepth 2000 in
theorem output_eq_drawing_pluggedTwice :
    ∃ r m', Engine.default.renderWithin 5 pluggedTwice .null none (.ofFiles .empty) =
        (.ok r, m') ∧
      r.output = "<x><i><a>1</a><a>2</a></i><a>1</a><a>2</a></x>" := by
  obtain ⟨r, m', h⟩ : ∃ r m', Engine.default.renderWithin 5 pluggedTwice .null none
    (.ofFiles .empty) = (.ok r, m') := ⟨_, _, rfl⟩
  obtain ⟨d, m₁, hdrawn, hunforged, houtput⟩ : ∃ d m₁, Engine.default.drawWithin 5 pluggedTwice
      .null none (.ofFiles .empty) = (.ok (.ok d), m₁) ∧ d.Unforged ∧
        d.output = "<x><i><a>1</a><a>2</a></i><a>1</a><a>2</a></x>" :=
    ⟨_, _, rfl, by unfold Drawing.Unforged; decide +kernel, by rfl⟩
  obtain ⟨d', hdrawn', -, heq⟩ := output_eq_drawing h (by simp [hdrawn])
  cases hdrawn.symm.trans hdrawn'
  exact ⟨r, m', h, (heq hunforged).trans houtput⟩

/-- A page with two texts that spell a mark together, although none of them holds the core of
one. -/
def forgedPage : Element :=
  let hidden : Element := ⟨"fig:y", [], 1, false, [.text "OT==s==BEGIN/"]⟩
  let slot : Element := ⟨"b", [("fig:slot", "s")], 1, true, []⟩
  ⟨"x", [], 1, false, [.text "/==SL", .child hidden, .child slot]⟩

theorem output_ne_drawing_forgedPage :
    ¬ Mark.core <:+: forgedPage.markup.toList ∧
      ∃ template r d m₁ m₂, Template.ofDocument "" "fig:" ⟨forgedPage, []⟩ = .ok template ∧
        Engine.default.renderWithin 5 template .null none (.ofFiles .empty) = (.ok r, m₁) ∧
        Engine.default.drawWithin 5 template .null none (.ofFiles .empty) = (.ok (.ok d), m₂) ∧
        r.output = "<x><b /></x>" ∧ d.output = "<x>/==SLOT==s==BEGIN/<b /></x>" :=
  ⟨by decide +kernel, _, _, _, _, _, rfl, rfl, rfl, by decide +kernel, by rfl⟩

end XmlTemplate
