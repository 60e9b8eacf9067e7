import Mathlib.Data.List.Infix
import XmlTemplate.Render.Slot

/-!
# Texts with marks

The marks of slots are plain text in the page. This file gives them back as symbols of their own,
next to the characters, and shows when the two are the same: as long as no text between marks
spells a mark, finding and replacing marks in the text finds and replaces the symbols.
-/

namespace XmlTemplate.Slot

/-- A mark of a slot. -/
inductive Mark where
  | opening (name : String)
  | closing (name : String)
  deriving Repr, DecidableEq

namespace Mark

/-- The slot that a mark belongs to. -/
def name : Mark → String
  | opening name => name
  | closing name => name

/-- The mark as it stands in a text. -/
def text : Mark → List Char
  | opening name => (Slot.opening name).toList
  | closing name => (Slot.closing name).toList

/-- What all marks have in front of the name, behind the first stroke. -/
def core : List Char := ['=', '=', 'S', 'L', 'O', 'T', '=', '=']

/-- The start of the core, with which a name may not end. -/
def stem : List Char := ['=', '=', 'S', 'L', 'O', 'T']

/-- What stands behind the name in a mark. -/
def tail : Mark → List Char
  | opening _ => ['=', '=', 'B', 'E', 'G', 'I', 'N', '/']
  | closing _ => ['=', '=', 'E', 'N', 'D', '/']

theorem text_eq (k : Mark) : k.text = '/' :: (core ++ (k.name.toList ++ k.tail)) := by
  cases k with
  | opening name =>
    simp only [text, Slot.opening, String.toList_append, List.append_assoc]
    rfl
  | closing name =>
    simp only [text, Slot.closing, String.toList_append, List.append_assoc]
    rfl

/-- The name of a mark can be told from the rest of the mark. -/
structure Proper (name : String) : Prop where
  stem : ¬ stem <:+: name.toList
  tail (k : Mark) : ¬ k.tail <:+: name.toList

instance (name : String) : Decidable (Proper name) :=
  decidable_of_iff
    (¬ stem <:+: name.toList ∧ ¬ (opening name).tail <:+: name.toList ∧
      ¬ (closing name).tail <:+: name.toList)
    ⟨fun ⟨a, b, c⟩ => ⟨a, fun | opening _ => b | closing _ => c⟩,
      fun ⟨a, b⟩ => ⟨a, b _, b _⟩⟩

/-! ## Overlaps -/

/-- A tail starts with two equals signs and has no others, so two tails do not overlap. -/
theorem eq_nil_or_prefix_of_tail_append {k j : Mark} {r x y : List Char}
    (h : k.tail ++ x = r ++ (j.tail ++ y)) : r = [] ∨ k.tail <+: r := by
  cases k <;> cases j <;>
    rcases r with _ | ⟨_, _ | ⟨_, _ | ⟨_, _ | ⟨_, _ | ⟨_, _ | ⟨_, _ | ⟨_, _ | ⟨_, _⟩⟩⟩⟩⟩⟩⟩⟩ <;>
      simp_all [tail] <;> grind

theorem eq_of_tail_append {k j : Mark} {x y : List Char} (hname : k.name = j.name)
    (h : k.tail ++ x = j.tail ++ y) : k = j := by
  cases k <;> cases j <;> simp_all [tail, name]

/-- A mark can be told from any other mark at the start of a text. -/
theorem eq_of_text_append {k j : Mark} {x y : List Char} (hk : Proper k.name) (hj : Proper j.name)
    (h : k.text ++ x = j.text ++ y) : k = j := by
  simp only [text_eq, List.cons_append, List.cons.injEq, true_and, List.append_assoc,
    List.append_cancel_left_eq] at h
  rcases List.append_eq_append_iff.1 h with ⟨r, hr, hrest⟩ | ⟨r, hr, hrest⟩
  · rcases eq_nil_or_prefix_of_tail_append hrest with rfl | hstart
    · exact eq_of_tail_append (String.toList_inj.1 (by simpa using hr.symm)) hrest
    · have hin : k.tail <:+: j.name.toList := by
        rw [hr]
        exact hstart.isInfix.trans (List.suffix_append _ r).isInfix
      exact absurd hin (hj.tail k)
  · rcases eq_nil_or_prefix_of_tail_append hrest with rfl | hstart
    · exact eq_of_tail_append (String.toList_inj.1 (by simpa using hr)) hrest.symm
    · have hin : j.tail <:+: k.name.toList := by
        rw [hr]
        exact hstart.isInfix.trans (List.suffix_append _ r).isInfix
      exact absurd hin (hk.tail j)

theorem stem_prefix_of_core {j : Mark} {r x : List Char}
    (h : core <+: r ++ (j.tail ++ x)) : stem <+: r := by
  obtain ⟨y, h⟩ := h
  cases j <;>
    rcases r with _ | ⟨_, _ | ⟨_, _ | ⟨_, _ | ⟨_, _ | ⟨_, _ | ⟨_, _⟩⟩⟩⟩⟩⟩ <;>
      simp_all [tail, core, stem] <;> grind

theorem suffix_append_cases {w a b : List α} (h : w <:+ a ++ b) :
    w <:+ b ∨ ∃ r, r <:+ a ∧ w = r ++ b := by
  rcases List.suffix_or_suffix_of_suffix h (List.suffix_append a b) with hb | ⟨r, rfl⟩
  · exact .inl hb
  · exact .inr ⟨r, List.suffix_append_self_iff.1 h, rfl⟩

theorem suffix_of_not_mem {c : α} {v a b : List α} (h : c :: v <:+ a ++ b) (hc : c ∉ a) :
    c :: v <:+ b := by
  rcases suffix_append_cases h with hb | ⟨r, hr, heq⟩
  · exact hb
  · cases r with
    | nil => exact heq ▸ List.suffix_rfl
    | cons d r =>
      obtain ⟨rfl, -⟩ := List.cons.inj heq
      exact absurd (hr.mem (List.mem_cons_self ..)) hc

/-- The strokes of a mark are its first character, strokes of the name, and its last character. -/
theorem eq_nil_or_of_suffix_text {j : Mark} {v : List Char} (hv : '/' :: v <:+ j.text)
    (hne : '/' :: v ≠ j.text) : v = [] ∨ ∃ r, r <:+ j.name.toList ∧ v = r ++ j.tail := by
  rw [text_eq] at hv hne
  have hrest : '/' :: v <:+ j.name.toList ++ j.tail :=
    suffix_of_not_mem ((List.suffix_cons_iff.1 hv).resolve_left hne) (by decide)
  have htail (h : '/' :: v <:+ j.tail) : v = [] := by
    cases j <;> simp_all [tail, List.suffix_cons_iff]
  rcases suffix_append_cases hrest with h | ⟨r, hr, heq⟩
  · exact .inl (htail h)
  · cases r with
    | nil => exact .inl (htail (heq ▸ List.suffix_rfl))
    | cons c r =>
      obtain ⟨rfl, rfl⟩ := List.cons.inj heq
      exact .inr ⟨r, (List.suffix_cons _ r).trans hr, rfl⟩

/-- Behind a stroke within a mark there is no core, unless it is what comes behind the mark. -/
theorem core_prefix_of_suffix_text {j : Mark} {v x : List Char} (hj : Proper j.name)
    (hv : '/' :: v <:+ j.text) (hne : '/' :: v ≠ j.text) (h : core <+: v ++ x) : core <+: x := by
  rcases eq_nil_or_of_suffix_text hv hne with rfl | ⟨r, hr, rfl⟩
  · exact h
  · rw [List.append_assoc] at h
    exact absurd ((stem_prefix_of_core h).isInfix.trans hr.isInfix) hj.stem

theorem text_ne_nil (k : Mark) : k.text ≠ [] := by
  rw [text_eq]
  exact List.cons_ne_nil _ _

end Mark

/-- A text in which some marks are symbols of their own. -/
abbrev Marked := List (Char ⊕ Mark)

namespace Marked

/-- The characters of a symbol. -/
def glyphs : Char ⊕ Mark → List Char
  | .inl c => [c]
  | .inr k => k.text

/-- The text that marks stand in. -/
def text (d : Marked) : List Char := d.flatMap glyphs

/-- A text without marks. -/
def ofText (t : List Char) : Marked := t.map .inl

@[simp] theorem text_nil : text [] = [] := rfl

@[simp] theorem text_cons (x : Char ⊕ Mark) (d : Marked) :
    text (x :: d) = glyphs x ++ text d := by
  simp [text]

@[simp] theorem text_append (d d' : Marked) : text (d ++ d') = text d ++ text d' :=
  List.flatMap_append

@[simp] theorem text_ofText (t : List Char) : text (ofText t) = t := by
  induction t with
  | nil => rfl
  | cons c t ih => simpa [ofText, glyphs] using ih

theorem ofText_append (t u : List Char) : ofText (t ++ u) = ofText t ++ ofText u :=
  List.map_append

/-- No text between marks spells a mark, and the names of all marks can be told from the rest. -/
structure Sound (d : Marked) : Prop where
  core : ¬ ofText Mark.core <:+: d
  proper {k : Mark} : .inr k ∈ d → Mark.Proper k.name

instance (d : Marked) : Decidable d.Sound :=
  decidable_of_iff (¬ ofText Mark.core <:+: d ∧ ∀ x ∈ d, ∀ k ∈ x.getRight?, Mark.Proper k.name)
    ⟨fun ⟨hcore, hproper⟩ => ⟨hcore, fun hk => hproper _ hk _ rfl⟩,
      fun ⟨hcore, hproper⟩ => ⟨hcore, fun x hx k hk => by
        obtain rfl := Sum.getRight?_eq_some_iff.1 hk
        exact hproper hx⟩⟩

theorem Sound.suffix {d d' : Marked} (h : d.Sound) (hd : d' <:+ d) : d'.Sound where
  core hin := h.core (hin.trans hd.isInfix)
  proper hmem := h.proper (hd.mem hmem)

theorem Sound.tail {x : Char ⊕ Mark} {d : Marked} (h : Sound (x :: d)) : d.Sound :=
  h.suffix (List.suffix_cons x d)

/-- Text without strokes at the start is text between marks. -/
theorem exists_of_prefix_text {w : List Char} {d : Marked} (hw : '/' ∉ w) (h : w <+: d.text) :
    ∃ d', d = ofText w ++ d' := by
  induction w generalizing d with
  | nil => exact ⟨d, rfl⟩
  | cons c w ih =>
    simp only [List.mem_cons, not_or] at hw
    rcases d with _ | ⟨x | k, d⟩
    · simp at h
    · simp only [text_cons, glyphs, List.cons_append, List.nil_append,
        List.cons_prefix_cons] at h
      obtain ⟨rfl, h⟩ := h
      obtain ⟨d', rfl⟩ := ih hw.2 h
      exact ⟨d', rfl⟩
    · simp only [text_cons, glyphs, Mark.text_eq, List.cons_append, List.cons_prefix_cons] at h
      exact absurd h.1.symm hw.1

theorem Sound.no_core_start {d : Marked} (h : d.Sound) : ¬ Mark.core <+: d.text := by
  intro hcore
  obtain ⟨d', rfl⟩ := exists_of_prefix_text (by decide) hcore
  exact h.core (List.prefix_append _ _).isInfix

/-! ## Where marks are found -/

/-- No occurrence of `mark` in `u ++ w` starts in `u`. -/
def Passes (mark u w : List Char) : Prop := ∀ v, v ≠ [] → v <:+ u → ¬ mark <+: v ++ w

/-- A mark is found in a sound text only where its symbol is. -/
theorem Sound.passes {x : Char ⊕ Mark} {d : Marked} (h : Sound (x :: d)) {k : Mark}
    (hk : Mark.Proper k.name) (hx : x ≠ .inr k) : Passes k.text (glyphs x) d.text := by
  intro v hne hv hstart
  -- What is found starts with a stroke and the core.
  obtain ⟨v, rfl⟩ : ∃ w, v = '/' :: w := by
    obtain ⟨c, v, rfl⟩ := List.exists_cons_of_ne_nil hne
    rw [Mark.text_eq, List.cons_append, List.cons_prefix_cons] at hstart
    exact ⟨v, by rw [hstart.1]⟩
  have hcore : Mark.core <+: v ++ d.text := by
    rw [Mark.text_eq, List.cons_append, List.cons_prefix_cons] at hstart
    exact (List.prefix_append _ _).trans hstart.2
  cases x with
  | inl c =>
    obtain rfl : v = [] := by simpa [glyphs, List.suffix_cons_iff] using (hv.length_le)
    exact h.tail.no_core_start hcore
  | inr j =>
    have hj := h.proper (List.mem_cons_self ..)
    by_cases heq : '/' :: v = j.text
    · obtain ⟨y, hy⟩ := hstart
      simp only [heq] at hy
      exact hx (congrArg Sum.inr (Mark.eq_of_text_append hk hj hy).symm)
    · exact h.tail.no_core_start (Mark.core_prefix_of_suffix_text hj hv heq hcore)

theorem Passes.tail {mark u w : List Char} {c : Char} (h : Passes mark (c :: u) w) :
    Passes mark u w :=
  fun v hne hv => h v hne (hv.trans (List.suffix_cons c u))

theorem Passes.after?_eq_none {mark u w : List Char} {c : Char} (h : Passes mark (c :: u) w) :
    Text.after? mark (c :: (u ++ w)) = none := by
  apply Option.eq_none_iff_forall_ne_some.2
  intro rest hrest
  have hstart : mark <+: c :: (u ++ w) := ⟨rest, (Text.after?_eq_some_iff.1 hrest).symm⟩
  exact h (c :: u) (List.cons_ne_nil c u) List.suffix_rfl hstart

theorem cut?_of_passes {mark u w : List Char} (h : Passes mark u w) :
    Text.cut? mark (u ++ w) = (Text.cut? mark w).map fun (before, rest) => (u ++ before, rest) := by
  induction u with
  | nil => simp
  | cons c u ih =>
    rw [List.cons_append, Text.cut?, h.after?_eq_none, ih h.tail]
    simp [Text.consFirst, Function.comp_def]

theorem erase_of_passes {mark u w : List Char} (h : Passes mark u w) :
    Slot.erase mark (u ++ w) = u ++ Slot.erase mark w := by
  induction u with
  | nil => rfl
  | cons c u ih =>
    rw [List.cons_append, Slot.erase, h.after?_eq_none]
    simp only [ih h.tail, List.cons_append]

theorem after?_append_self (mark w : List Char) : Text.after? mark (mark ++ w) = some w :=
  Text.after?_eq_some_iff.2 rfl

theorem cut?_append_self {mark : List Char} (h : mark ≠ []) (w : List Char) :
    Text.cut? mark (mark ++ w) = some ([], w) := by
  obtain ⟨c, rest, rfl⟩ := List.exists_cons_of_ne_nil h
  have hafter := after?_append_self (c :: rest) w
  rw [List.cons_append] at hafter ⊢
  rw [Text.cut?, hafter]

theorem erase_append_self {mark : List Char} (h : mark ≠ []) (w : List Char) :
    Slot.erase mark (mark ++ w) = Slot.erase mark w := by
  obtain ⟨c, rest, rfl⟩ := List.exists_cons_of_ne_nil h
  have hafter := after?_append_self (c :: rest) w
  rw [List.cons_append] at hafter ⊢
  have hlt : w.length < (c :: (rest ++ w)).length := by
    rw [List.length_cons, List.length_append]
    omega
  rw [Slot.erase, hafter]
  simp only
  rw [if_pos hlt]

/-! ## Cutting at marks -/

/-- What stands before and after the first symbol of a mark. -/
def cut? (k : Mark) : Marked → Option (Marked × Marked)
  | [] => none
  | x :: d =>
    if x = .inr k then some ([], d)
    else (cut? k d).map fun (before, rest) => (x :: before, rest)

theorem cut?_eq_none {k : Mark} {d : Marked} (h : .inr k ∉ d) : d.cut? k = none := by
  induction d with
  | nil => rfl
  | cons x d ih =>
    simp only [List.mem_cons, not_or] at h
    rw [cut?, if_neg (Ne.symm h.1), ih h.2]
    rfl

theorem cut?_append {k : Mark} {a : Marked} (h : .inr k ∉ a) (b : Marked) :
    cut? k (a ++ .inr k :: b) = some (a, b) := by
  induction a with
  | nil => simp [cut?]
  | cons x a ih =>
    simp only [List.mem_cons, not_or] at h
    rw [List.cons_append, cut?, if_neg (Ne.symm h.1), ih h.2]
    rfl

theorem eq_append_of_cut? {k : Mark} {d before rest : Marked} (h : d.cut? k = some (before, rest)) :
    d = before ++ .inr k :: rest := by
  induction d generalizing before with
  | nil => cases h
  | cons x d ih =>
    rw [cut?] at h
    split at h
    · rename_i hx
      cases h
      rw [hx]
      rfl
    · obtain ⟨⟨b, r⟩, hcut, heq⟩ := Option.map_eq_some_iff.1 h
      cases heq
      rw [ih hcut]
      rfl

/-- In a sound text, cutting at a mark cuts at its symbol. -/
theorem Sound.cut?_text {d : Marked} (h : d.Sound) {k : Mark} (hk : Mark.Proper k.name) :
    Text.cut? k.text d.text = (d.cut? k).map fun (before, rest) => (before.text, rest.text) := by
  induction d with
  | nil => simp [Text.cut?, cut?, k.text_ne_nil]
  | cons x d ih =>
    rw [text_cons, cut?]
    split
    · rename_i hx
      rw [hx]
      exact cut?_append_self k.text_ne_nil (text d)
    · rename_i hx
      rw [cut?_of_passes (h.passes hk hx), ih h.tail]
      simp [Function.comp_def]

/-- In a sound text, erasing a mark erases its symbols. -/
theorem Sound.erase_text {d : Marked} (h : d.Sound) {k : Mark} (hk : Mark.Proper k.name) :
    Slot.erase k.text d.text = text (d.filter (· ≠ .inr k)) := by
  induction d with
  | nil => simp [Slot.erase]
  | cons x d ih =>
    rw [text_cons]
    by_cases hx : x = .inr k
    · rw [hx, List.filter_cons_of_neg (by simp)]
      exact (erase_append_self k.text_ne_nil (text d)).trans (ih h.tail)
    · rw [erase_of_passes (h.passes hk hx), ih h.tail, List.filter_cons_of_pos (by simpa using hx),
        text_cons]

/-! ## Resolving slots -/

/-- The first opening symbol of a slot, and all up to the first closing one behind it, replaced. -/
def fill (d : Marked) (name : String) (content : Marked) : Marked :=
  match d.cut? (.opening name) with
  | none => d
  | some (before, rest) =>
    match rest.cut? (.closing name) with
    | none => d
    | some (_, after) => before ++ content ++ after

/-- All symbols of a slot taken away. -/
def unmark (name : String) (d : Marked) : Marked :=
  d.filter fun x => x ≠ .inr (.opening name) ∧ x ≠ .inr (.closing name)

/-- One occurrence of a slot resolved. -/
def resolve (plugs : String → Option Marked) (d : Marked) (name : String) : Marked :=
  match plugs name with
  | some content => d.fill name content
  | none => d.unmark name

theorem fill_eq_self {d : Marked} {name : String} (h : .inr (.opening name) ∉ d)
    (content : Marked) : d.fill name content = d := by
  rw [fill, cut?_eq_none h]

theorem fill_append {name : String} {a c : Marked} (ha : .inr (.opening name) ∉ a)
    (hc : .inr (.closing name) ∉ c) (b content : Marked) :
    fill (a ++ .inr (.opening name) :: (c ++ .inr (.closing name) :: b)) name content =
      a ++ content ++ b := by
  rw [fill, cut?_append ha]
  simp only [cut?_append hc]

theorem unmark_append (name : String) (d d' : Marked) :
    unmark name (d ++ d') = d.unmark name ++ d'.unmark name :=
  List.filter_append ..

theorem unmark_ofText (name : String) (t : List Char) : (ofText t).unmark name = ofText t := by
  simp [unmark, ofText, List.filter_eq_self]

theorem Sound.fill_text {d : Marked} (h : d.Sound) {name : String} (hname : Mark.Proper name)
    (content : Marked) : Slot.fill name content.text d.text = text (d.fill name content) := by
  have hopening : (Slot.opening name).toList = (Mark.opening name).text := rfl
  have hclosing : (Slot.closing name).toList = (Mark.closing name).text := rfl
  rw [Slot.fill, fill, hopening, hclosing, h.cut?_text (k := .opening name) hname]
  cases hcut : d.cut? (.opening name) with
  | none => rfl
  | some parts =>
    obtain ⟨before, rest⟩ := parts
    have hrest : Sound (.inr (.opening name) :: rest) :=
      h.suffix (eq_append_of_cut? hcut ▸ List.suffix_append _ _)
    simp only [Option.map_some]
    have hpasses := hrest.passes (k := .closing name) hname (by simp)
    rw [glyphs] at hpasses
    rw [cut?_of_passes hpasses, hrest.tail.cut?_text (k := .closing name) hname]
    cases rest.cut? (.closing name) with
    | none => rfl
    | some parts => simp

/-- Taking symbols away does not break up text, so what is sound without them was sound. -/
theorem Sound.of_filter {d : Marked} {p : Char ⊕ Mark → Bool} (hp : ∀ c, p (.inl c))
    (h : Sound (d.filter p)) (hproper : ∀ {k}, .inr k ∈ d → Mark.Proper k.name) : d.Sound where
  core := by
    rintro ⟨a, b, rfl⟩
    refine h.core ⟨a.filter p, b.filter p, ?_⟩
    have hcore : (ofText Mark.core).filter p = ofText Mark.core := by
      simp [ofText, List.filter_eq_self, hp]
    rw [List.filter_append, List.filter_append, hcore]
  proper := hproper

theorem Sound.unmark_text {d : Marked} (h : d.Sound) {name : String} (hname : Mark.Proper name)
    (hd : Sound (d.unmark name)) :
    Slot.erase (Slot.closing name).toList (Slot.erase (Slot.opening name).toList d.text) =
      text (d.unmark name) := by
  have hopening : (Slot.opening name).toList = (Mark.opening name).text := rfl
  have hclosing : (Slot.closing name).toList = (Mark.closing name).text := rfl
  have hunmark : d.unmark name =
      (d.filter (· ≠ .inr (.opening name))).filter (· ≠ .inr (.closing name)) := by
    simp [unmark, List.filter_filter, and_comm]
  have hbetween : Sound (d.filter (· ≠ .inr (.opening name))) :=
    .of_filter (by simp) (hunmark ▸ hd) fun hk => h.proper ((List.mem_filter.1 hk).1)
  rw [hopening, hclosing, h.erase_text (k := .opening name) hname,
    hbetween.erase_text (k := .closing name) hname, hunmark]

/-- At no time while slots are resolved one after the other does the text between marks spell a
mark, and the names of all marks can be told from the rest. -/
def Unforged (plugs : String → Option Marked) : (slots : List String) → Marked → Prop
  | [], d => d.Sound
  | name :: slots, d => d.Sound ∧ Mark.Proper name ∧ Unforged plugs slots (d.resolve plugs name)

instance Unforged.decidable (plugs : String → Option Marked) :
    (slots : List String) → (d : Marked) → Decidable (Unforged plugs slots d)
  | [], d => inferInstanceAs (Decidable d.Sound)
  | name :: slots, d =>
    have := Unforged.decidable plugs slots (d.resolve plugs name)
    inferInstanceAs (Decidable (d.Sound ∧ Mark.Proper name ∧ Unforged plugs slots _))

theorem Unforged.sound {plugs : String → Option Marked} {slots : List String} {d : Marked}
    (h : Unforged plugs slots d) : d.Sound := by
  cases slots with
  | nil => exact h
  | cons name slots => exact h.1

theorem Unforged.sound_foldl {plugs : String → Option Marked} {slots : List String} {d : Marked}
    (h : Unforged plugs slots d) : Sound (slots.foldl (resolve plugs) d) := by
  induction slots generalizing d with
  | nil => exact h
  | cons name slots ih => exact ih h.2.2

/-- Resolving the slots of a text resolves the symbols, unless marks are forged. -/
theorem Unforged.foldl_resolve_text {table : Table String} {plugs : String → Option Marked}
    (hplugs : ∀ name, (table.get? name).map String.toList = (plugs name).map text)
    {slots : List String} {d : Marked} (h : Unforged plugs slots d) :
    slots.foldl (Slot.resolve table) d.text = text (slots.foldl (resolve plugs) d) := by
  induction slots generalizing d with
  | nil => rfl
  | cons name slots ih =>
    obtain ⟨hsound, hname, hrest⟩ := h
    have hstep : Slot.resolve table d.text name = text (d.resolve plugs name) := by
      have hplug := hplugs name
      have hnext := hrest.sound
      rw [Slot.resolve, resolve]
      rw [resolve] at hnext
      cases hp : plugs name with
      | none =>
        rw [hp, Option.map_none, Option.map_eq_none_iff] at hplug
        rw [hp] at hnext
        rw [hplug]
        exact hsound.unmark_text hname hnext
      | some content =>
        rw [hp] at hplug
        obtain ⟨stored, hstored, heq⟩ := Option.map_eq_some_iff.1 hplug
        rw [hstored]
        simp only [heq]
        exact hsound.fill_text hname content
    rw [List.foldl_cons, List.foldl_cons, hstep]
    exact ih hrest

/-! ## Marks that are left -/

theorem eq_ofText {d : Marked} (h : ∀ k, .inr k ∉ d) : d = ofText d.text := by
  induction d with
  | nil => rfl
  | cons x d ih =>
    cases x with
    | inl c =>
      rw [text_cons]
      exact congrArg _ (ih fun k hk => h k (List.mem_cons_of_mem _ hk))
    | inr k => exact absurd (List.mem_cons_self ..) (h k)

/-- A sound text holds the start of a mark just if it holds a mark. -/
theorem Sound.infix_text_iff {d : Marked} (h : d.Sound) :
    '/' :: Mark.core <:+: d.text ↔ ∃ k, .inr k ∈ d := by
  constructor
  · intro hin
    refine Classical.byContradiction fun hnone => h.core ?_
    rw [eq_ofText (not_exists.1 hnone)]
    exact ((List.suffix_cons _ _).isInfix.trans hin).map _
  · rintro ⟨k, hk⟩
    obtain ⟨a, b, rfl⟩ := List.append_of_mem hk
    refine ⟨text a, k.name.toList ++ k.tail ++ text b, ?_⟩
    simp [glyphs, Mark.text_eq]

/-- The marks of a text on their own. -/
def bare (d : Marked) : Marked := d.filter Sum.isRight

theorem bare_eq_nil_iff {d : Marked} : d.bare = [] ↔ ∀ k, .inr k ∉ d := by
  simp only [bare, List.filter_eq_nil_iff]
  constructor
  · intro h k hk
    exact h _ hk rfl
  · rintro h (c | k) hx
    · simp
    · exact absurd hx (h k)

theorem cut?_bare (k : Mark) (d : Marked) :
    d.bare.cut? k = (d.cut? k).map fun (before, rest) => (bare before, bare rest) := by
  induction d with
  | nil => rfl
  | cons x d ih =>
    rw [bare] at ih ⊢
    cases x with
    | inl c =>
      rw [List.filter_cons_of_neg (by simp), ih, cut?, if_neg (by simp)]
      cases cut? k d <;> rfl
    | inr j =>
      rw [List.filter_cons_of_pos (by simp), cut?, cut?, ih]
      split
      · rfl
      · cases cut? k d <;> rfl

theorem bare_fill (d : Marked) (name : String) (content : Marked) :
    (d.fill name content).bare = d.bare.fill name content.bare := by
  rw [fill, fill, cut?_bare]
  cases d.cut? (.opening name) with
  | none => rfl
  | some parts =>
    simp only [Option.map_some, cut?_bare]
    cases parts.2.cut? (.closing name) with
    | none => rfl
    | some parts => simp [bare]

theorem bare_unmark (name : String) (d : Marked) : (d.unmark name).bare = d.bare.unmark name := by
  simp only [bare, unmark, List.filter_filter, Bool.and_comm]

/-- Which marks are left of a page does not depend on the text between them. -/
theorem bare_foldl_resolve (plugs : String → Option Marked) (slots : List String) (d : Marked) :
    (slots.foldl (resolve plugs) d).bare =
      slots.foldl (resolve fun name => (plugs name).map bare) d.bare := by
  induction slots generalizing d with
  | nil => rfl
  | cons name slots ih =>
    rw [List.foldl_cons, List.foldl_cons, ih]
    congr 1
    rw [resolve, resolve]
    cases plugs name with
    | none => exact bare_unmark name d
    | some content => exact bare_fill d name content

end Marked

end XmlTemplate.Slot
