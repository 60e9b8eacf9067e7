import XmlTemplate.Proofs.Slot.Marked

/-!
# Pages as trees

A page whose slots are nodes of a tree. On the tree it is plain what plugs do: a node whose slot
has a plug gives way to it, and any other node stands for its content. Resolving the marks of the
page gives the same text, as long as no slot is within a slot of its name and every slot of the
page is resolved often enough.
-/

namespace XmlTemplate.Slot

/-- A page, with its slots as nodes around their content. -/
inductive Layout where
  | nil
  | text (text : String) (rest : Layout)
  | slot (name : String) (content rest : Layout)
  deriving Repr, DecidableEq

namespace Layout

/-- A page without slots. -/
def ofText (t : String) : Layout := .text t .nil

/-- One page behind another. -/
def append : Layout → Layout → Layout
  | nil, l => l
  | text t rest, l => text t (rest.append l)
  | slot name content rest, l => slot name content (rest.append l)

/-- The page with what its slots are plugged with. -/
def output (plugs : String → Option String) : Layout → String
  | nil => ""
  | text t rest => t ++ rest.output plugs
  | slot name content rest => (plugs name).getD (content.output plugs) ++ rest.output plugs

/-- Number of slots of a name, at all depths. -/
def count (name : String) : Layout → Nat
  | nil => 0
  | text _ rest => rest.count name
  | slot n content rest => (if n = name then 1 else 0) + content.count name + rest.count name

/-- No slot is within a slot of its name. -/
def Placed : Layout → Prop
  | nil => True
  | text _ rest => rest.Placed
  | slot name content rest => content.count name = 0 ∧ content.Placed ∧ rest.Placed

/-- The text of a page without slots. -/
def text? : Layout → Option String
  | nil => some ""
  | text t rest => rest.text?.map (t ++ ·)
  | slot .. => none

/-- There is nothing in a page, not even a slot. -/
def isEmpty : Layout → Bool
  | nil => true
  | text t rest => t == "" && rest.isEmpty
  | slot .. => false

/-- The page with the marks of its slots. -/
def marked : Layout → Marked
  | nil => []
  | text t rest => Marked.ofText t.toList ++ rest.marked
  | slot name content rest =>
    .inr (.opening name) :: (content.marked ++ .inr (.closing name) :: rest.marked)

@[simp] theorem marked_append (l l' : Layout) : (l.append l').marked = l.marked ++ l'.marked := by
  induction l with
  | nil => rfl
  | text t rest ih => simp [append, marked, ih]
  | slot name content rest _ ih => simp [append, marked, ih]

@[simp] theorem output_append (plugs : String → Option String) (l l' : Layout) :
    (l.append l').output plugs = l.output plugs ++ l'.output plugs := by
  induction l with
  | nil => simp [append, output]
  | text t rest ih => simp [append, output, ih, String.append_assoc]
  | slot name content rest _ ih => simp [append, output, ih, String.append_assoc]

@[simp] theorem count_append (name : String) (l l' : Layout) :
    (l.append l').count name = l.count name + l'.count name := by
  induction l with
  | nil => simp [append, count]
  | text t rest ih => simpa [append, count] using ih
  | slot n content rest _ ih => simp [append, count, ih, Nat.add_assoc]

@[simp] theorem placed_append {l l' : Layout} :
    (l.append l').Placed ↔ l.Placed ∧ l'.Placed := by
  induction l with
  | nil => simp [append, Placed]
  | text t rest ih => simpa [append, Placed] using ih
  | slot name content rest _ ih => simp [append, Placed, ih, and_assoc]

theorem inr_mem_marked_iff {k : Mark} {l : Layout} : .inr k ∈ l.marked ↔ l.count k.name ≠ 0 := by
  induction l with
  | nil => simp [marked, count]
  | text t rest ih => simpa [marked, count, Marked.ofText] using ih
  | slot name content rest ihc ihr =>
    have hk : (k = .opening name ∨ k = .closing name) ↔ name = k.name := by
      cases k <;> simp [Mark.name, eq_comm]
    simp only [marked, count, List.mem_cons, List.mem_append, Sum.inr.injEq, ihc, ihr]
    split <;> grind

/-! ## Single steps -/

/-- The slots of a name replaced by their content. -/
def unwrap (name : String) : Layout → Layout
  | nil => nil
  | text t rest => text t (rest.unwrap name)
  | slot n content rest =>
    if n = name then (content.unwrap name).append (rest.unwrap name)
    else slot n (content.unwrap name) (rest.unwrap name)

/-- The first slot of a name replaced by a text. -/
def replace (name t : String) : Layout → Layout
  | nil => nil
  | text u rest => text u (rest.replace name t)
  | slot n content rest =>
    if n = name then text t rest
    else if content.count name = 0 then slot n content (rest.replace name t)
    else slot n (content.replace name t) rest

/-- One occurrence of a slot resolved. -/
def settle (plugs : String → Option String) (l : Layout) (name : String) : Layout :=
  match plugs name with
  | some t => l.replace name t
  | none => l.unwrap name

theorem marked_unwrap (name : String) (l : Layout) :
    (l.unwrap name).marked = l.marked.unmark name := by
  induction l with
  | nil => rfl
  | text t rest ih =>
    rw [unwrap, marked, marked, Marked.unmark_append, Marked.unmark_ofText, ih]
  | slot n content rest ihc ihr =>
    rw [unwrap]
    split
    · rename_i hn
      simp [marked, ihc, ihr, hn, Marked.unmark]
    · rename_i hn
      simp [marked, ihc, ihr, hn, Marked.unmark]

theorem replace_eq_self {name : String} {l : Layout} (h : l.count name = 0) (t : String) :
    l.replace name t = l := by
  induction l with
  | nil => rfl
  | text u rest ih => rw [replace, ih h]
  | slot n content rest _ ih =>
    simp only [count, Nat.add_eq_zero_iff, ite_eq_right_iff, Nat.one_ne_zero, imp_false] at h
    rw [replace, if_neg h.1.1, if_pos h.1.2, ih h.2]

/-- The marks of the first slot of a name are the first ones of the name in the page. -/
theorem exists_marked_replace {name : String} {l : Layout} (h : l.Placed)
    (hname : l.count name ≠ 0) (t : String) :
    ∃ a c b, l.marked = a ++ .inr (.opening name) :: (c ++ .inr (.closing name) :: b) ∧
      .inr (.opening name) ∉ a ∧ .inr (.closing name) ∉ c ∧
      (l.replace name t).marked = a ++ Marked.ofText t.toList ++ b := by
  induction l with
  | nil => exact absurd rfl hname
  | text u rest ih =>
    obtain ⟨a, c, b, hl, ha, hc, hr⟩ := ih h hname
    refine ⟨Marked.ofText u.toList ++ a, c, b, ?_, ?_, hc, ?_⟩
    · simp [marked, hl]
    · simpa [Marked.ofText] using ha
    · simp [replace, marked, hr]
  | slot n content rest ihc ihr =>
    obtain ⟨hnested, hcontent, hrest⟩ := h
    rw [replace]
    split
    · rename_i hn
      subst hn
      refine ⟨[], content.marked, rest.marked, rfl, by simp, ?_, rfl⟩
      rw [inr_mem_marked_iff]
      exact not_not_intro hnested
    · rename_i hn
      split
      · rename_i hzero
        have hname : rest.count name ≠ 0 := by simpa [count, hn, hzero] using hname
        obtain ⟨a, c, b, hl, ha, hc, hr⟩ := ihr hrest hname
        refine ⟨.inr (.opening n) :: (content.marked ++ .inr (.closing n) :: a), c, b, ?_, ?_,
          hc, ?_⟩
        · simp [marked, hl]
        · simp [ha, Ne.symm hn, inr_mem_marked_iff, Mark.name, hzero]
        · simp [marked, hr]
      · rename_i hsome
        obtain ⟨a, c, b, hl, ha, hc, hr⟩ := ihc hcontent hsome
        refine ⟨.inr (.opening n) :: a, c, b ++ .inr (.closing n) :: rest.marked, ?_, ?_, hc, ?_⟩
        · simp [marked, hl]
        · simp [ha, Ne.symm hn]
        · simp [marked, hr]

theorem marked_replace {name : String} {l : Layout} (h : l.Placed) (t : String) :
    (l.replace name t).marked = l.marked.fill name (Marked.ofText t.toList) := by
  by_cases hname : l.count name = 0
  · rw [replace_eq_self hname, Marked.fill_eq_self]
    rw [inr_mem_marked_iff]
    exact not_not_intro hname
  · obtain ⟨a, c, b, hl, ha, hc, hr⟩ := exists_marked_replace h hname t
    rw [hr, hl, Marked.fill_append ha hc]

/-- What plugs are as marked texts. -/
def markedPlugs (plugs : String → Option String) (name : String) : Option Marked :=
  (plugs name).map fun t => Marked.ofText t.toList

/-- Resolving a slot of a tree resolves its marks. -/
theorem marked_settle {l : Layout} (h : l.Placed) (plugs : String → Option String)
    (name : String) : (l.settle plugs name).marked = l.marked.resolve (markedPlugs plugs) name := by
  rw [settle, Marked.resolve, markedPlugs]
  cases plugs name with
  | some t => exact marked_replace h t
  | none => exact marked_unwrap name l

/-! ## Counts -/

theorem count_unwrap (name other : String) (l : Layout) :
    (l.unwrap name).count other = if name = other then 0 else l.count other := by
  induction l with
  | nil => simp [unwrap, count]
  | text t rest ih => exact ih
  | slot n content rest ihc ihr =>
    rw [unwrap]
    split <;> grind [count, count_append]

theorem count_replace_le (name other t : String) (l : Layout) :
    (l.replace name t).count other ≤ l.count other - if name = other then 1 else 0 := by
  induction l with
  | nil => simp [replace, count]
  | text u rest ih => exact ih
  | slot n content rest ihc ihr =>
    rw [replace]
    split
    · rename_i hn
      subst hn
      simp only [count]
      omega
    · split
      all_goals
        simp only [count]
        split at * <;> split <;> simp_all <;> omega

theorem count_settle_le (plugs : String → Option String) (name other : String) (l : Layout) :
    (l.settle plugs name).count other ≤ l.count other - if name = other then 1 else 0 := by
  rw [settle]
  cases plugs name with
  | some t => exact count_replace_le name other t l
  | none =>
    rw [count_unwrap]
    split <;> omega

theorem placed_unwrap {l : Layout} (h : l.Placed) (name : String) : (l.unwrap name).Placed := by
  induction l with
  | nil => trivial
  | text t rest ih => exact ih h
  | slot n content rest ihc ihr =>
    obtain ⟨hnested, hcontent, hrest⟩ := h
    rw [unwrap]
    split
    · exact placed_append.2 ⟨ihc hcontent, ihr hrest⟩
    · refine ⟨?_, ihc hcontent, ihr hrest⟩
      rw [count_unwrap, hnested, ite_self]

theorem placed_replace {l : Layout} (h : l.Placed) (name t : String) :
    (l.replace name t).Placed := by
  induction l with
  | nil => trivial
  | text u rest ih => exact ih h
  | slot n content rest ihc ihr =>
    obtain ⟨hnested, hcontent, hrest⟩ := h
    rw [replace]
    split
    · exact hrest
    · split
      · exact ⟨hnested, hcontent, ihr hrest⟩
      · refine ⟨Nat.le_zero.1 ?_, ihc hcontent, hrest⟩
        have hle := count_replace_le name n t content
        omega

theorem placed_settle {l : Layout} (h : l.Placed) (plugs : String → Option String)
    (name : String) : (l.settle plugs name).Placed := by
  rw [settle]
  cases plugs name with
  | some t => exact placed_replace h name t
  | none => exact placed_unwrap h name

/-! ## Outputs -/

theorem output_unwrap {plugs : String → Option String} {name : String} (h : plugs name = none)
    (l : Layout) : (l.unwrap name).output plugs = l.output plugs := by
  induction l with
  | nil => rfl
  | text t rest ih => rw [unwrap, output, output, ih]
  | slot n content rest ihc ihr =>
    rw [unwrap]
    split
    · rename_i hn
      rw [output_append, ihc, ihr, output, hn, h, Option.getD_none]
    · rw [output, output, ihc, ihr]

theorem output_replace {plugs : String → Option String} {name t : String} (h : plugs name = some t)
    (l : Layout) : (l.replace name t).output plugs = l.output plugs := by
  induction l with
  | nil => rfl
  | text u rest ih => rw [replace, output, output, ih]
  | slot n content rest ihc ihr =>
    rw [replace]
    split
    · rename_i hn
      rw [output, output, hn, h, Option.getD_some]
    · split
      · rw [output, output, ihr]
      · rw [output, output, ihc]

theorem output_settle (plugs : String → Option String) (name : String) (l : Layout) :
    (l.settle plugs name).output plugs = l.output plugs := by
  rw [settle]
  cases h : plugs name with
  | some t => exact output_replace h l
  | none => exact output_unwrap h l

/-! ## Whole pages -/

theorem marked_of_count_eq_zero {l : Layout} (h : ∀ name, l.count name = 0)
    (plugs : String → Option String) : l.marked = Marked.ofText (l.output plugs).toList := by
  induction l with
  | nil => rfl
  | text t rest ih =>
    rw [marked, output, ih h, String.toList_append, Marked.ofText_append]
  | slot name content rest _ _ =>
    have hname := h name
    simp [count] at hname

/-- Resolving the slots of a page on its marks gives what the tree says. -/
theorem foldl_resolve_marked {l : Layout} (h : l.Placed) (plugs : String → Option String)
    {slots : List String} (hcount : ∀ name, l.count name ≤ slots.count name) :
    slots.foldl (Marked.resolve (markedPlugs plugs)) l.marked =
      Marked.ofText (l.output plugs).toList := by
  induction slots generalizing l with
  | nil => exact marked_of_count_eq_zero (fun name => Nat.le_zero.1 (hcount name)) plugs
  | cons name slots ih =>
    rw [List.foldl_cons, ← marked_settle h, ← output_settle plugs name l]
    apply ih (placed_settle h plugs name)
    intro other
    have hle := count_settle_le plugs name other l
    have hslots := hcount other
    rw [List.count_cons] at hslots
    by_cases heq : name = other <;> simp_all <;> omega

end Layout

end XmlTemplate.Slot
