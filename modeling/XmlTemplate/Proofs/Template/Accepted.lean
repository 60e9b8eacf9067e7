import XmlTemplate.Proofs.Template.Matching
import XmlTemplate.Proofs.Template.Rename
import XmlTemplate.Proofs.Template.Tree

/-!
# Documents that are compiled

A document is compiled just if each of its elements has what is asked of it: the values of its
control attributes that hold expressions are parsed, a control tag has the attribute that it needs,
and no two of its control attributes exclude each other. The lead of the control namespace, which
the root may declare, decides what each name means. The expressions of a compiled template are those
that their sources are parsed to.
-/

namespace XmlTemplate

/-- The expressions that control attributes hold. -/
def Directives.expressions (d : Directives) : List Directive :=
  [d.walk, d.cond, d.text, d.mute, d.void, d.auto, d.append].filterMap id

/-- The expressions that the attributes of a kind hold. -/
def TagKind.expressions : TagKind → List Directive
  | attr _ value | param _ value | mount _ value => value.toList
  | _ => []

/-- All expressions that are stored with a tag. -/
def Tag.expressions (t : Tag) : List Directive := t.directives.expressions ++ t.kind.expressions

/-- One of the control attributes that exclude others is there. -/
def Directives.Has (d : Directives) : String → Prop
  | "walk" => d.walk.isSome
  | "macro" => d.macroName.isSome
  | "call" => d.call.isSome
  | "slot" => d.slot.isSome
  | "plug" => d.plug.isSome
  | _ => False

namespace Compile

/-! ## What is asked of elements -/

/-- The value is an expression, once the references in it are replaced. -/
def Parses (value : String) : Prop := ∃ expr, Expr.parse (Text.unescape value) = .ok expr

/-- Control attributes whose values are expressions. -/
def expressionNames : List String := ["walk", "cond", "text", "mute", "void", "auto", "append"]

/-- Control attributes that exclude each other. -/
def exclusions : List (String × String) :=
  [("walk", "macro"), ("macro", "call"), ("slot", "plug")]

/-- Control tags with the attribute that they must have. -/
def neededNames : List (String × String) :=
  [("include", "file"), ("cdata", "file"), ("attr", "name"), ("param", "name"), ("feed", "class"),
    ("dictionary", "file"), ("mount", "target")]

/-- Control tags whose value is an expression, if they have one. -/
def valuedNames : List String := ["attr", "param", "mount"]

namespace Setting

variable (s : Setting)

/-- Attributes of this name are no declaration and no control attributes. -/
def IsPlain (key : String) : Prop := some key ≠ s.declaration ∧ ∀ name, key ≠ s.lead ++ name

/-- The element has the control attribute, with this value as it is written. -/
def HasControl (e : Element) (name value : String) : Prop :=
  some (s.lead ++ name) ≠ s.declaration ∧ (s.lead ++ name, value) ∈ e.attributes

/-- What is asked of an element for it to be compiled, apart from the elements in it. -/
structure Accepts (e : Element) : Prop where
  expressions : ∀ name ∈ expressionNames, ∀ value, s.HasControl e name value → Parses value
  needed : ∀ p ∈ neededNames, e.name = s.lead ++ p.1 →
    s.IsPlain p.2 ∧ ∃ value, (p.2, value) ∈ e.attributes
  value : ∀ suffix ∈ valuedNames, e.name = s.lead ++ suffix → s.IsPlain "value" →
    ∀ value, e.attribute? "value" = some value → Parses value
  exclusions : ∀ p ∈ exclusions,
    ¬((∃ value, s.HasControl e p.1 value) ∧ ∃ value, s.HasControl e p.2 value)

end Setting

variable {s : Setting} {line : Nat} {attributes : List (String × String)}

/-! ## Attributes -/

theorem mem_controlAttributes_iff {name value : String} :
    (name, value) ∈ controlAttributes s attributes ↔
      ∃ raw, some (s.lead ++ name) ≠ s.declaration ∧ (s.lead ++ name, raw) ∈ attributes ∧
        value = Text.unescape raw := by
  rw [controlAttributes, List.mem_filterMap]
  constructor
  · rintro ⟨⟨key, raw⟩, hmem, h⟩
    simp only at h
    split at h
    · cases h
    · rename_i hdeclared
      obtain ⟨suffix, hsuffix, h⟩ := Option.map_eq_some_iff.1 h
      cases h
      rw [afterLead?_eq_some_iff] at hsuffix
      subst hsuffix
      exact ⟨raw, hdeclared, hmem, rfl⟩
  · rintro ⟨raw, hdeclared, hmem, rfl⟩
    refine ⟨_, hmem, ?_⟩
    have hafter : afterLead? s.lead (s.lead ++ name) = some name := afterLead?_eq_some_iff.2 rfl
    simp [hdeclared, hafter]

theorem isPlain_iff {key : String} :
    s.IsPlain key ↔ (some key != s.declaration && (afterLead? s.lead key).isNone) = true := by
  rw [Bool.and_eq_true, bne_iff_ne, Option.isNone_iff_eq_none, Option.eq_none_iff_forall_ne_some]
  refine and_congr Iff.rfl (forall_congr' fun name => not_congr ?_)
  exact afterLead?_eq_some_iff.symm

theorem lookup_filter (p : String → Bool) (key : String) :
    (attributes.filter fun q => p q.1).lookup key =
      if p key then attributes.lookup key else none := by
  induction attributes with
  | nil => simp
  | cons q attributes ih =>
    obtain ⟨other, raw⟩ := q
    by_cases hkey : key = other
    · subst hkey
      by_cases hp : p key <;> simp [hp, ih]
    · have hskip : (key == other) = false := beq_false_of_ne hkey
      by_cases hp : p other <;> simp [hp, hskip, List.lookup_cons, ih]

/-- The first plain attribute of a name is the first attribute of the name, if this is plain. -/
theorem lookup_plainAttributes_eq_some_iff {key value : String} :
    (plainAttributes s attributes).lookup key = some value ↔
      s.IsPlain key ∧ attributes.lookup key = some value := by
  have hlookup := @lookup_filter attributes
    (fun key => some key != s.declaration && (afterLead? s.lead key).isNone) key
  rw [isPlain_iff, plainAttributes]
  refine (Eq.congr_left hlookup).trans ?_
  split <;> simp [*]

theorem lookup_take {key name : String} (h : key ≠ name) :
    (take name attributes).2.lookup key = attributes.lookup key := by
  simp only [take]
  induction attributes with
  | nil => rfl
  | cons p attributes ih =>
    obtain ⟨other, raw⟩ := p
    by_cases hname : other = name
    · have hskip : (key == name) = false := beq_false_of_ne h
      simp [hname, List.lookup_cons, hskip]
    · simp [hname, List.lookup_cons, ih]

/-! ## Directives -/

theorem exists_directive_iff {source : String} :
    (∃ d, directive s line source = .ok d) ↔ ∃ expr, Expr.parse source = .ok expr := by
  unfold directive
  cases Expr.parse source with
  | error e => exact ⟨nofun, nofun⟩
  | ok expr => exact ⟨fun _ => ⟨expr, rfl⟩, fun _ => ⟨_, rfl⟩⟩

theorem of_directive {source : String} {d : Directive} (h : directive s line source = .ok d) :
    Expr.parse d.source = .ok d.expr := by
  unfold directive at h
  split at h
  · rename_i hparse
    cases h
    exact hparse
  · cases h

theorem exists_addDirective_iff {d : Directives} {name value : String} :
    (∃ d', addDirective s line d (name, value) = .ok d') ↔
      (name ∈ expressionNames → ∃ expr, Expr.parse value = .ok expr) := by
  unfold addDirective
  split
  case h_8 heq | h_9 heq | h_10 heq | h_11 heq | h_12 heq =>
    cases heq
    exact ⟨fun _ h => absurd h (by decide), fun _ => ⟨_, rfl⟩⟩
  case h_13 =>
    refine ⟨fun _ h => ?_, fun _ => ⟨_, rfl⟩⟩
    simp_all [expressionNames]
  all_goals
    rename_i heq
    cases heq
    rw [Outcome.exists_bind_iff]
    exact ⟨fun ⟨q, hq, _⟩ _ => exists_directive_iff.1 ⟨q, hq⟩, fun h =>
      (exists_directive_iff.2 (h (by decide))).imp fun q hq => ⟨hq, _, rfl⟩⟩

theorem has_addDirective {d d' : Directives} {name value : String}
    (h : addDirective s line d (name, value) = .ok d') {other : String}
    (hother : other ∈ ["walk", "macro", "call", "slot", "plug"]) :
    d'.Has other ↔ d.Has other ∨ name = other := by
  unfold addDirective at h
  split at h
  case h_8 heq | h_9 heq | h_10 heq | h_11 heq | h_12 heq =>
    cases heq
    cases h
    simp only [List.mem_cons, List.not_mem_nil, or_false] at hother
    rcases hother with rfl | rfl | rfl | rfl | rfl <;> simp [Directives.Has]
  case h_13 =>
    cases h
    have hne : name ≠ other := by
      rintro rfl
      simp_all
    simp [hne]
  all_goals
    rename_i heq
    cases heq
    obtain ⟨q, -, h⟩ := Outcome.of_bind h
    cases h
    simp only [List.mem_cons, List.not_mem_nil, or_false] at hother
    rcases hother with rfl | rfl | rfl | rfl | rfl <;> simp [Directives.Has]

theorem mem_expressions_iff {d : Directives} {q : Directive} :
    q ∈ d.expressions ↔ d.walk = some q ∨ d.cond = some q ∨ d.text = some q ∨ d.mute = some q ∨
      d.void = some q ∨ d.auto = some q ∨ d.append = some q := by
  simp [Directives.expressions, eq_comm]

/-- A control attribute adds at most its own expression. -/
theorem mem_expressions_addDirective {d d' : Directives} {name value : String}
    (h : addDirective s line d (name, value) = .ok d') {q : Directive} (hq : q ∈ d'.expressions) :
    q ∈ d.expressions ∨ directive s line value = .ok q := by
  rw [mem_expressions_iff] at hq ⊢
  unfold addDirective at h
  split at h
  case h_8 | h_9 | h_10 | h_11 | h_12 | h_13 =>
    cases h
    exact .inl hq
  all_goals
    rename_i heq
    cases heq
    obtain ⟨own, hown, h⟩ := Outcome.of_bind h
    cases h
    rw [hown]
    simp only [Option.some.injEq, Except.ok.injEq] at hq ⊢
    tauto

variable {control : List (String × String)} {d d' : Directives}

theorem exists_foldlM_addDirective_iff :
    (∃ d', control.foldlM (addDirective s line) d = .ok d') ↔
      ∀ p ∈ control, p.1 ∈ expressionNames → ∃ expr, Expr.parse p.2 = .ok expr := by
  induction control generalizing d with
  | nil => exact ⟨fun _ => nofun, fun _ => ⟨d, rfl⟩⟩
  | cons p control ih =>
    rw [List.foldlM_cons, Outcome.exists_bind_iff, List.forall_mem_cons,
      ← @exists_addDirective_iff s line d]
    constructor
    · rintro ⟨d₁, hfirst, hrest⟩
      exact ⟨⟨d₁, hfirst⟩, ih.1 hrest⟩
    · rintro ⟨⟨d₁, hfirst⟩, hrest⟩
      exact ⟨d₁, hfirst, ih.2 hrest⟩

theorem has_foldlM_addDirective (h : control.foldlM (addDirective s line) d = .ok d')
    {other : String} (hother : other ∈ ["walk", "macro", "call", "slot", "plug"]) :
    d'.Has other ↔ d.Has other ∨ ∃ value, (other, value) ∈ control := by
  induction control generalizing d with
  | nil =>
    cases h
    simp
  | cons p control ih =>
    rw [List.foldlM_cons] at h
    obtain ⟨d₁, hfirst, hrest⟩ := Outcome.of_bind h
    rw [ih hrest, has_addDirective hfirst hother, or_assoc]
    refine or_congr_right ?_
    constructor
    · rintro (rfl | ⟨value, hmem⟩)
      · exact ⟨p.2, List.mem_cons_self ..⟩
      · exact ⟨value, List.mem_cons_of_mem _ hmem⟩
    · rintro ⟨value, hmem⟩
      rcases List.mem_cons.1 hmem with rfl | hmem
      · exact .inl rfl
      · exact .inr ⟨value, hmem⟩

theorem parse_of_foldlM_addDirective (h : control.foldlM (addDirective s line) d = .ok d')
    (hd : ∀ q ∈ d.expressions, Expr.parse q.source = .ok q.expr) :
    ∀ q ∈ d'.expressions, Expr.parse q.source = .ok q.expr := by
  induction control generalizing d with
  | nil =>
    cases h
    exact hd
  | cons p control ih =>
    rw [List.foldlM_cons] at h
    obtain ⟨d₁, hfirst, hrest⟩ := Outcome.of_bind h
    refine ih hrest fun q hq => ?_
    exact (mem_expressions_addDirective hfirst hq).elim (hd q) of_directive

theorem conflict?_eq_none_iff :
    conflict? d = none ↔ ∀ p ∈ exclusions, ¬(d.Has p.1 ∧ d.Has p.2) := by
  simp only [exclusions, List.forall_mem_cons, List.not_mem_nil, false_imp_iff, implies_true,
    and_true, Directives.Has, ← Bool.and_eq_true]
  unfold conflict?
  split
  · simp_all
  · split
    · simp_all
    · split <;> simp_all

/-! ## Kinds -/

theorem exists_required_iff {tag name : String} {value : Option String} :
    (∃ a, required s line tag name value = .ok a) ↔ ∃ a, value = some a := by
  cases value with
  | none => exact ⟨nofun, nofun⟩
  | some a => exact ⟨fun _ => ⟨a, rfl⟩, fun _ => ⟨a, rfl⟩⟩

theorem exists_optional_iff {value : Option String} :
    (∃ a, optional s line value = .ok a) ↔
      ∀ raw, value = some raw → ∃ expr, Expr.parse raw = .ok expr := by
  cases value with
  | none => exact ⟨nofun, fun _ => ⟨none, rfl⟩⟩
  | some raw =>
    rw [optional, Outcome.exists_bind_iff]
    constructor
    · rintro ⟨q, hq, -⟩ _ hraw
      cases hraw
      exact exists_directive_iff.1 ⟨q, hq⟩
    · intro h
      exact (exists_directive_iff.2 (h raw rfl)).imp fun q hq => ⟨hq, _, rfl⟩

/-- A kind is found just if the tag has the attribute that it needs, and its value is an expression
if it may have one. -/
theorem exists_controlKind_iff {tag suffix : String} :
    (∃ r, controlKind s line tag suffix attributes = .ok r) ↔
      (∀ p ∈ neededNames, suffix = p.1 → ∃ value, attributes.lookup p.2 = some value) ∧
        (suffix ∈ valuedNames →
          ∀ value, attributes.lookup "value" = some value → Parses value) := by
  have hneeded (name : String) (f : String → TagKind × List (String × String)) :
      (∃ r, (required s line tag name (take name attributes).1 >>= fun a => pure (f a)) = .ok r) ↔
        ∃ value, attributes.lookup name = some value := by
    rw [Outcome.exists_bind_iff, take]
    simp only [pure, Except.pure, Except.ok.injEq, exists_eq', and_true, exists_required_iff]
    simp
  have hvalued (name : String) (hname : "value" ≠ name)
      (f : String → Option Directive → TagKind × List (String × String)) :
      (∃ r, (required s line tag name (take name attributes).1 >>= fun a =>
          optional s line (take "value" (take name attributes).2).1 >>= fun value =>
            pure (f a value)) = .ok r) ↔
        (∃ value, attributes.lookup name = some value) ∧
          ∀ value, attributes.lookup "value" = some value → Parses value := by
    have hvalue : (∃ a, optional s line (take "value" (take name attributes).2).1 = .ok a) ↔
        ∀ value, attributes.lookup "value" = some value → Parses value := by
      rw [exists_optional_iff, take, lookup_take hname]
      simp [Parses]
    rw [← hneeded name fun a => f a none, ← hvalue, Outcome.exists_bind_iff,
      Outcome.exists_bind_iff]
    simp only [Outcome.exists_bind_iff, pure, Except.pure, Except.ok.injEq, exists_eq', and_true,
      exists_and_right]
  unfold controlKind
  split
  case h_1 | h_2 | h_5 | h_6 =>
    exact (hneeded ..).trans (by simp [neededNames, valuedNames])
  case h_3 | h_4 | h_7 =>
    exact (hvalued _ (by decide) _).trans (by simp [neededNames, valuedNames])
  case h_8 => exact iff_of_true ⟨_, rfl⟩ (by simp [neededNames, valuedNames])
  case h_9 =>
    refine iff_of_true ⟨_, rfl⟩ ?_
    simp_all [neededNames, valuedNames]

theorem exists_kindOf_iff {tag : String} :
    (∃ r, kindOf s line tag attributes = .ok r) ↔
      (∀ p ∈ neededNames, tag = s.lead ++ p.1 → ∃ value, attributes.lookup p.2 = some value) ∧
        ∀ suffix ∈ valuedNames, tag = s.lead ++ suffix →
          ∀ value, attributes.lookup "value" = some value → Parses value := by
  simp only [← afterLead?_eq_some_iff]
  unfold kindOf
  cases afterLead? s.lead tag with
  | none => exact iff_of_true ⟨_, rfl⟩ ⟨fun _ _ h => (nomatch h), fun _ _ h => (nomatch h)⟩
  | some suffix =>
    refine exists_controlKind_iff.trans ?_
    simp only [Option.some.injEq]
    exact and_congr_right fun _ =>
      ⟨fun h _ hmem heq => h (heq ▸ hmem), fun h hmem => h suffix hmem rfl⟩

theorem parse_of_optional {value : Option String} {found : Option Directive}
    (h : optional s line value = .ok found) :
    ∀ q ∈ found.toList, Expr.parse q.source = .ok q.expr := by
  unfold optional at h
  split at h
  · obtain ⟨own, hown, h⟩ := Outcome.of_bind h
    cases h
    intro q hq
    rw [Option.toList_some, List.mem_singleton] at hq
    exact hq ▸ of_directive hown
  · cases h
    exact List.forall_mem_nil _

theorem parse_of_kindOf {tag : String} {kind : TagKind} {plain : List (String × String)}
    (h : kindOf s line tag attributes = .ok (kind, plain)) :
    ∀ q ∈ kind.expressions, Expr.parse q.source = .ok q.expr := by
  unfold kindOf at h
  split at h
  · unfold controlKind at h
    split at h
    case h_1 | h_2 | h_5 | h_6 =>
      obtain ⟨name, -, h⟩ := Outcome.of_bind h
      cases h
      exact List.forall_mem_nil _
    case h_3 | h_4 | h_7 =>
      obtain ⟨name, -, h⟩ := Outcome.of_bind h
      obtain ⟨value, hvalue, h⟩ := Outcome.of_bind h
      cases h
      exact parse_of_optional hvalue
    all_goals
      cases h
      exact List.forall_mem_nil _
  · cases h
    exact List.forall_mem_nil _

/-! ## Elements -/

theorem exists_lookup_iff {key : String} :
    (∃ value, attributes.lookup key = some value) ↔ ∃ value, (key, value) ∈ attributes := by
  rw [← Option.isSome_iff_exists, List.lookup_isSome_iff]
  constructor
  · rintro ⟨⟨other, value⟩, hmem, hkey⟩
    exact ⟨value, eq_of_beq hkey ▸ hmem⟩
  · rintro ⟨value, hmem⟩
    exact ⟨_, hmem, beq_self_eq_true key⟩

theorem exists_directives_iff {e : Element} :
    (∃ d, directives s line (controlAttributes s e.attributes) = .ok d) ↔
      ∀ name ∈ expressionNames, ∀ value, s.HasControl e name value → Parses value := by
  rw [directives, exists_foldlM_addDirective_iff]
  constructor
  · rintro h name hname value ⟨hdeclared, hmem⟩
    exact h (name, _) (mem_controlAttributes_iff.2 ⟨value, hdeclared, hmem, rfl⟩) hname
  · rintro h ⟨name, value⟩ hmem hname
    obtain ⟨raw, hdeclared, hraw, rfl⟩ := mem_controlAttributes_iff.1 hmem
    exact h name hname raw ⟨hdeclared, hraw⟩

theorem conflict?_directives_iff {e : Element} {d : Directives}
    (h : directives s line (controlAttributes s e.attributes) = .ok d) :
    conflict? d = none ↔ ∀ p ∈ exclusions,
      ¬((∃ value, s.HasControl e p.1 value) ∧ ∃ value, s.HasControl e p.2 value) := by
  have hhas {other : String} (hother : other ∈ ["walk", "macro", "call", "slot", "plug"]) :
      d.Has other ↔ ∃ value, s.HasControl e other value := by
    have hnone : ¬Directives.none.Has other := by
      unfold Directives.Has
      split <;> simp [Directives.none]
    rw [has_foldlM_addDirective h hother, or_iff_right hnone]
    simp only [mem_controlAttributes_iff, Setting.HasControl]
    exact ⟨fun ⟨_, raw, hdeclared, hmem, _⟩ => ⟨raw, hdeclared, hmem⟩,
      fun ⟨raw, hdeclared, hmem⟩ => ⟨_, raw, hdeclared, hmem, rfl⟩⟩
  rw [conflict?_eq_none_iff]
  refine forall₂_congr fun p hp => not_congr (and_congr (hhas ?_) (hhas ?_))
  · revert p
    decide
  · revert p
    decide

/-- What is asked of an element is what compiling it takes, apart from the elements in it. -/
theorem accepts_iff {e : Element} :
    s.Accepts e ↔
      (∃ d, directives s e.line (controlAttributes s e.attributes) = .ok d ∧ conflict? d = none) ∧
        ∃ r, kindOf s e.line e.name (plainAttributes s e.attributes) = .ok r := by
  rw [exists_kindOf_iff]
  simp only [lookup_plainAttributes_eq_some_iff, exists_and_left, exists_lookup_iff, and_imp]
  constructor
  · rintro ⟨hexpressions, hneeded, hvalue, hexclusions⟩
    obtain ⟨d, hd⟩ := exists_directives_iff.2 hexpressions
    refine ⟨⟨d, hd, (conflict?_directives_iff hd).2 hexclusions⟩, hneeded, ?_⟩
    exact fun suffix hsuffix hname value hplain => hvalue suffix hsuffix hname hplain value
  · rintro ⟨⟨d, hd, hconflict⟩, hneeded, hvalue⟩
    refine ⟨exists_directives_iff.1 ⟨d, hd⟩, hneeded, ?_, (conflict?_directives_iff hd).1 hconflict⟩
    exact fun suffix hsuffix hname hplain value => hvalue suffix hsuffix hname value hplain

mutual

theorem exists_element_iff : ∀ (e : Element) (id : Nat) (indent : Option String),
    (∃ r, element s id indent e = .ok r) ↔ ∀ u ∈ e.elements, s.Accepts u
  | ⟨name, attributes, line, selfClosing, children⟩, id, indent => by
    have hcontent := exists_content_iff children (id + 1) none
    rw [Element.elements, List.forall_mem_cons, ← hcontent, accepts_iff]
    constructor
    · rintro ⟨⟨t, next⟩, h⟩
      obtain ⟨d, kind, plain, nodes, hd, hkind, hnodes, hconflict, -⟩ := element_eq_ok_iff.1 h
      exact ⟨⟨⟨d, hd, hconflict⟩, _, hkind⟩, _, hnodes⟩
    · rintro ⟨⟨⟨d, hd, hconflict⟩, ⟨kind, plain⟩, hkind⟩, ⟨nodes, next⟩, hnodes⟩
      exact ⟨(_, next), element_eq_ok_iff.2
        ⟨d, kind, plain, nodes, hd, hkind, hnodes, hconflict, rfl⟩⟩

theorem exists_content_iff : ∀ (es : List (Node Element)) (next : Nat) (indent : Option String),
    (∃ r, content s next indent es = .ok r) ↔ ∀ u ∈ Element.contentElements es, s.Accepts u
  | [], next, indent => ⟨fun _ => nofun, fun _ => ⟨_, by rw [content]⟩⟩
  | .text text :: rest, next, indent => by
    have hrest := exists_content_iff rest next (indentOf text)
    rw [Element.contentElements, ← hrest, content, Outcome.exists_bind_iff]
    exact exists_congr fun r => and_iff_left ⟨_, rfl⟩
  | .child e :: rest, next, indent => by
    rw [Element.contentElements, List.forall_mem_append, content, Outcome.exists_bind_iff]
    have helement := exists_element_iff e next indent
    constructor
    · rintro ⟨⟨tag, after⟩, htag, h⟩
      obtain ⟨r, hr, -⟩ := Outcome.exists_bind_iff.1 h
      exact ⟨helement.1 ⟨_, htag⟩, (exists_content_iff rest after none).1 ⟨r, hr⟩⟩
    · rintro ⟨he, hrest⟩
      obtain ⟨⟨tag, after⟩, htag⟩ := helement.2 he
      obtain ⟨r, hr⟩ := (exists_content_iff rest after none).2 hrest
      exact ⟨_, htag, Outcome.exists_bind_iff.2 ⟨r, hr, _, rfl⟩⟩

end

/-- The expressions that are stored with a tag are those that their sources are parsed to. -/
theorem parse_of_element {e : Element} {id next : Nat} {indent : Option String} {t : Tag}
    (h : element s id indent e = .ok (t, next)) {u : Tag} (hu : u ∈ t.tags) :
    ∀ q ∈ u.expressions, Expr.parse q.source = .ok q.expr := by
  obtain ⟨⟨name, attributes, line, selfClosing, children⟩, id, next, indent, h⟩ :=
    exists_element_of_mem_tags h u hu
  obtain ⟨d, kind, plain, nodes, hd, hkind, -, -, rfl⟩ := element_eq_ok_iff.1 h
  exact List.forall_mem_append.2 ⟨parse_of_foldlM_addDirective hd nofun, parse_of_kindOf hkind⟩

end Compile

/-- What the elements of a document are compiled with. -/
def Document.setting (path lead : String) (d : Document) : Compile.Setting :=
  let declared := Compile.declaredLead? d.root.attributes
  ⟨path, declared.getD lead, declared.map Compile.declarationOf⟩

namespace Template

/-- A document is compiled just if each of its elements has what is asked of it, and the expressions
in the template are those that their sources are parsed to. -/
theorem ofDocument_accepts (path lead : String) (document : Document) :
    ((∃ t, ofDocument path lead document = .ok t) ↔
        ∀ e ∈ document.root.elements, (document.setting path lead).Accepts e) ∧
      ∀ t, ofDocument path lead document = .ok t →
        ∀ u ∈ t.root.tags, ∀ q ∈ u.expressions, Expr.parse q.source = .ok q.expr := by
  constructor
  · rw [← Compile.exists_element_iff document.root 0 none, ofDocument, Outcome.exists_bind_iff]
    exact exists_congr fun r => and_iff_left ⟨_, rfl⟩
  · intro t h u hu
    obtain ⟨setting, next, helement, -⟩ := of_ofDocument h
    exact Compile.parse_of_element helement hu

/-- The prefix that the root declares decides which tags need a file. -/
example :
    ((ofDocument "a.xml" "fig:" ⟨⟨"x:page", [("xmlns:x", "http://www.figdice.org/")], 1, false,
        [.child ⟨"fig:include", [], 2, true, []⟩]⟩, []⟩).toOption.isSome,
      (ofDocument "a.xml" "fig:" ⟨⟨"x:page", [("xmlns:x", "http://www.figdice.org/")], 1, false,
        [.child ⟨"x:include", [], 2, true, []⟩]⟩, []⟩).toOption.isSome) = (true, false) := by
  rfl

end Template

end XmlTemplate
