import XmlTemplate.Proofs.Expr.Pair
import XmlTemplate.Proofs.Fault
import XmlTemplate.Proofs.Render.Step

/-!
# Renders side by side

Two renders go over tags that are written alike. A relation of steps that passes to what is put
together from them, and that holds of expressions at two places, holds of all that the two renders
make of the tags. What the renders of children have to do with each other is left open, and so are
the tags that count as corresponding.
-/

namespace XmlTemplate

-- ---------------------------------------------------------------------------
-- Tags that are written alike
-- ---------------------------------------------------------------------------

/-- The same text, or children that correspond. -/
inductive Node.Alike (C : α → β → Prop) : Node α → Node β → Prop
  | text (text : String) : Alike C (.text text) (.text text)
  | child {a : α} {b : β} (h : C a b) : Alike C (.child a) (.child b)

/-- The tags are written alike, on lines that correspond and with children that do. -/
structure Tag.Alike (lines : Nat → Nat → Prop) (C : Tag → Tag → Prop) (t t' : Tag) : Prop where
  name : t'.name = t.name
  line : lines t.line t'.line
  kind : t'.kind = t.kind
  attributes : t'.attributes = t.attributes
  directives : t'.directives = t.directives
  selfClosing : t'.selfClosing = t.selfClosing
  indent : t'.indent = t.indent
  children : List.Forall₂ (Node.Alike C) t.children t'.children

/-- A tag is written like itself. -/
theorem Tag.Alike.self {lines : Nat → Nat → Prop} {C : Tag → Tag → Prop} (t : Tag)
    (hline : lines t.line t.line) (hchildren : ∀ c, .child c ∈ t.children → C c c) :
    t.Alike lines C t where
  name := rfl
  line := hline
  kind := rfl
  attributes := rfl
  directives := rfl
  selfClosing := rfl
  indent := rfl
  children := List.forall₂_same.2 fun node hnode => by
    cases node with
    | text text => exact .text text
    | child c => exact .child (hchildren c hnode)

/-- What holds of the children that correspond. -/
theorem Tag.Alike.imp {lines : Nat → Nat → Prop} {C C' : Tag → Tag → Prop} {t t' : Tag}
    (h : t.Alike lines C t')
    (hchildren : ∀ c c', .child c ∈ t.children → .child c' ∈ t'.children → C c c' → C' c c') :
    t.Alike lines C' t' where
  name := h.name
  line := h.line
  kind := h.kind
  attributes := h.attributes
  directives := h.directives
  selfClosing := h.selfClosing
  indent := h.indent
  children := by
    obtain ⟨hlength, hzip⟩ := List.forall₂_iff_zip.1 h.children
    refine List.forall₂_iff_zip.2 ⟨hlength, fun {node node'} hnodes => ?_⟩
    have hmem := List.of_mem_zip hnodes
    cases hzip hnodes with
    | text text => exact .text text
    | child hc => exact .child (hchildren _ _ hmem.1 hmem.2 hc)

/-- The tags among children that correspond do so too. -/
theorem Tag.Alike.childTags {lines : Nat → Nat → Prop} {C : Tag → Tag → Prop} {t t' : Tag}
    (h : t.Alike lines C t') : List.Forall₂ C t.childTags t'.childTags := by
  have hchildren := h.children
  unfold Tag.childTags
  generalize t.children = nodes at hchildren
  generalize t'.children = nodes' at hchildren
  induction hchildren with
  | nil => exact .nil
  | cons hnode _ ih =>
    cases hnode with
    | text => exact ih
    | child hchild => exact .cons hchild ih

-- ---------------------------------------------------------------------------
-- What expressions look at
-- ---------------------------------------------------------------------------

/-- What a text is parsed as has only paths that start within `K`. -/
def Text.StartsWithin (K : String → Prop) (source : String) : Prop :=
  ∀ expr, Expr.parse source = .ok expr → expr.StartsWithin K

/-- The directives that apply to a tag that is not walked. -/
def Directives.shown (d : Directives) : List Directive :=
  [d.cond, d.text, d.mute, d.void, d.auto, d.append].filterMap id

/-- The expressions of a kind. -/
def TagKind.values : TagKind → List Directive
  | attr _ value | param _ value | mount _ value => value.toList
  | _ => []

/-- Apart from its walk, a tag as it is written has only paths that start within `K`. -/
structure Tag.StartsWithin (K : String → Prop) (t : Tag) : Prop where
  directives : ∀ d ∈ t.directives.shown, d.expr.StartsWithin K
  kind : ∀ d ∈ t.kind.values, d.expr.StartsWithin K
  runs : ∀ p ∈ t.attributes, ∀ run, .run run ∈ Piece.ofAttribute p.2 →
    Text.StartsWithin K (Text.unescape (String.ofList run))

/-- The attributes of a tag, as expressions, have only paths that start within `K`. -/
def Tag.ArgumentsWithin (K : String → Prop) (t : Tag) : Prop :=
  ∀ p ∈ t.attributes, Text.StartsWithin K (Text.unescape p.2)

/-- What a tag is rendered as, where nothing counts as an empty text. -/
abbrev Renderer.output (inner : Renderer) (t : Tag) (view : Nat) (suppressed : Suppressed) :
    Render String :=
  (·.getD "") <$> inner t view suppressed

namespace Render

/-- A relation of steps that holds of the steps at lines of two views, for expressions that start
within `K`. -/
structure Beside (e : Engine) (view view' : Nat) (lines : Nat → Nat → Prop) (K : String → Prop)
    (P : ∀ {α : Type}, Render α → Render α → Prop) : Prop extends Pairs Render P where
  evaluate {line line' : Nat} (hline : lines line line') {expr : Expr}
    (hexpr : expr.StartsWithin K) :
    P (evaluate e ⟨view, line⟩ expr) (evaluate e ⟨view', line'⟩ expr)
  evaluateAttribute {line line' : Nat} (hline : lines line line') {raw : String}
    (hraw : Text.StartsWithin K (Text.unescape raw)) :
    P (evaluateAttribute e ⟨view, line⟩ raw) (evaluateAttribute e ⟨view', line'⟩ raw)
  failAt {α : Type} {line line' : Nat} (hline : lines line line') {f : Location → Fault}
    (hf : Fault.IsUniform f) :
    P (failAt ⟨view, line⟩ f : Render α) (failAt ⟨view', line'⟩ f)

namespace Beside

variable {e : Engine} {view view' : Nat} {lines : Nat → Nat → Prop} {K : String → Prop}
  {P : ∀ {α : Type}, Render α → Render α → Prop} {line line' : Nat}

section

variable (h : Beside e view view' lines K P) (hline : lines line line')

include h hline

theorem textOf (v : Value) : P (textOf ⟨view, line⟩ v) (textOf ⟨view', line'⟩ v) := by
  unfold Render.textOf
  split
  · exact h.pure _
  · exact h.failAt hline fun _ _ => rfl

theorem evaluateText {expr : Expr} (hexpr : expr.StartsWithin K) :
    P (evaluateText e ⟨view, line⟩ expr) (evaluateText e ⟨view', line'⟩ expr) :=
  h.bind (h.evaluate hline hexpr) fun v => h.textOf hline v

theorem flag {d : Option Directive} (hd : ∀ x ∈ d, x.expr.StartsWithin K) :
    P (flag e ⟨view, line⟩ d) (flag e ⟨view', line'⟩ d) := by
  unfold Render.flag
  split
  · exact h.bind (h.evaluate hline (hd _ rfl)) fun v => h.pure _
  · exact h.pure _

theorem interpolate {raw : String} (hraw : ∀ run, .run run ∈ Piece.ofAttribute raw →
    Text.StartsWithin K (Text.unescape (String.ofList run))) :
    P (interpolate e ⟨view, line⟩ raw) (interpolate e ⟨view', line'⟩ raw) := by
  refine h.bind (h.foldlM (fun done piece hpiece => ?_) _) fun parts => h.pure _
  cases piece with
  | literal text => exact h.pure _
  | run expression =>
    exact h.bind (h.evaluateAttribute hline (hraw expression hpiece)) fun v =>
      h.bind (h.textOf hline v) fun text => h.pure _

theorem filter (name text : String) :
    P (filter e ⟨view, line⟩ name text) (filter e ⟨view', line'⟩ name text) := by
  unfold Render.filter
  split
  · exact h.pure _
  · exact h.failAt hline fun _ _ => rfl

end

/-! ## Single tags -/

section

variable {C : Tag → Tag → Prop} {t t' : Tag} (h : Beside e view view' lines K P)
  (ht : t.Alike lines C t')

include h ht

theorem condition (hwithin : t.StartsWithin K) : P (condition e view t) (condition e view' t') := by
  unfold Render.condition
  rw [ht.directives]
  split
  · rename_i cond hcond
    refine h.flag ht.line fun x hx => hwithin.directives x ?_
    cases hx
    simp [Directives.shown, hcond]
  · exact h.pure _

theorem arguments (hwithin : t.ArgumentsWithin K) :
    P (arguments e view t) (arguments e view' t') := by
  unfold Render.arguments
  rw [ht.attributes]
  exact h.foldlM (fun _ p hp => h.bind (h.evaluateAttribute ht.line (hwithin p hp)) fun _ =>
    h.pure _) _

theorem emptyEnd (hwithin : t.StartsWithin K) : P (emptyEnd e view t) (emptyEnd e view' t') := by
  have hend (isClosed : Bool) :
      P (if isClosed then pure " />" else pure ("></" ++ t.name ++ ">") : Render String)
        (if isClosed then pure " />" else pure ("></" ++ t.name ++ ">")) := by
    split <;> exact h.pure _
  simp only [Render.emptyEnd, ht.selfClosing, ht.directives, ht.name]
  split
  · exact h.bind (h.pure true) hend
  · refine h.bind (h.flag ht.line fun x hx => hwithin.directives x ?_) hend
    simp [Directives.shown, Option.mem_def.1 hx]

theorem elementEnd (hwithin : t.StartsWithin K) (text : String) :
    P (elementEnd e view t text) (elementEnd e view' t' text) := by
  unfold Render.elementEnd
  rw [ht.directives, ht.name]
  refine h.bind (h.flag ht.line fun x hx => hwithin.directives x ?_) fun isVoid => ?_
  · simp [Directives.shown, Option.mem_def.1 hx]
  · split
    · exact h.pure _
    · split
      · exact h.emptyEnd ht hwithin
      · exact h.pure _

end

/-! ## Tags with tags within -/

section

variable {C : Tag → Tag → Prop} {inner inner' : Renderer}
  (h : Beside e view view' lines K P)
  (hchild : ∀ {c c' : Tag}, C c c' →
    c.kind.belongsToParent = false ∧ c'.kind.belongsToParent = false ∨
      c.Alike lines C c' ∧ c.StartsWithin K)
  (hinner : ∀ {c c' : Tag}, C c c' → c.kind.belongsToParent = false →
    P (inner.output c view .none) (inner'.output c' view' .none))
  {t t' : Tag}

include hchild

omit h in
theorem belongsToParent_eq (hc : C t t') :
    t'.kind.belongsToParent = t.kind.belongsToParent := by
  rcases hchild hc with ⟨hkind, hkind'⟩ | ⟨halike, -⟩
  · rw [hkind, hkind']
  · rw [halike.kind]

include h hinner

theorem content (hchildren : List.Forall₂ (Node.Alike C) t.children t'.children) :
    P (content inner view t) (content inner' view' t') := by
  refine h.foldlM₂ (fun done node node' hnode => ?_) hchildren _
  cases hnode with
  | text text => exact h.pure _
  | @child c c' hc =>
    have hnode (inner : Renderer) (view : Nat) (c : Tag) : addNode inner view done (.child c) =
        if c.kind.belongsToParent then pure done
        else do
          let text ← inner.output c view .none
          return done ++ text := by
      simp only [addNode, map_eq_pure_bind, bind_assoc, pure_bind]
    rw [hnode, hnode, belongsToParent_eq hchild hc]
    split
    · exact h.pure _
    · rename_i hbelongs
      exact h.bind (hinner hc (Bool.eq_false_iff.2 hbelongs)) fun text => h.pure _

theorem addParameter (done : Table Value) {c c' : Tag} (hc : C c c') :
    P (addParameter e inner view done c) (addParameter e inner' view' done c') := by
  rcases hchild hc with ⟨hkind, hkind'⟩ | ⟨halike, hwithin⟩
  · have hskip (inner : Renderer) (view : Nat) {c : Tag} (hkind : c.kind.belongsToParent = false) :
        Render.addParameter e inner view done c = pure done := by
      unfold Render.addParameter
      split
      · rename_i heq
        rw [heq] at hkind
        cases hkind
      · rfl
    rw [hskip inner view hkind, hskip inner' view' hkind']
    exact h.pure _
  · unfold Render.addParameter
    rw [halike.kind]
    split
    · rename_i name value hkind
      refine h.bind (h.condition halike hwithin) fun isThere => ?_
      split
      · split
        · rename_i d
          refine h.bind (h.evaluate halike.line (hwithin.kind d ?_)) fun v => h.pure _
          simp [hkind, TagKind.values]
        · exact h.bind (h.content hchild hinner halike.children) fun text => h.pure _
      · exact h.pure _
    · exact h.pure _

theorem parameters (ht : t.Alike lines C t') :
    P (parameters e inner view t) (parameters e inner' view' t') :=
  h.foldlM₂ (R := C) (fun done _ _ hc => h.addParameter hchild hinner done hc) ht.childTags _

theorem addSet (done : Table String) {c c' : Tag} (hc : C c c') :
    P (addSet e inner view done c) (addSet e inner' view' done c') := by
  rcases hchild hc with ⟨hkind, hkind'⟩ | ⟨halike, hwithin⟩
  · have hskip (inner : Renderer) (view : Nat) {c : Tag} (hkind : c.kind.belongsToParent = false) :
        Render.addSet e inner view done c = pure done := by
      unfold Render.addSet
      split
      · rename_i heq
        rw [heq] at hkind
        cases hkind
      · rfl
    rw [hskip inner view hkind, hskip inner' view' hkind']
    exact h.pure _
  · unfold Render.addSet
    rw [halike.kind, halike.directives]
    split
    · rename_i name value hkind
      refine h.bind (h.condition halike hwithin) fun isThere => ?_
      split
      · split
        · rename_i d hd
          refine h.bind (h.evaluateText halike.line ?_) fun text => h.pure _
          rcases Option.or_eq_some_iff.1 hd with hvalue | ⟨-, htext⟩
          · exact hwithin.kind d (by simp [hkind, TagKind.values, hvalue])
          · exact hwithin.directives d (by simp [Directives.shown, htext])
        · exact h.bind (h.content hchild hinner halike.children) fun text => h.pure _
      · exact h.pure _
    · exact h.pure _

theorem attributes (ht : t.Alike lines C t') (hwithin : t.StartsWithin K) :
    P (attributes e inner view t) (attributes e inner' view' t') := by
  unfold Render.attributes
  rw [ht.attributes]
  refine h.bind (h.foldlM (fun done p hp => ?_) _) fun plain => ?_
  · exact h.bind (h.interpolate ht.line (hwithin.runs p hp)) fun text => h.pure _
  · exact h.foldlM₂ (R := C) (fun done _ _ hc => h.addSet hchild hinner done hc) ht.childTags _

theorem body (ht : t.Alike lines C t') (hwithin : t.StartsWithin K) :
    P (body e inner view t) (body e inner' view' t') := by
  have hfiltered (text : String) : P (filtered e view t text) (filtered e view' t' text) := by
    unfold filtered
    rw [ht.directives]
    split
    · exact h.filter ht.line _ _
    · exact h.pure _
  rw [body_eq, body_eq, ht.directives]
  refine h.bind ?_ hfiltered
  split
  · rename_i d hd
    exact h.evaluateText ht.line (hwithin.directives d (by simp [Directives.shown, hd]))
  · exact h.content hchild hinner ht.children

theorem element (ht : t.Alike lines C t') (hwithin : t.StartsWithin K) :
    P (element e inner view t) (element e inner' view' t') := by
  have hrest (isMute : Bool) : P (if isMute then Render.body e inner view t
      else do
        let attributes ← Render.attributes e inner view t
        let text ← Render.body e inner view t
        let rest ← Render.elementEnd e view t text
        return opening t.name attributes ++ rest : Render String)
      (if isMute then Render.body e inner' view' t'
      else do
        let attributes ← Render.attributes e inner' view' t'
        let text ← Render.body e inner' view' t'
        let rest ← Render.elementEnd e view' t' text
        return opening t.name attributes ++ rest) := by
    split
    · exact h.body hchild hinner ht hwithin
    · exact h.bind (h.attributes hchild hinner ht hwithin) fun _ =>
        h.bind (h.body hchild hinner ht hwithin) fun _ =>
          h.bind (h.elementEnd ht hwithin _) fun _ => h.pure _
  unfold Render.element
  simp only [ht.kind, ht.name, ht.directives]
  split
  · exact h.bind (h.pure true) hrest
  · refine h.bind (h.flag ht.line fun x hx => hwithin.directives x ?_) hrest
    simp [Directives.shown, Option.mem_def.1 hx]

/-! ### Translations -/

theorem fillPlaceholders (ht : t.Alike lines C t') (hwithin : t.ArgumentsWithin K) (text : String) :
    P (fillPlaceholders e inner view t text) (fillPlaceholders e inner' view' t' text) := by
  have hplaceholder (parameters : Table Value) (name : String) :
      P (placeholder e view t parameters name) (placeholder e view' t' parameters name) := by
    unfold placeholder
    rw [ht.attributes]
    split
    · exact h.textOf ht.line _
    · split
      · rename_i raw hraw
        obtain ⟨before, after, heq, -⟩ := List.lookup_eq_some_iff.1 hraw
        have hstarts : Text.StartsWithin K (Text.unescape raw) :=
          hwithin (name, raw) (by simp [heq])
        exact h.bind (h.evaluateAttribute ht.line hstarts) fun v => h.textOf ht.line v
      · exact h.pure _
  unfold Render.fillPlaceholders
  simp only
  split
  · refine h.bind (h.parameters hchild hinner ht) fun parameters => ?_
    refine h.bind (h.foldlM (fun known piece _ => ?_) _) fun _ => h.pure _
    cases piece with
    | literal text => exact h.pure _
    | run name =>
      simp only [addPlaceholder]
      split
      · exact h.pure _
      · exact h.bind (hplaceholder parameters _) fun text => h.pure _
  · exact h.pure _

end

end Beside

end Render

end XmlTemplate
