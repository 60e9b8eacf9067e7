import XmlTemplate.Proofs.Render.Pair

/-!
# Whole tags side by side

The directives and kinds of tags that are written alike, in two renders that are related as far as
their sessions show: by the language, the dictionaries in sight and the feeds met. What the renders
do with other templates, with dictionaries and with macros is left to those who know what became of
these.
-/

namespace XmlTemplate

namespace Render

/-- A step in the frame of an item. -/
def inItem (item : Value × Value) (x : Render α) : Render α := do
  modify (Session.enterItem item)
  let a ← x
  modify Session.leaveFrame
  return a

theorem addItem_eq_inItem (inner : Renderer) (view : Nat) (t : Tag) (suppressed : Suppressed)
    (done : String) (item : Value × Value) :
    addItem inner view t suppressed done item = (do
      let fragment ← inItem item (inner.output t view suppressed)
      return joined t done fragment) := by
  rw [addItem_eq]
  simp only [inItem, map_eq_pure_bind, bind_assoc, pure_bind]

theorem inItem_apply (item : Value × Value) (x : Render α) (s : Session) (m : Memory) :
    inItem item x s m = match x (s.enterItem item) m with
      | (.ok (a, t), n) => (.ok (a, t.leaveFrame), n)
      | (.error stop, n) => (.error stop, n) := by
  simp only [inItem, bind_apply]
  rfl

/-- Render the body of a macro, if there is one of the name. -/
def invoke (inner : Renderer) (view : Nat) (t : Tag) (name : String) (all : Table Value) :
    Render String := do
  match (← get).macros.get? name with
  | some body => macroBody inner all body
  | none =>
    warnAt (t.place view) fun location => .unknownMacro location name
    return ""

theorem macroBody_apply (inner : Renderer) (all : Table Value) (body : MacroBody) (s : Session)
    (m : Memory) : macroBody inner all body s m =
      match (s.views[body.view]?).bind fun v => v.template.find? body.tag with
      | some u => (do
          let text ← inner.output u body.view ⟨false, true⟩
          modify (Session.leaveMacro s)
          return text : Render String) (s.enterMacro all) m
      | none => (.ok ("", s), m) := by
  simp only [macroBody, bind_apply, get_apply, map_eq_pure_bind]
  cases (s.views[body.view]?).bind fun v => v.template.find? body.tag with
  | none => rfl
  | some u =>
    simp only [bind_apply, set_apply, Session.enterMacro]
    generalize inner u body.view ⟨false, true⟩ _ m = r
    rcases r with ⟨stop | ⟨a, s₁⟩, m₁⟩ <;> rfl

theorem invoke_apply (inner : Renderer) (view : Nat) (t : Tag) (name : String) (all : Table Value)
    (s : Session) (m : Memory) :
    invoke inner view t name all s m = match s.macros.get? name with
      | some body => match (s.views[body.view]?).bind fun v => v.template.find? body.tag with
        | some u => (do
            let text ← inner.output u body.view ⟨false, true⟩
            modify (Session.leaveMacro s)
            return text : Render String) (s.enterMacro all) m
        | none => (.ok ("", s), m)
      | none => (.ok ("", s.warn (.unknownMacro (s.location view t.line) name)), m) := by
  rw [invoke, bind_apply, get_apply]
  simp only
  cases s.macros.get? name with
  | none => rfl
  | some body => exact macroBody_apply inner all body s m

theorem callMacro_eq (e : Engine) (inner : Renderer) (view : Nat) (t : Tag) (name : String) :
    callMacro e inner view t name = (do
      let arguments ← arguments e view t
      let parameters ← parameters e inner view t
      invoke inner view t name
        (parameters.foldl (fun done (key, v) => Table.put key v done) arguments)) := rfl

theorem inclusion_apply (e : Engine) (inner : Renderer) (view : Nat) (t : Tag) (file : String)
    (s : Session) (m : Memory) : inclusion e inner view t file s m =
      match e.load (Path.resolve (s.views.path view) file) m with
      | (.ok compiled, n) =>
        inner.output compiled.template.root s.views.length .none
          (s.addView compiled.template (some view)) n
      | (.error f, n) => (.error (.fault (f.locate (s.location view t.line))), n) := by
  simp only [inclusion, map_eq_pure_bind, bind_apply, get_apply, set_apply, consult_apply]
  rcases e.load (Path.resolve (s.views.path view) file) m with ⟨f | compiled, n⟩ <;> rfl

/-- A file in place of a tag goes by the line of the tag. -/
theorem verbatim_of_line {t t' : Tag} (hline : t.line = t'.line) (e : Engine) (view : Nat)
    (file : String) : verbatim e view t' file = verbatim e view t file := by
  unfold verbatim Tag.place
  rw [hline]

/-- Attach a dictionary in a render in a language. -/
def dictionaryIn (e : Engine) (view : Nat) (t : Tag) (file : String) (name source : Option String) :
    Option String → Render Unit
  | none => return
  | some language =>
    if source == some language then return
    else do
      let d ← consult (t.place view) (e.loadDictionary language file)
      d.duplicates.forM fun key => modify (Session.warn (.duplicateKey d.file key))
      modify fun s => { s with views := s.views.attach name d view }

theorem dictionary_eq (e : Engine) (view : Nat) (t : Tag) (file : String)
    (name source : Option String) : dictionary e view t file name source =
      (do dictionaryIn e view t file name source (← get).language) := by
  unfold dictionary dictionaryIn
  refine bind_congr fun s => ?_
  cases s.language <;> rfl

-- ---------------------------------------------------------------------------
-- Directives
-- ---------------------------------------------------------------------------

/-! Where templates come from shows only in the kinds of tags. -/

theorem flag_source (e : Engine) (source : Source) :
    flag { e with source := source } = flag e := rfl

theorem condition_source (e : Engine) (source : Source) :
    condition { e with source := source } = condition e := rfl

theorem callMacro_source (e : Engine) (source : Source) :
    callMacro { e with source := source } = callMacro e := rfl

theorem walk_source (e : Engine) (source : Source) :
    walk { e with source := source } = walk e := rfl

theorem kind_source {t : Tag} (hinclusion : ∀ file, t.kind ≠ .inclusion file)
    (hverbatim : ∀ file, t.kind ≠ .verbatim file) (e : Engine) (source : Source) (inner : Renderer)
    (view : Nat) : kind { e with source := source } inner view t = kind e inner view t := by
  unfold kind
  split
  · rfl
  · rfl
  · rename_i hkind
    exact absurd hkind (hinclusion _)
  · rename_i hkind
    exact absurd hkind (hverbatim _)
  all_goals rfl

namespace Beside

variable {e : Engine} {view view' : Nat} {lines : Nat → Nat → Prop} {K : String → Prop}
  {P : ∀ {α : Type}, Render α → Render α → Prop} {C : Tag → Tag → Prop} {inner inner' : Renderer}
  {t t' : Tag} {suppressed : Suppressed} {source source' : Source}

section

variable (h : Beside e view view' lines K P) (ht : t.Alike lines C t')

include h

theorem slot {name : String}
    (hrecord : P (modify (Session.recordSlot name)) (modify (Session.recordSlot name)))
    (hkind : P (kind { e with source := source } inner view t)
      (kind { e with source := source' } inner' view' t')) :
    P (slot { e with source := source } inner view t name)
      (slot { e with source := source' } inner' view' t' name) :=
  h.bind hrecord fun _ => h.bind hkind fun _ => h.pure _

include ht

theorem plug (hwithin : t.StartsWithin K) {name : String}
    (hplug : ∀ output append,
      P (modify (Session.plug name output append)) (modify (Session.plug name output append)))
    (hkind : P (kind { e with source := source } inner view t)
      (kind { e with source := source' } inner' view' t')) :
    P (plug { e with source := source } inner view t name)
      (plug { e with source := source' } inner' view' t' name) := by
  unfold Render.plug
  rw [ht.directives, flag_source, flag_source]
  refine h.bind hkind fun output => h.bind (h.flag ht.line fun x hx => hwithin.directives x ?_)
    fun append => hplug output append
  simp [Directives.shown, Option.mem_def.1 hx]

theorem shown (hwithin : t.StartsWithin K)
    (hrecord : ∀ name, P (modify (Session.recordSlot name)) (modify (Session.recordSlot name)))
    (hplug : ∀ name output append,
      P (modify (Session.plug name output append)) (modify (Session.plug name output append)))
    (hcall : ∀ name, t.directives.call = some name →
      P (callMacro e inner view t name) (callMacro e inner' view' t' name))
    (hkind : P (kind { e with source := source } inner view t)
      (kind { e with source := source' } inner' view' t')) :
    P (shown { e with source := source } inner view t)
      (shown { e with source := source' } inner' view' t') := by
  unfold Render.shown
  rw [ht.directives, callMacro_source, callMacro_source]
  split
  · rename_i hname
    exact h.map some (hcall _ hname)
  · exact h.map some (h.slot (hrecord _) hkind)
  · exact h.bind (h.plug ht hwithin (hplug _) hkind) fun _ => h.pure _
  · exact h.map some hkind

theorem single (hwithin : t.StartsWithin K)
    (hdefine : ∀ name, t.directives.macroName = some name →
      P (modify (Session.defineMacro name ⟨view, t.id⟩))
        (modify (Session.defineMacro name ⟨view', t'.id⟩)))
    (hshown : P (Render.shown { e with source := source } inner view t)
      (Render.shown { e with source := source' } inner' view' t')) :
    P (single { e with source := source } inner view t suppressed)
      (single { e with source := source' } inner' view' t' suppressed) := by
  unfold Render.single
  rw [condition_source, condition_source]
  refine h.bind (h.condition ht hwithin) fun isThere => ?_
  rw [ht.directives]
  split
  · split
    · rename_i hname _
      exact h.bind (hdefine _ hname) fun _ => h.pure _
    · exact hshown
  · exact h.pure _

theorem walk {d : Directive} (hd : d.expr.StartsWithin K)
    (hstart : ∀ count, P (modify (Session.startWalk count)) (modify (Session.startWalk count)))
    (houtside : P (modify Session.outside) (modify Session.outside))
    (hitem : ∀ item, P (inItem item (inner.output t view { suppressed with walk := true }))
      (inItem item (inner'.output t' view' { suppressed with walk := true }))) :
    P (walk e inner view t d suppressed) (walk e inner' view' t' d suppressed) := by
  refine h.bind (h.evaluate ht.line hd) fun v => h.bind (hstart _) fun _ => ?_
  refine h.bind (h.foldlM (fun done item _ => ?_) _) fun output => h.bind houtside fun _ => h.pure _
  rw [addItem_eq_inItem, addItem_eq_inItem]
  refine h.bind (hitem item) fun fragment => ?_
  simp only [joined, ht.indent]
  exact h.pure _

end

end Beside

-- ---------------------------------------------------------------------------
-- Kinds
-- ---------------------------------------------------------------------------

/-- A relation of steps that also holds of those that warn, look up and read files, where
expressions may start anywhere. -/
structure Still (e : Engine) (view view' : Nat) (lines : Nat → Nat → Prop)
    (P : ∀ {α : Type}, Render α → Render α → Prop) : Prop
    extends Beside e view view' lines (fun _ => True) P where
  warnAt {line line' : Nat} (hline : lines line line') {f : Location → Fault}
    (hf : Fault.IsUniform f) : P (warnAt ⟨view, line⟩ f) (warnAt ⟨view', line'⟩ f)
  language {α : Type} {f g : Option String → Render α} (hfg : ∀ l, P (f l) (g l)) :
    P (do f (← get).language) (do g (← get).language)
  translate {α : Type} {key : String} {dict : Option String} {f g : Translation → Render α}
    (hfg : ∀ found, P (f found) (g found)) :
    P (do f ((← get).views.translate view key dict))
      (do g ((← get).views.translate view' key dict))
  findFeed {line line' : Nat} (hline : lines line line') (feedClass : String)
    (parameters : Table Value) : P (findFeed e ⟨view, line⟩ feedClass parameters)
      (findFeed e ⟨view', line'⟩ feedClass parameters)
  verbatim {t t' : Tag} (hline : lines t.line t'.line) (file : String) :
    P (verbatim e view t file) (verbatim e view' t' file)

/-- A relation of steps that also holds of those that mount and that fill slots. Frames and walks
stay as they are in all of these steps. -/
structure Level (e : Engine) (view view' : Nat) (lines : Nat → Nat → Prop)
    (P : ∀ {α : Type}, Render α → Render α → Prop) : Prop extends Still e view view' lines P where
  mount (target : String) (v : Value) :
    P (modify (Session.mount target v)) (modify (Session.mount target v))
  recordSlot (name : String) :
    P (modify (Session.recordSlot name)) (modify (Session.recordSlot name))
  plug (name output : String) (append : Bool) :
    P (modify (Session.plug name output append)) (modify (Session.plug name output append))

/-- A relation of steps that holds of the steps into walks and frames, too, and out of them. -/
structure Along (e : Engine) (view view' : Nat) (lines : Nat → Nat → Prop)
    (P : ∀ {α : Type}, Render α → Render α → Prop) : Prop extends Level e view view' lines P where
  startWalk (count : Nat) :
    P (modify (Session.startWalk count)) (modify (Session.startWalk count))
  outside : P (modify Session.outside) (modify Session.outside)
  enterItem (item : Value × Value) :
    P (modify (Session.enterItem item)) (modify (Session.enterItem item))
  leaveFrame : P (modify Session.leaveFrame) (modify Session.leaveFrame)

/-- A relation that every step has with itself. -/
theorem Along.of_refl {P : ∀ {α : Type}, Render α → Render α → Prop} (hpairs : Pairs Render P)
    (hrefl : ∀ {α : Type} (x : Render α), P x x) (e : Engine) (view : Nat) :
    Along e view view Eq P where
  toPairs := hpairs
  evaluate hline _ _ := hline ▸ hrefl _
  evaluateAttribute hline _ _ := hline ▸ hrefl _
  failAt hline _ _ := hline ▸ hrefl _
  warnAt hline _ _ := hline ▸ hrefl _
  language hfg := hpairs.bind (hrefl _) fun s => hfg s.language
  translate hfg := hpairs.bind (hrefl _) fun _ => hfg _
  findFeed hline _ _ := hline ▸ hrefl _
  verbatim hline file := verbatim_of_line hline e view file ▸ hrefl _
  mount _ _ := hrefl _
  recordSlot _ := hrefl _
  plug _ _ _ := hrefl _
  startWalk _ := hrefl _
  outside := hrefl _
  enterItem _ := hrefl _
  leaveFrame := hrefl _

mutual

/-- Every expression starts anywhere. -/
theorem startsWithin_true : ∀ expr : Expr, expr.StartsWithin fun _ => True
  | .literal _ => trivial
  | .path [] => trivial
  | .path (head :: tail) => ⟨segmentWithin_true head, segmentsWithin_true tail⟩
  | .unary _ operand => startsWithin_true operand
  | .binary _ left right => ⟨startsWithin_true left, startsWithin_true right⟩
  | .call _ args => exprsWithin_true args

theorem exprsWithin_true : ∀ exprs : List Expr, Expr.AreWithin (fun _ => True) exprs
  | [] => trivial
  | first :: rest => ⟨startsWithin_true first, exprsWithin_true rest⟩

theorem segmentWithin_true : ∀ segment : Segment, segment.StartsWithin fun _ => True
  | .root | .current | .parent | .name _ => trivial
  | .dynamic key => ⟨startsWithin_true key, fun _ => trivial⟩

theorem segmentsWithin_true : ∀ segments : List Segment, Segment.AreWithin (fun _ => True) segments
  | [] => trivial
  | .dynamic key :: rest => ⟨startsWithin_true key, segmentsWithin_true rest⟩
  | .root :: rest | .current :: rest | .parent :: rest | .name _ :: rest => segmentsWithin_true rest

end

theorem tagWithin_true (t : Tag) : t.StartsWithin fun _ => True where
  directives d _ := startsWithin_true d.expr
  kind d _ := startsWithin_true d.expr
  runs _ _ _ _ expr _ := startsWithin_true expr

theorem argumentsWithin_true (t : Tag) : t.ArgumentsWithin fun _ => True :=
  fun _ _ expr _ => startsWithin_true expr

namespace Still

variable {e : Engine} {view view' : Nat} {lines : Nat → Nat → Prop}
  {P : ∀ {α : Type}, Render α → Render α → Prop} {C : Tag → Tag → Prop} {inner inner' : Renderer}
  {t t' : Tag}

section

variable (h : Still e view view' lines P)
  (hchild : ∀ {c c' : Tag}, C c c' →
    c.kind.belongsToParent = false ∧ c'.kind.belongsToParent = false ∨ c.Alike lines C c')
  (hinner : ∀ {c c' : Tag}, C c c' → c.kind.belongsToParent = false →
    P (inner.output c view .none) (inner'.output c' view' .none))
  (ht : t.Alike lines C t')

include hchild

/-- What children have to satisfy when expressions may start anywhere. -/
theorem child_within {c c' : Tag} (hc : C c c') :
    c.kind.belongsToParent = false ∧ c'.kind.belongsToParent = false ∨
      c.Alike lines C c' ∧ c.StartsWithin fun _ => True :=
  (hchild hc).imp_right fun halike => ⟨halike, tagWithin_true c⟩

include h hinner ht

theorem content : P (content inner view t) (content inner' view' t') :=
  h.toBeside.content (child_within hchild) hinner ht.children

theorem finish (key text : String) :
    P (finish e inner view t key text) (finish e inner' view' t' key text) := by
  refine h.bind (h.fillPlaceholders (child_within hchild) hinner ht (argumentsWithin_true t) text)
    fun text => ?_
  split
  · exact h.bind (h.warnAt ht.line fun _ _ => rfl) fun _ => h.pure _
  · exact h.pure _

theorem trans (key dict source : Option String) :
    P (trans e inner view t key dict source) (trans e inner' view' t' key dict source) := by
  have hcontent := h.content hchild hinner ht
  have htranslated (key : String) (found : Translation) :
      P (translated e inner view t dict key found)
        (translated e inner' view' t' dict key found) := by
    cases found with
    | found text => exact h.finish hchild hinner ht key text
    | missingEntry =>
      refine h.bind (h.warnAt ht.line ?_) fun _ => h.pure _
      exact fun _ _ => rfl
    | missingDictionary =>
      unfold translated
      exact h.failAt ht.line fun _ _ => rfl
  rw [trans_eq, trans_eq]
  refine h.language fun l => ?_
  unfold transIn
  split
  · exact h.bind hcontent fun text => h.finish hchild hinner ht _ text
  · have hfound (key : String) :
        P (do translated e inner view t dict key ((← get).views.translate view key dict))
          (do translated e inner' view' t' dict key ((← get).views.translate view' key dict)) :=
      h.translate (htranslated key)
    cases key with
    | some key => exact hfound key
    | none => exact h.bind hcontent hfound

omit hchild hinner ht in
theorem attaching (t t' : Tag) (file : String) (name source : Option String)
    (hload : ∀ language, P (consult (t.place view) (e.loadDictionary language file))
      (consult (t'.place view') (e.loadDictionary language file)))
    (hwarn : ∀ f, P (modify (Session.warn f)) (modify (Session.warn f)))
    (hattach : ∀ d, P (modify fun s => { s with views := s.views.attach name d view })
      (modify fun s => { s with views := s.views.attach name d view' })) :
    P (dictionary e view t file name source) (dictionary e view' t' file name source) := by
  rw [dictionary_eq, dictionary_eq]
  refine h.language fun l => ?_
  unfold dictionaryIn
  split
  · exact h.pure _
  · split
    · exact h.pure _
    · exact h.bind (hload _) fun d => h.bind (h.forM fun key => hwarn _) fun _ => hattach d

end

end Still

namespace Level

variable {e : Engine} {view view' : Nat} {lines : Nat → Nat → Prop}
  {P : ∀ {α : Type}, Render α → Render α → Prop} {C : Tag → Tag → Prop} {inner inner' : Renderer}
  {t t' : Tag}

section

variable (h : Level e view view' lines P)
  (hchild : ∀ {c c' : Tag}, C c c' →
    c.kind.belongsToParent = false ∧ c'.kind.belongsToParent = false ∨ c.Alike lines C c')
  (hinner : ∀ {c c' : Tag}, C c c' → c.kind.belongsToParent = false →
    P (inner.output c view .none) (inner'.output c' view' .none))
  (ht : t.Alike lines C t')

include h hchild hinner ht

theorem mounting (target : String) (value : Option Directive) :
    P (Render.mount e inner view t target value) (Render.mount e inner' view' t' target value) := by
  unfold Render.mount
  split
  · exact h.bind (h.evaluate ht.line (startsWithin_true _)) fun v => h.mount target v
  · exact h.bind (h.content hchild hinner ht) fun text => h.mount target _

omit hchild hinner in
theorem feed (feedClass : String) (target : Option String) :
    P (feed e view t feedClass target) (feed e view' t' feedClass target) := by
  refine h.bind (h.arguments ht (argumentsWithin_true t)) fun parameters => ?_
  refine h.bind (h.findFeed ht.line feedClass parameters) fun feed => ?_
  split
  · exact h.mount _ _
  · exact h.pure _
  · exact h.failAt ht.line fun _ _ => rfl

theorem kind
    (hinclusion : ∀ file, t.kind = .inclusion file →
      P (inclusion e inner view t file) (inclusion e inner' view' t' file))
    (hdictionary : ∀ file name source, t.kind = .dictionary file name source →
      P (dictionary e view t file name source) (dictionary e view' t' file name source)) :
    P (kind e inner view t) (kind e inner' view' t') := by
  unfold Render.kind
  rw [ht.kind]
  split
  · exact h.element (Still.child_within hchild) hinner ht (tagWithin_true t)
  · exact h.element (Still.child_within hchild) hinner ht (tagWithin_true t)
  · rename_i hkind
    exact hinclusion _ hkind
  · exact h.verbatim ht.line _
  · exact h.pure _
  · exact h.pure _
  · exact h.bind (h.feed ht _ _) fun _ => h.pure _
  · rename_i hkind
    exact h.bind (hdictionary _ _ _ hkind) fun _ => h.pure _
  · exact h.bind (h.mounting hchild hinner ht _ _) fun _ => h.pure _
  · exact h.trans hchild hinner ht _ _ _

theorem callMacro {name : String}
    (hinvoke : ∀ all, P (invoke inner view t name all) (invoke inner' view' t' name all)) :
    P (callMacro e inner view t name) (callMacro e inner' view' t' name) := by
  rw [callMacro_eq, callMacro_eq]
  exact h.bind (h.arguments ht (argumentsWithin_true t)) fun _ =>
    h.bind (h.parameters (Still.child_within hchild) hinner ht) fun _ => hinvoke _

/-- Tags that are written alike, if what they do by their kinds, in walks and with macros is
related, be it with templates from different sources. -/
theorem tagStep_of_walk {suppressed : Suppressed} {source source' : Source}
    (hwalk : ∀ d, t.directives.walk = some d → suppressed.walk = false →
      P (walk e inner view t d suppressed) (walk e inner' view' t' d suppressed))
    (hkind : P (Render.kind { e with source := source } inner view t)
      (Render.kind { e with source := source' } inner' view' t'))
    (hdefine : ∀ name, t.directives.macroName = some name →
      P (modify (Session.defineMacro name ⟨view, t.id⟩))
        (modify (Session.defineMacro name ⟨view', t'.id⟩)))
    (hinvoke : ∀ name, t.directives.call = some name → ∀ all,
      P (invoke inner view t name all) (invoke inner' view' t' name all)) :
    P (tagStep { e with source := source } inner t view suppressed)
      (tagStep { e with source := source' } inner' t' view' suppressed) := by
  have hcall (name : String) (hname : t.directives.call = some name) :=
    h.callMacro hchild hinner ht (hinvoke name hname)
  have hshown := h.shown ht (tagWithin_true t) h.recordSlot h.plug hcall hkind
  unfold Render.tagStep
  rw [ht.directives, walk_source, walk_source]
  split
  · rename_i d hd hsuppressed
    exact h.map some (hwalk d hd hsuppressed)
  · exact h.single ht (tagWithin_true t) hdefine hshown

end

end Level

namespace Along

variable {e : Engine} {view view' : Nat} {lines : Nat → Nat → Prop}
  {P : ∀ {α : Type}, Render α → Render α → Prop} {C : Tag → Tag → Prop} {inner inner' : Renderer}
  {t t' : Tag}

section

variable (h : Along e view view' lines P)
  (hchild : ∀ {c c' : Tag}, C c c' →
    c.kind.belongsToParent = false ∧ c'.kind.belongsToParent = false ∨ c.Alike lines C c')
  (hinner : ∀ {c c' : Tag}, C c c' → c.kind.belongsToParent = false →
    P (inner.output c view .none) (inner'.output c' view' .none))
  (ht : t.Alike lines C t')

include h hchild hinner ht

/-- Tags that are written alike, if what they do by their kinds and with macros is related, be it
with templates from different sources. -/
theorem tagStep_of_kind {suppressed : Suppressed} {source source' : Source}
    (hwalked : t.directives.walk.isSome → suppressed.walk = false →
      P (inner.output t view { suppressed with walk := true })
        (inner'.output t' view' { suppressed with walk := true }))
    (hkind : P (Render.kind { e with source := source } inner view t)
      (Render.kind { e with source := source' } inner' view' t'))
    (hdefine : ∀ name, t.directives.macroName = some name →
      P (modify (Session.defineMacro name ⟨view, t.id⟩))
        (modify (Session.defineMacro name ⟨view', t'.id⟩)))
    (hinvoke : ∀ name, t.directives.call = some name → ∀ all,
      P (invoke inner view t name all) (invoke inner' view' t' name all)) :
    P (tagStep { e with source := source } inner t view suppressed)
      (tagStep { e with source := source' } inner' t' view' suppressed) := by
  refine h.tagStep_of_walk hchild hinner ht (fun d hd hsuppressed => ?_) hkind hdefine hinvoke
  refine h.walk ht (startsWithin_true _) h.startWalk h.outside fun item => ?_
  exact h.bind (h.enterItem item) fun _ =>
    h.bind (hwalked (by simp [hd]) hsuppressed) fun a => h.bind h.leaveFrame fun _ => h.pure a

/-- Tags that are written alike, if what they do with templates, dictionaries and macros is
related. -/
theorem tagStep {suppressed : Suppressed}
    (hwalked : t.directives.walk.isSome → suppressed.walk = false →
      P (inner.output t view { suppressed with walk := true })
        (inner'.output t' view' { suppressed with walk := true }))
    (hinclusion : ∀ file, t.kind = .inclusion file →
      P (inclusion e inner view t file) (inclusion e inner' view' t' file))
    (hdictionary : ∀ file name source, t.kind = .dictionary file name source →
      P (dictionary e view t file name source) (dictionary e view' t' file name source))
    (hdefine : ∀ name, t.directives.macroName = some name →
      P (modify (Session.defineMacro name ⟨view, t.id⟩))
        (modify (Session.defineMacro name ⟨view', t'.id⟩)))
    (hinvoke : ∀ name, t.directives.call = some name → ∀ all,
      P (invoke inner view t name all) (invoke inner' view' t' name all)) :
    P (tagStep e inner t view suppressed) (tagStep e inner' t' view' suppressed) := by
  have hkind := h.kind hchild hinner ht hinclusion hdictionary
  exact h.tagStep_of_kind hchild hinner ht hwalked hkind hdefine hinvoke

end

end Along

end Render

end XmlTemplate
