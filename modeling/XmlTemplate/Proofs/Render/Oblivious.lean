import XmlTemplate.Proofs.Render.Anew
import XmlTemplate.Proofs.Render.Depth

/-!
# Steps that remember nothing

Besides the three look-ups, no step of a render looks at what is remembered of functions, feeds and
expressions. So beside every render stands one that looks all of this up anew.
-/

namespace XmlTemplate

theorem Memory.files_recalling (m : Memory) (exprs : Table Expr) :
    (m.recalling exprs).files = m.files := rfl

theorem Memory.compiled_recalling (m : Memory) (exprs : Table Expr) :
    (m.recalling exprs).compiled = m.compiled := rfl

theorem Engine.loadRevision_recalling (e : Engine) (path : String) (revision : Revision)
    (m : Memory) (exprs : Table Expr) :
    e.loadRevision path revision (m.recalling exprs) =
      ((e.loadRevision path revision m).1, (e.loadRevision path revision m).2.recalling exprs) := by
  simp only [loadRevision, Memory.files_recalling]
  cases e.cache.bind fun cache => cache.loadTemplate? path revision.modified m.files with
  | some template => rfl
  | none => cases e.compile path revision.text <;> rfl

theorem Engine.load_recalling (e : Engine) (path : String) (m : Memory) (exprs : Table Expr) :
    e.load path (m.recalling exprs) =
      ((e.load path m).1, (e.load path m).2.recalling exprs) := by
  simp only [load, Memory.files_recalling, Memory.compiled_recalling]
  cases e.source.read m.files (Path.normalize path) with
  | error fault => rfl
  | ok revision =>
    cases m.compiled.get? (Path.normalize path) with
    | none => exact e.loadRevision_recalling _ _ _ _
    | some p =>
      obtain ⟨modified, compiled⟩ := p
      simp only
      split
      · rfl
      · exact e.loadRevision_recalling _ _ _ _

namespace Render

variable {e : Engine} {s : Session} {m : Memory}

-- ---------------------------------------------------------------------------
-- Oblivious steps
-- ---------------------------------------------------------------------------

theorem oblivious_pure {α : Type} (a : α) : IsOblivious (pure a : Render α) :=
  fun _ _ _ _ _ => rfl

theorem oblivious_throw {α : Type} (stop : Stop) : IsOblivious (throw stop : Render α) :=
  fun _ _ _ _ _ => rfl

theorem oblivious_failAt {α : Type} (place : Place) (f : Location → Fault) :
    IsOblivious (failAt place f : Render α) :=
  fun _ _ _ _ _ => rfl

/-- A part of the session is seen that is not remembered. -/
theorem oblivious_see {β : Type} (see : Session → β)
    (h : ∀ functions feedClasses s, see (s.remembering functions feedClasses) = see s) :
    IsOblivious (do return see (← get) : Render β) := by
  intro functions feedClasses exprs s m
  simp only [bind_apply, get_apply, pure_apply, h]
  rfl

theorem oblivious_modify {f : Session → Session}
    (h : ∀ functions feedClasses s,
      f (s.remembering functions feedClasses) = (f s).remembering functions feedClasses) :
    IsOblivious (modify f : Render Unit) := by
  intro functions feedClasses exprs s m
  change (Except.ok ((), f (s.remembering functions feedClasses)), m.recalling exprs) = _
  rw [h]
  rfl

theorem oblivious_consult {α : Type} (place : Place) {use : Memory → Except Fault α × Memory}
    (h : ∀ exprs m, use (m.recalling exprs) = ((use m).1, (use m).2.recalling exprs)) :
    IsOblivious (consult place use) := by
  intro functions feedClasses exprs s m
  rw [consult_apply, consult_apply, h]
  rcases use m with ⟨_ | a, n⟩ <;> rfl

theorem oblivious_verbatim (view : Nat) (t : Tag) (file : String) :
    IsOblivious (verbatim e view t file) := by
  intro functions feedClasses exprs s m
  simp only [verbatim, bind_apply, get_apply, consult_apply]
  have hread : e.source.read (m.recalling exprs).files
      (Path.resolve ((s.remembering functions feedClasses).views.path view) file) =
        e.source.read m.files (Path.resolve (s.views.path view) file) := rfl
  rw [hread]
  cases e.source.read m.files (Path.resolve (s.views.path view) file) <;> rfl

/-- A further view, and its number. -/
def openView (template : Template) (parent : Option Nat) : Render Nat := do
  let s ← get
  set (s.addView template parent)
  return s.views.length

theorem oblivious_openView (template : Template) (parent : Option Nat) :
    IsOblivious (openView template parent) :=
  fun _ _ _ _ _ => rfl

/-- Call a function that was looked up. -/
def apply (e : Engine) (place : Place) (f : Function) (args : List Value) : Render Value := do
  let s ← get
  set { s with calls := s.calls + 1 }
  match f (anchor e place s) args with
  | .ok v => return v
  | .error stop => throw stop

theorem oblivious_apply (place : Place) (f : Function) (args : List Value) :
    IsOblivious (apply e place f args) := by
  intro functions feedClasses exprs s m
  have happly (s : Session) (m : Memory) : apply e place f args s m =
      match f (anchor e place s) args with
      | .ok v => (.ok (v, { s with calls := s.calls + 1 }), m)
      | .error stop => (.error stop, m) := by
    simp only [apply, bind_apply, get_apply, set_apply]
    cases f (anchor e place s) args <;> rfl
  rw [happly, happly]
  change (match f (anchor e place s) args with
    | .ok v => _
    | .error stop => _) = _
  cases f (anchor e place s) args <;> rfl

-- ---------------------------------------------------------------------------
-- Steps that can be taken anew
-- ---------------------------------------------------------------------------

/-- There is a step that does the same and looks everything up anew. -/
def Renewable (e : Engine) {α : Type} (x : Render α) : Prop := ∃ y, Anew e x y

theorem IsOblivious.renewable {α : Type} {x : Render α} (h : IsOblivious x) : Renewable e x :=
  ⟨_, .same h⟩

theorem renewable_composes : Composes Render (Renewable e) where
  pure a := (oblivious_pure a).renewable
  bind hx hf := by
    obtain ⟨y, hy⟩ := hx
    choose g hg using hf
    exact ⟨_, .bind hy hg⟩

theorem renewable_see {α β : Type} (see : Session → β) {f : β → Render α}
    (hsee : ∀ functions feedClasses s, see (s.remembering functions feedClasses) = see s)
    (hf : ∀ b, Renewable e (f b)) : Renewable e (do f (see (← get))) := by
  have heq : (do f (see (← get)) : Render α) = (do return see (← get)) >>= f := by
    simp only [bind_assoc, pure_bind]
  rw [heq]
  exact renewable_composes.bind (oblivious_see see hsee).renewable hf

theorem renewable_modify {f : Session → Session}
    (h : ∀ functions feedClasses s,
      f (s.remembering functions feedClasses) = (f s).remembering functions feedClasses) :
    Renewable e (modify f : Render Unit) :=
  (oblivious_modify h).renewable

theorem renewable_local : Local e (Renewable e) where
  toComposes := renewable_composes
  environment place :=
    { lookup := fun _ => (oblivious_see _ fun _ _ _ => rfl).renewable
      call := fun name args => renewable_composes.bind ⟨_, .function place name⟩ fun f =>
        (oblivious_apply place f args).renewable
      noText := (oblivious_failAt place .noText).renewable }
  parse place source := ⟨_, .parse place source⟩
  failAt place f := (oblivious_failAt place f).renewable

theorem mount_remembering (target : String) (v : Value) (functions : Table Function)
    (feedClasses : Table Nat) (s : Session) :
    (s.remembering functions feedClasses).mount target v =
      (s.mount target v).remembering functions feedClasses := by
  obtain ⟨_, root, _⟩ := s
  cases root <;> rfl

theorem renewable_along (view : Nat) : Along e view view Eq (Itself (Renewable e)) where
  toPairs := itself_pairs renewable_composes
  evaluate hline expr _ := ⟨hline ▸ rfl, renewable_local.evaluate _ expr⟩
  evaluateAttribute hline raw _ := ⟨hline ▸ rfl, renewable_local.evaluateAttribute _ raw⟩
  failAt hline f _ := ⟨hline ▸ rfl, renewable_local.failAt _ f⟩
  warnAt hline _ _ := ⟨hline ▸ rfl, renewable_modify fun _ _ _ => rfl⟩
  language hfg := ⟨bind_congr fun s => (hfg s.language).1,
    renewable_see Session.language (fun _ _ _ => rfl) fun l => (hfg l).2⟩
  translate {_ key dict _ _} hfg := ⟨bind_congr fun _ => (hfg _).1,
    renewable_see (fun s => s.views.translate view key dict) (fun _ _ _ => rfl)
      fun found => (hfg found).2⟩
  findFeed hline feedClass parameters := ⟨hline ▸ rfl, ⟨_, .findFeed _ feedClass parameters⟩⟩
  verbatim {t _} hline file :=
    ⟨verbatim_of_line hline e view file, (oblivious_verbatim view t file).renewable⟩
  mount target v := ⟨rfl, renewable_modify (mount_remembering target v)⟩
  recordSlot _ := ⟨rfl, renewable_modify fun _ _ _ => rfl⟩
  plug _ _ _ := ⟨rfl, renewable_modify fun _ _ _ => rfl⟩
  startWalk _ := ⟨rfl, renewable_modify fun _ _ _ => rfl⟩
  outside := ⟨rfl, renewable_modify fun _ _ _ => rfl⟩
  enterItem _ := ⟨rfl, renewable_modify fun _ _ _ => rfl⟩
  leaveFrame := ⟨rfl, renewable_modify fun _ _ _ => rfl⟩

-- ---------------------------------------------------------------------------
-- Tags
-- ---------------------------------------------------------------------------

theorem inclusion_eq (e : Engine) (inner : Renderer) (view : Nat) (t : Tag) (file : String) :
    inclusion e inner view t file = (do
      let compiled ← consult (t.place view) (e.load (Path.resolve ((← get).views.path view) file))
      let index ← openView compiled.template (some view)
      inner.output compiled.template.root index .none) := by
  funext s m
  rw [inclusion_apply]
  simp only [bind_apply, get_apply, consult_apply]
  rcases e.load (Path.resolve (s.views.path view) file) m with ⟨_ | compiled, n⟩
  · rfl
  · simp only [openView, bind_apply, get_apply, set_apply, pure_apply]

/-- The body that a name of a macro stands for, and its tag. -/
def calledMacro (name : String) (s : Session) : Option (MacroBody × Option Tag) :=
  (s.macros.get? name).map fun body =>
    (body, (s.views[body.view]?).bind fun v => v.template.find? body.tag)

/-- Render the body of a macro that was looked up, called among some walks. -/
def invokeFound (inner : Renderer) (view : Nat) (t : Tag) (name : String) (all : Table Value) :
    Option (MacroBody × Option Tag) × List Iteration → Render String
  | (some (body, some u), iterations) => do
    modify (Session.enterMacro all)
    let text ← inner.output u body.view ⟨false, true⟩
    modify fun after => { after with frames := after.frames.tail, iterations := iterations }
    return text
  | (some (_, none), _) => return ""
  | (none, _) => do
    warnAt (t.place view) fun location => .unknownMacro location name
    return ""

theorem invoke_eq (inner : Renderer) (view : Nat) (t : Tag) (name : String) (all : Table Value) :
    invoke inner view t name all = (do
      let s ← get
      invokeFound inner view t name all (calledMacro name s, s.iterations)) := by
  funext s m
  rw [invoke_apply, bind_apply, get_apply]
  simp only [calledMacro]
  cases s.macros.get? name with
  | none => rfl
  | some body =>
    simp only [Option.map_some]
    cases (s.views[body.view]?).bind fun v => v.template.find? body.tag <;> rfl

section

variable {inner : Renderer} (hinner : ∀ t view suppressed, Renewable e (inner t view suppressed))

include hinner

theorem renewable_output (t : Tag) (view : Nat) (suppressed : Suppressed) :
    Renewable e (inner.output t view suppressed) :=
  renewable_composes.map _ (hinner t view suppressed)

theorem renewable_inclusion (view : Nat) (t : Tag) (file : String) :
    Renewable e (inclusion e inner view t file) := by
  rw [inclusion_eq]
  refine @renewable_see e _ _ (fun s => Path.resolve (s.views.path view) file)
    (f := fun path => consult (t.place view) (e.load path) >>= fun compiled =>
      openView compiled.template (some view) >>= fun index =>
        inner.output compiled.template.root index .none) (fun _ _ _ => rfl) fun path => ?_
  refine renewable_composes.bind (oblivious_consult _ fun exprs m => ?_).renewable fun compiled =>
    renewable_composes.bind (oblivious_openView _ _).renewable fun index =>
      renewable_output hinner _ _ _
  exact e.load_recalling path m exprs

theorem renewable_invoke (view : Nat) (t : Tag) (name : String) (all : Table Value) :
    Renewable e (invoke inner view t name all) := by
  rw [invoke_eq]
  refine renewable_see (fun s => (calledMacro name s, s.iterations)) (fun _ _ _ => rfl)
    fun found => ?_
  unfold invokeFound
  split
  · exact renewable_composes.bind (renewable_modify fun _ _ _ => rfl) fun _ =>
      renewable_composes.bind (renewable_output hinner _ _ _) fun text =>
        renewable_composes.bind (renewable_modify fun _ _ _ => rfl) fun _ =>
          renewable_composes.pure text
  · exact renewable_composes.pure _
  · exact renewable_composes.bind (renewable_modify fun _ _ _ => rfl) fun _ =>
      renewable_composes.pure _

theorem renewable_tagStep (t : Tag) (view : Nat) (suppressed : Suppressed) :
    Renewable e (tagStep e inner t view suppressed) := by
  refine ((renewable_along view).tagStep (C := Eq) (fun hc => .inr (hc ▸ alike_eq _))
    (fun hc _ => hc ▸ ⟨rfl, renewable_output hinner _ _ _⟩) (alike_eq t)
    (fun _ _ => ⟨rfl, renewable_output hinner _ _ _⟩)
    (fun file _ => ⟨rfl, renewable_inclusion hinner view t file⟩) (fun file name source _ => ?_)
    (fun _ _ => ⟨rfl, renewable_modify fun _ _ _ => rfl⟩)
    fun name _ all => ⟨rfl, renewable_invoke hinner view t name all⟩).2
  exact (renewable_along view).attaching t t file name source
    (fun _ => ⟨rfl, (oblivious_consult _ fun _ _ => rfl).renewable⟩)
    (fun _ => ⟨rfl, renewable_modify fun _ _ _ => rfl⟩)
    fun _ => ⟨rfl, renewable_modify fun _ _ _ => rfl⟩

end

theorem renewable_tag (e : Engine) (depth : Nat) (t : Tag) (view : Nat) (suppressed : Suppressed) :
    Renewable e (tag e depth t view suppressed) := by
  induction depth generalizing t view suppressed with
  | zero => exact (oblivious_throw .depth).renewable
  | succ depth ih => exact renewable_tagStep ih t view suppressed

/-- Beside the render of a page stands one that looks everything up anew. -/
theorem renewable_page (e : Engine) (depth : Nat) (template : Template) :
    Renewable e (page e depth template) := by
  refine renewable_composes.bind (renewable_modify fun _ _ _ => rfl) fun _ =>
    renewable_composes.bind (renewable_tag e depth _ _ _) fun output => ?_
  exact (oblivious_see (fun s => String.join (template.instructions.map (· ++ "\n")) ++
    Slot.splice s.slots s.plugs (output.getD "")) fun _ _ _ => rfl).renewable

end Render

end XmlTemplate
