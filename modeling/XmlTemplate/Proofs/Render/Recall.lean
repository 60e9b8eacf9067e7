import XmlTemplate.Proofs.Engine.Find
import XmlTemplate.Proofs.Render.Lockstep

/-!
# What a render remembers

A session remembers the functions that it has looked up, and the engine the expressions of texts.
As long as these are the functions of the engine and what parsing gives, all renders leave them so.
They stay in their language, and data that is an object stays one.
-/

namespace XmlTemplate

namespace Render

/-- The session is in the language and on an object, and what is remembered is what looking it up
again would give. -/
structure Recalls (e : Engine) (language : Option String) (s : Session) (m : Memory) : Prop where
  language : s.language = language
  root : ∃ fields : Table Value, s.root = .object fields
  functions : ∀ name f, s.functions.get? name = some f → e.function? name = some f
  parsed : ∀ source expr, m.parsed.get? source = some expr → Expr.parse source = .ok expr

/-- If what is remembered is right before the step, it is so whenever the step ends. -/
def Recalling (e : Engine) (language : Option String) (x : Render α) : Prop :=
  ∀ ⦃s m a s' m'⦄, Recalls e language s m → x s m = (.ok (a, s'), m') → Recalls e language s' m'

/-- The same step, with a property. -/
def Itself (P : ∀ {α : Type}, Render α → Prop) (x y : Render α) : Prop := y = x ∧ P x

theorem itself_pairs {P : ∀ {α : Type}, Render α → Prop} (h : Composes Render P) :
    Pairs Render (Itself P) where
  pure a := ⟨rfl, h.pure a⟩
  bind hx hf := by
    obtain ⟨rfl, hx⟩ := hx
    exact ⟨bind_congr fun a => (hf a).1, h.bind hx fun a => (hf a).2⟩

variable {e : Engine} {language : Option String} {s s' : Session} {m m' : Memory}

theorem Recalls.of_eq (h : Recalls e language s m) (hlanguage : s'.language = s.language)
    (hroot : s'.root = s.root) (hfunctions : s'.functions = s.functions)
    (hparsed : m'.parsed = m.parsed) :
    Recalls e language s' m' where
  language := hlanguage.trans h.language
  root := hroot ▸ h.root
  functions := hfunctions ▸ h.functions
  parsed := hparsed ▸ h.parsed

theorem Recalls.start (e : Engine) (fields : Table Value) (language : Option String)
    (hparsed : ∀ source expr, m.parsed.get? source = some expr → Expr.parse source = .ok expr) :
    Recalls e language (.start (.object fields) language) m :=
  ⟨rfl, ⟨fields, rfl⟩, nofun, hparsed⟩

-- ---------------------------------------------------------------------------
-- Steps
-- ---------------------------------------------------------------------------

theorem recalling_composes : Composes Render (Recalling e language) where
  pure a s m b s' m' h hr := by
    obtain ⟨-, rfl, rfl⟩ := pure_eq_ok_iff.1 hr
    exact h
  bind hx hf s m b s' m' h hr := by
    obtain ⟨a, t, n, hfirst, hrest⟩ := bind_eq_ok_iff.1 hr
    exact hf a (hx h hfirst) hrest

theorem recalling_modify {f : Session → Session} (hlanguage : ∀ s, (f s).language = s.language)
    (hroot : ∀ s, (f s).root = s.root) (hfunctions : ∀ s, (f s).functions = s.functions) :
    Recalling e language (modify f : Render Unit) := by
  intro s m a s' m' h hr
  cases hr
  exact h.of_eq (hlanguage s) (hroot s) (hfunctions s) rfl

theorem recalling_mount (target : String) (v : Value) :
    Recalling e language (modify (Session.mount target v)) := by
  intro s m a s' m' h hr
  cases hr
  obtain ⟨fields, hroot⟩ := h.root
  simp only [Session.mount, hroot]
  exact { h with root := ⟨_, rfl⟩ }

theorem recalling_consult (place : Place) {use : Memory → Except Fault α × Memory}
    (huse : ∀ m, (use m).2.parsed = m.parsed) : Recalling e language (consult place use) := by
  intro s m a s' m' h hr
  rw [consult_apply] at hr
  have hparsed := huse m
  generalize use m = r at hr hparsed
  obtain ⟨f | b, n⟩ := r
  · cases hr
  · cases hr
    exact h.of_eq rfl rfl rfl hparsed

/-- Parsing gives what it would give anew. -/
theorem parse_apply_of_recalls (h : Recalls e language s m) (place : Place) (source : String) :
    ∃ n, Recalls e language s n ∧ parse place source s m = match Expr.parse source with
      | .ok expr => (.ok (expr, s), n)
      | .error problem =>
        (.error (.fault (.syntaxError (s.location place.view place.line) source problem)), n) := by
  rw [parse_apply]
  cases hget : m.parsed.get? source with
  | some expr => exact ⟨m, h, by rw [h.parsed source expr hget]⟩
  | none =>
    cases hparse : Expr.parse source with
    | error problem => exact ⟨m, h, rfl⟩
    | ok expr =>
      exact ⟨_, { h with parsed := Table.forall_put hparse h.parsed }, rfl⟩

theorem recalling_call (place : Place) (name : String) (args : List Value) :
    Recalling e language (call e place name args) := by
  intro s m v s' m' h hr
  rw [call_apply] at hr
  split at hr
  · rename_i f t n hf
    have ht : Recalls e language t n := by
      rw [function_apply] at hf
      split at hf
      · cases hf
        exact h
      · split at hf
        · rename_i hfound
          cases hf
          exact { h with functions := Table.forall_put hfound h.functions }
        · cases hf
    split at hr
    · cases hr
      exact ht.of_eq rfl rfl rfl rfl
    · cases hr
  · cases hr

theorem recalling_failAt (place : Place) (f : Location → Fault) :
    Recalling e language (failAt place f : Render α) :=
  fun _ _ _ _ _ _ hr => nomatch hr

theorem recalling_local : Local e (Recalling e language) where
  toComposes := recalling_composes
  environment place :=
    { lookup := fun key s m a s' m' h hr => by
        cases hr
        exact h
      call := recalling_call place
      noText := recalling_failAt place .noText }
  parse place source s m expr s' m' h hr := by
    obtain ⟨n, hn, heq⟩ := parse_apply_of_recalls h place source
    rw [heq] at hr
    split at hr
    · cases hr
      exact hn
    · cases hr
  failAt := recalling_failAt

theorem findFeed_apply (e : Engine) (place : Place) (feedClass : String)
    (parameters : Table Value) :
    findFeed e place feedClass parameters s m = match s.feedClasses.get? feedClass with
      | some i => match (e.feeds[i]?).bind fun factory => factory feedClass parameters with
        | some feed => (.ok (feed, s), m)
        | none =>
          (.error (.fault (.unknownFeed (s.location place.view place.line) feedClass)), m)
      | none => match firstFeed? feedClass parameters e.feeds with
        | some (i, feed) =>
          (.ok (feed, { s with feedClasses := s.feedClasses.put feedClass i }), m)
        | none =>
          (.error (.fault (.unknownFeed (s.location place.view place.line) feedClass)), m) := by
  simp only [findFeed, bind_apply, get_apply]
  cases s.feedClasses.get? feedClass with
  | some i =>
    simp only
    cases (e.feeds[i]?).bind fun factory => factory feedClass parameters <;> rfl
  | none =>
    simp only
    cases firstFeed? feedClass parameters e.feeds <;> rfl

theorem recalling_get_bind {f : Session → Render α} (h : ∀ s, Recalling e language (f s)) :
    Recalling e language (get >>= f) :=
  fun s _ _ _ _ hs hr => h s hs hr

theorem recalling_along (view : Nat) :
    Along e view view Eq (Itself (Recalling e language)) where
  toPairs := itself_pairs recalling_composes
  evaluate hline expr _ := ⟨hline ▸ rfl, recalling_local.evaluate _ expr⟩
  evaluateAttribute hline raw _ := ⟨hline ▸ rfl, recalling_local.evaluateAttribute _ raw⟩
  failAt hline f _ := ⟨hline ▸ rfl, recalling_failAt _ f⟩
  warnAt hline _ _ := ⟨hline ▸ rfl, recalling_modify (fun _ => rfl) (fun _ => rfl) fun _ => rfl⟩
  language hfg := ⟨bind_congr fun s => (hfg s.language).1, recalling_get_bind fun s => (hfg _).2⟩
  translate hfg := ⟨bind_congr fun _ => (hfg _).1, recalling_get_bind fun _ => (hfg _).2⟩
  findFeed hline feedClass parameters := by
    refine ⟨hline ▸ rfl, fun s m feed s' m' h hr => ?_⟩
    rw [findFeed_apply] at hr
    split at hr
    · split at hr
      · cases hr
        exact h
      · cases hr
    · split at hr
      · cases hr
        exact h.of_eq rfl rfl rfl rfl
      · cases hr
  verbatim hline file := ⟨verbatim_of_line hline e view file, recalling_get_bind fun s =>
    recalling_composes.bind (recalling_consult _ fun _ => rfl) fun _ => recalling_composes.pure _⟩
  mount target v := ⟨rfl, recalling_mount target v⟩
  recordSlot _ := ⟨rfl, recalling_modify (fun _ => rfl) (fun _ => rfl) fun _ => rfl⟩
  plug _ _ _ := ⟨rfl, recalling_modify (fun _ => rfl) (fun _ => rfl) fun _ => rfl⟩
  startWalk _ := ⟨rfl, recalling_modify (fun _ => rfl) (fun _ => rfl) fun _ => rfl⟩
  outside := ⟨rfl, recalling_modify (fun _ => rfl) (fun _ => rfl) fun _ => rfl⟩
  enterItem _ := ⟨rfl, recalling_modify (fun _ => rfl) (fun _ => rfl) fun _ => rfl⟩
  leaveFrame := ⟨rfl, recalling_modify (fun _ => rfl) (fun _ => rfl) fun _ => rfl⟩

-- ---------------------------------------------------------------------------
-- Tags
-- ---------------------------------------------------------------------------

section

variable {inner : Renderer}
  (hinner : ∀ t view suppressed, Recalling e language (inner t view suppressed))

include hinner

theorem recalling_output (t : Tag) (view : Nat) (suppressed : Suppressed) :
    Recalling e language (inner.output t view suppressed) :=
  recalling_composes.map _ (hinner t view suppressed)

theorem recalling_inclusion (view : Nat) (t : Tag) (file : String) :
    Recalling e language (inclusion e inner view t file) := by
  intro s m text s' m' h hr
  rw [inclusion_apply] at hr
  have hparsed := e.parsed_load (Path.resolve (s.views.path view) file) m
  generalize e.load (Path.resolve (s.views.path view) file) m = r at hr hparsed
  obtain ⟨f | compiled, n⟩ := r
  · cases hr
  · have hadded : Recalls e language (s.addView compiled.template (some view)) n :=
      h.of_eq rfl rfl rfl hparsed
    exact recalling_output hinner _ _ _ hadded hr

theorem recalling_invoke (view : Nat) (t : Tag) (name : String) (all : Table Value) :
    Recalling e language (invoke inner view t name all) := by
  intro s m text s' m' h hr
  rw [invoke_apply] at hr
  split at hr
  · split at hr
    · rename_i body _ _ u _
      have hbody : Recalling e language (do
          let text ← inner.output u body.view ⟨false, true⟩
          modify (Session.leaveMacro s)
          return text : Render String) :=
        recalling_composes.bind (recalling_output hinner _ _ _) fun text =>
          recalling_composes.bind
            (recalling_modify (fun _ => rfl) (fun _ => rfl) fun _ => rfl) fun _ =>
            recalling_composes.pure text
      have hentered : Recalls e language (s.enterMacro all) m := h.of_eq rfl rfl rfl rfl
      exact hbody hentered hr
    · cases hr
      exact h
  · cases hr
    exact h.of_eq rfl rfl rfl rfl

theorem recalling_tagStep (t : Tag) (view : Nat) (suppressed : Suppressed) :
    Recalling e language (tagStep e inner t view suppressed) := by
  have halike (t : Tag) : t.Alike Eq Eq t := .self t rfl fun _ _ => rfl
  refine ((recalling_along view).tagStep (C := Eq) (fun hc => .inr (hc ▸ halike _))
    (fun hc _ => hc ▸ ⟨rfl, recalling_output hinner _ _ _⟩) (halike t)
    (fun _ _ => ⟨rfl, recalling_output hinner _ _ _⟩)
    (fun file _ => ⟨rfl, recalling_inclusion hinner view t file⟩) (fun file name source _ => ?_)
    (fun _ _ => ⟨rfl, recalling_modify (fun _ => rfl) (fun _ => rfl) fun _ => rfl⟩)
    fun name _ all => ⟨rfl, recalling_invoke hinner view t name all⟩).2
  exact (recalling_along view).attaching t t file name source
    (fun _ => ⟨rfl, recalling_consult _ fun _ => rfl⟩)
    (fun _ => ⟨rfl, recalling_modify (fun _ => rfl) (fun _ => rfl) fun _ => rfl⟩)
    fun _ => ⟨rfl, recalling_modify (fun _ => rfl) (fun _ => rfl) fun _ => rfl⟩

end

/-- A tag leaves what is remembered right. -/
theorem recalling_tag (e : Engine) (language : Option String) (depth : Nat) (t : Tag) (view : Nat)
    (suppressed : Suppressed) : Recalling e language (tag e depth t view suppressed) := by
  induction depth generalizing t view suppressed with
  | zero => exact fun _ _ _ _ _ _ hr => nomatch hr
  | succ depth ih => exact recalling_tagStep ih t view suppressed

end Render

end XmlTemplate
