import XmlTemplate.Proofs.Expr.Effect
import XmlTemplate.Render.Tag

/-!
# Steps of a render

What finished steps come to, and properties of steps that pass from the steps of expressions at a
place to all that is made of them: flags, texts, arguments, attribute values, placeholders.
-/

namespace XmlTemplate

namespace Session

/-- The session as it is for an item of a walk, with its key. -/
def enterItem (item : Value × Value) (s : Session) : Session :=
  { s with
    frames := item.2 :: s.frames
    iterations := s.iterations.modifyHead (Iteration.advance item.1) }

/-- The session as it is outside of the innermost frame. -/
def leaveFrame (s : Session) : Session := { s with frames := s.frames.tail }

/-- The session as it is at the start of a walk. -/
def startWalk (count : Nat) (s : Session) : Session :=
  { s with iterations := .start count :: s.iterations }

/-- The session as it is outside of the innermost walk. -/
def outside (s : Session) : Session := { s with iterations := s.iterations.tail }

/-- The session as it is for the body of a macro. -/
def enterMacro (arguments : Table Value) (s : Session) : Session :=
  { s with frames := .object arguments :: s.frames, iterations := [] }

/-- The session as it is behind the body of a macro that was called in another session. -/
def leaveMacro (caller s : Session) : Session :=
  { s with frames := s.frames.tail, iterations := caller.iterations }

end Session

namespace Render

variable {s s' : Session} {m m' : Memory}

/-! ## Finished steps -/

theorem bind_eq_ok_iff {x : Render α} {f : α → Render β} {b : β} :
    (x >>= f) s m = (.ok (b, s'), m') ↔
      ∃ a s₁ m₁, x s m = (.ok (a, s₁), m₁) ∧ f a s₁ m₁ = (.ok (b, s'), m') := by
  rw [bind_apply]
  cases x s m with
  | mk result m₁ =>
    cases result with
    | error stop => exact ⟨nofun, fun ⟨_, _, _, h, _⟩ => nomatch h⟩
    | ok p =>
      constructor
      · intro h
        exact ⟨p.1, p.2, m₁, rfl, h⟩
      · rintro ⟨a, s₁, m₁, h, hf⟩
        cases h
        exact hf

theorem bind_eq_error_iff {x : Render α} {f : α → Render β} {stop : Stop} :
    (x >>= f) s m = (.error stop, m') ↔
      x s m = (.error stop, m') ∨
        ∃ a s₁ m₁, x s m = (.ok (a, s₁), m₁) ∧ f a s₁ m₁ = (.error stop, m') := by
  rw [bind_apply]
  rcases x s m with ⟨other | ⟨a, s₁⟩, m₁⟩
  · constructor
    · intro h
      cases h
      exact .inl rfl
    · rintro (h | ⟨_, _, _, h, -⟩) <;> cases h
      rfl
  · constructor
    · exact fun h => .inr ⟨a, s₁, m₁, rfl, h⟩
    · rintro (h | ⟨_, _, _, hx, hf⟩)
      · cases h
      · cases hx
        exact hf

theorem bind_pure_eq_error_iff {x : Render α} {f : α → β} {stop : Stop} :
    (do let a ← x; return f a : Render β) s m = (.error stop, m') ↔ x s m = (.error stop, m') := by
  rw [bind_eq_error_iff]
  constructor
  · rintro (h | ⟨_, _, _, -, h⟩)
    · exact h
    · cases h
  · exact .inl

theorem pure_eq_ok_iff {a b : α} :
    (pure a : Render α) s m = (.ok (b, s'), m') ↔ a = b ∧ s = s' ∧ m = m' := by
  constructor
  · intro h
    cases h
    exact ⟨rfl, rfl, rfl⟩
  · rintro ⟨rfl, rfl, rfl⟩
    rfl

@[simp] theorem get_apply : (get : Render Session) s m = (.ok (s, s), m) := rfl

@[simp] theorem set_apply (t : Session) : (set t : Render Unit) s m = (.ok ((), t), m) := rfl

@[simp] theorem getMemory_apply : (getThe Memory : Render Memory) s m = (.ok (m, s), m) := rfl

@[simp] theorem setMemory_apply (n : Memory) : (set n : Render Unit) s m = (.ok ((), s), n) := rfl

/-! ## Walks and macros -/

/-- The output of a walk after one more item. -/
def joined (t : Tag) (done fragment : String) : String :=
  if fragment == "" then done
  else if done == "" then fragment
  else done ++ t.indent.getD "" ++ fragment

theorem addItem_eq (inner : Renderer) (view : Nat) (t : Tag) (suppressed : Suppressed)
    (done : String) (item : Value × Value) :
    addItem inner view t suppressed done item = (do
      modify (Session.enterItem item)
      let fragment ← inner t view suppressed
      modify Session.leaveFrame
      return joined t done (fragment.getD "")) := by
  refine bind_congr fun _ => bind_congr fun fragment => bind_congr fun _ => ?_
  simp only [joined]
  split
  · rfl
  · split <;> rfl

theorem of_addItem_eq_ok {inner : Renderer} {view : Nat} {t : Tag} {suppressed : Suppressed}
    {done done' : String} {item : Value × Value}
    (h : addItem inner view t suppressed done item s m = (.ok (done', s'), m')) :
    ∃ fragment s₁, inner t view suppressed (s.enterItem item) m = (.ok (fragment, s₁), m') ∧
      done' = joined t done (fragment.getD "") ∧ s' = s₁.leaveFrame := by
  rw [addItem_eq] at h
  obtain ⟨_, _, _, hpush, h⟩ := bind_eq_ok_iff.1 h
  cases hpush
  obtain ⟨fragment, s₁, m₁, hrun, h⟩ := bind_eq_ok_iff.1 h
  obtain ⟨_, _, _, hpop, h⟩ := bind_eq_ok_iff.1 h
  cases hpop
  obtain ⟨rfl, rfl, rfl⟩ := pure_eq_ok_iff.1 h
  exact ⟨fragment, s₁, hrun, rfl, rfl⟩

theorem of_walk_eq_ok {e : Engine} {inner : Renderer} {view : Nat} {t : Tag} {d : Directive}
    {suppressed : Suppressed} {output : String}
    (h : walk e inner view t d suppressed s m = (.ok (output, s'), m')) :
    ∃ v s₁ m₁ s₂, evaluate e (t.place view) d.expr s m = (.ok (v, s₁), m₁) ∧
      (items v).foldlM (addItem inner view t { suppressed with walk := true }) ""
        (s₁.startWalk (items v).length) m₁ = (.ok (output, s₂), m') ∧ s' = s₂.outside := by
  obtain ⟨v, s₁, m₁, hv, h⟩ := bind_eq_ok_iff.1 h
  obtain ⟨_, _, _, hstart, h⟩ := bind_eq_ok_iff.1 h
  cases hstart
  obtain ⟨_, s₂, _, hitems, h⟩ := bind_eq_ok_iff.1 h
  cases h
  exact ⟨v, s₁, m₁, s₂, hv, hitems, rfl⟩

theorem of_macroBody_eq_ok {inner : Renderer} {arguments : Table Value} {body : MacroBody}
    {output : String} (h : macroBody inner arguments body s m = (.ok (output, s'), m')) :
    s' = s ∨ ∃ t fragment s₁,
      inner t body.view ⟨false, true⟩ (s.enterMacro arguments) m = (.ok (fragment, s₁), m') ∧
        s' = s.leaveMacro s₁ := by
  obtain ⟨_, _, _, hget, h⟩ := bind_eq_ok_iff.1 h
  cases hget
  cases hfound : (s.views[body.view]?).bind fun v => v.template.find? body.tag with
  | none =>
    simp only [hfound] at h
    cases h
    exact .inl rfl
  | some t =>
    simp only [hfound] at h
    obtain ⟨_, _, _, henter, h⟩ := bind_eq_ok_iff.1 h
    cases henter
    obtain ⟨fragment, s₁, _, hrun, h⟩ := bind_eq_ok_iff.1 h
    cases h
    exact .inr ⟨t, fragment, s₁, hrun, rfl⟩

/-! ## What the engine is asked for -/

theorem consult_apply (place : Place) (use : Memory → Except Fault α × Memory) :
    consult place use s m = match use m with
      | (.ok a, n) => (.ok (a, s), n)
      | (.error f, n) => (.error (.fault (f.locate (s.location place.view place.line))), n) := by
  simp only [consult, bind_apply, get_apply, getMemory_apply, setMemory_apply]
  cases use m with
  | mk result n => cases result <;> rfl

theorem parse_apply (place : Place) (source : String) :
    parse place source s m = match m.parsed.get? source with
      | some expr => (.ok (expr, s), m)
      | none => match Expr.parse source with
        | .ok expr => (.ok (expr, s), { m with parsed := m.parsed.put source expr })
        | .error problem =>
          (.error (.fault (.syntaxError (s.location place.view place.line) source problem)),
            m) := by
  simp only [parse, bind_apply, getMemory_apply]
  cases m.parsed.get? source with
  | some expr => rfl
  | none => cases Expr.parse source <;> rfl

theorem function_apply (e : Engine) (place : Place) (name : String) :
    function e place name s m = match s.functions.get? name with
      | some f => (.ok (f, s), m)
      | none => match e.function? name with
        | some f => (.ok (f, { s with functions := s.functions.put name f }), m)
        | none =>
          (.error (.fault (.unknownFunction (s.location place.view place.line) name)), m) := by
  simp only [function, bind_apply, get_apply]
  cases s.functions.get? name with
  | some f => rfl
  | none => cases e.function? name <;> rfl

/-- What a function sees when it is called at a place. -/
def anchor (e : Engine) (place : Place) (s : Session) : Anchor :=
  { location := s.location place.view place.line, iteration := s.iteration,
    language := s.language, constants := e.constants, now := e.now, serial := s.calls }

theorem call_apply (e : Engine) (place : Place) (name : String) (args : List Value) :
    call e place name args s m = match function e place name s m with
      | (.ok (f, s), m) => match f (anchor e place s) args with
        | .ok v => (.ok (v, { s with calls := s.calls + 1 }), m)
        | .error stop => (.error stop, m)
      | (.error stop, m) => (.error stop, m) := by
  simp only [call, bind_apply, get_apply, set_apply]
  cases function e place name s m with
  | mk result n =>
    cases result with
    | error stop => rfl
    | ok p =>
      obtain ⟨f, t⟩ := p
      unfold anchor
      simp only
      split
      · rename_i v h
        rw [h]
        rfl
      · rename_i stop h
        rw [h]
        rfl

/-! ## Parts of steps -/

/-- The content of an element, filtered. -/
def filtered (e : Engine) (view : Nat) (t : Tag) (text : String) : Render String :=
  match t.directives.filter with
  | some name => filter e (t.place view) name text
  | none => return text

theorem body_eq (e : Engine) (inner : Renderer) (view : Nat) (t : Tag) :
    body e inner view t = (match t.directives.text with
      | some d => evaluateText e (t.place view) d.expr
      | none => content inner view t) >>= filtered e view t := by
  unfold body
  cases t.directives.text <;> rfl

/-- What becomes of a key that was looked up. -/
def translated (e : Engine) (inner : Renderer) (view : Nat) (t : Tag) (dict : Option String)
    (key : String) : Translation → Render String
  | .found text => finish e inner view t key text
  | .missingEntry => do
    warnAt (t.place view) fun location => .missingEntry location key
    return key
  | .missingDictionary =>
    failAt (t.place view) fun location => .unknownDictionary location (dict.getD "")

/-- Translate the key of a tag in a render in a language. -/
def transIn (e : Engine) (inner : Renderer) (view : Nat) (t : Tag) (key dict source : Option String)
    (language : Option String) : Render String :=
  if source == language then do
    let text ← content inner view t
    finish e inner view t (key.getD "") text
  else do
    let key ← match key with
      | some key => pure key
      | none => content inner view t
    translated e inner view t dict key ((← get).views.translate view key dict)

theorem trans_eq (e : Engine) (inner : Renderer) (view : Nat) (t : Tag)
    (key dict source : Option String) : trans e inner view t key dict source =
      (do transIn e inner view t key dict source (← get).language) := by
  cases key <;> rfl

/-! ## Steps at a place -/

/-- A property that the steps of expressions have, wherever they are. -/
structure Local (e : Engine) (P : ∀ {α : Type}, Render α → Prop) : Prop
    extends Composes Render P where
  environment (place : Place) : (environment e place).All P
  parse (place : Place) (source : String) : P (parse place source)
  failAt {α : Type} (place : Place) (f : Location → Fault) : P (failAt place f : Render α)

namespace Local

variable {e : Engine} {P Q : ∀ {α : Type}, Render α → Prop}

theorem mono (h : Local e P) (hcomposes : Composes Render Q)
    (hweaker : ∀ {α : Type} {x : Render α}, P x → Q x) : Local e Q where
  toComposes := hcomposes
  environment place :=
    { lookup := fun key => hweaker ((h.environment place).lookup key)
      call := fun name args => hweaker ((h.environment place).call name args)
      noText := hweaker (h.environment place).noText }
  parse place source := hweaker (h.parse place source)
  failAt place f := hweaker (h.failAt place f)

theorem evaluate (h : Local e P) (place : Place) (expr : Expr) : P (evaluate e place expr) :=
  h.toComposes.evaluate (h.environment place) expr

theorem textOf (h : Local e P) (place : Place) (v : Value) : P (textOf place v) := by
  unfold Render.textOf
  split
  · exact h.pure _
  · exact h.failAt place _

theorem evaluateAttribute (h : Local e P) (place : Place) (raw : String) :
    P (evaluateAttribute e place raw) :=
  h.bind (h.parse place _) fun expr => h.evaluate place expr

theorem evaluateText (h : Local e P) (place : Place) (expr : Expr) :
    P (evaluateText e place expr) :=
  h.bind (h.evaluate place expr) fun v => h.textOf place v

theorem flag (h : Local e P) (place : Place) (d : Option Directive) : P (flag e place d) := by
  unfold Render.flag
  split
  · exact h.bind (h.evaluate place _) fun v => h.pure _
  · exact h.pure _

theorem condition (h : Local e P) (view : Nat) (t : Tag) : P (condition e view t) := by
  unfold Render.condition
  split
  · exact h.flag _ _
  · exact h.pure _

theorem arguments (h : Local e P) (view : Nat) (t : Tag) : P (arguments e view t) :=
  h.foldlM (fun _ _ => h.bind (h.evaluateAttribute _ _) fun _ => h.pure _) _ _

theorem interpolate (h : Local e P) (place : Place) (raw : String) :
    P (interpolate e place raw) := by
  refine h.bind (h.foldlM (fun done piece => ?_) _ _) fun parts => h.pure _
  cases piece with
  | literal text => exact h.pure _
  | run expression =>
    exact h.bind (h.evaluateAttribute _ _) fun v => h.bind (h.textOf _ v) fun text => h.pure _

theorem addPlain (h : Local e P) (place : Place) (done : Table String)
    (plain : String × String) : P (addPlain e place done plain) :=
  h.bind (h.interpolate _ _) fun _ => h.pure _

theorem placeholder (h : Local e P) (view : Nat) (t : Tag) (parameters : Table Value)
    (name : String) : P (placeholder e view t parameters name) := by
  unfold Render.placeholder
  split
  · exact h.textOf _ _
  · split
    · exact h.bind (h.evaluateAttribute _ _) fun v => h.textOf _ v
    · exact h.pure _

theorem addPlaceholder (h : Local e P) (view : Nat) (t : Tag) (parameters : Table Value)
    (known : Table String) (piece : Piece) :
    P (addPlaceholder e view t parameters known piece) := by
  cases piece with
  | literal text => exact h.pure _
  | run name =>
    simp only [Render.addPlaceholder]
    split
    · exact h.pure _
    · exact h.bind (h.placeholder view t parameters _) fun text => h.pure _

theorem emptyEnd (h : Local e P) (view : Nat) (t : Tag) : P (emptyEnd e view t) := by
  have hend (isClosed : Bool) :
      P (if isClosed then pure " />" else pure ("></" ++ t.name ++ ">") : Render String) := by
    split <;> exact h.pure _
  simp only [Render.emptyEnd]
  split
  · exact h.bind (h.pure true) hend
  · exact h.bind (h.flag _ _) hend

theorem elementEnd (h : Local e P) (view : Nat) (t : Tag) (text : String) :
    P (elementEnd e view t text) := by
  apply h.bind (h.flag _ _)
  intro isVoid
  split
  · exact h.pure _
  · split
    · exact h.emptyEnd view t
    · exact h.pure _

theorem filter (h : Local e P) (place : Place) (name text : String) :
    P (filter e place name text) := by
  unfold Render.filter
  split
  · exact h.pure _
  · exact h.failAt place _

theorem filtered (h : Local e P) (view : Nat) (t : Tag) (text : String) :
    P (filtered e view t text) := by
  unfold Render.filtered
  split
  · exact h.filter _ _ _
  · exact h.pure _

/-! ## Steps with tags within -/

section

variable {inner : Renderer} (hinner : ∀ t view suppressed, P (inner t view suppressed))

include hinner

theorem content (h : Local e P) (view : Nat) (t : Tag) : P (content inner view t) := by
  refine h.foldlM (fun done node => ?_) _ _
  cases node with
  | text text => exact h.pure _
  | child child =>
    simp only [addNode]
    split
    · exact h.pure _
    · exact h.bind (hinner child view .none) fun _ => h.pure _

theorem addParameter (h : Local e P) (view : Nat) (done : Table Value) (child : Tag) :
    P (addParameter e inner view done child) := by
  unfold Render.addParameter
  split
  · apply h.bind (h.condition view child)
    intro isThere
    split
    · split
      · exact h.bind (h.evaluate _ _) fun _ => h.pure _
      · exact h.bind (h.content hinner view child) fun _ => h.pure _
    · exact h.pure _
  · exact h.pure _

theorem parameters (h : Local e P) (view : Nat) (t : Tag) : P (parameters e inner view t) :=
  h.foldlM (h.addParameter hinner view) _ _

theorem addSet (h : Local e P) (view : Nat) (done : Table String) (child : Tag) :
    P (addSet e inner view done child) := by
  unfold Render.addSet
  split
  · apply h.bind (h.condition view child)
    intro isThere
    split
    · split
      · exact h.bind (h.evaluateText _ _) fun _ => h.pure _
      · exact h.bind (h.content hinner view child) fun _ => h.pure _
    · exact h.pure _
  · exact h.pure _

theorem attributes (h : Local e P) (view : Nat) (t : Tag) : P (attributes e inner view t) :=
  h.bind (h.foldlM (h.addPlain _) _ _) fun _ => h.foldlM (h.addSet hinner view) _ _

theorem fillPlaceholders (h : Local e P) (view : Nat) (t : Tag) (text : String) :
    P (fillPlaceholders e inner view t text) := by
  unfold Render.fillPlaceholders
  simp only
  split
  · exact h.bind (h.parameters hinner view t) fun parameters =>
      h.bind (h.foldlM (h.addPlaceholder view t parameters) _ _) fun _ => h.pure _
  · exact h.pure _

theorem body (h : Local e P) (view : Nat) (t : Tag) : P (body e inner view t) := by
  rw [body_eq]
  refine h.bind ?_ (h.filtered view t)
  split
  · exact h.evaluateText _ _
  · exact h.content hinner view t

theorem element (h : Local e P) (view : Nat) (t : Tag) : P (element e inner view t) := by
  have hrest (isMute : Bool) : P (if isMute then Render.body e inner view t
      else do
        let attributes ← Render.attributes e inner view t
        let text ← Render.body e inner view t
        let rest ← Render.elementEnd e view t text
        return opening t.name attributes ++ rest : Render String) := by
    split
    · exact h.body hinner view t
    · exact h.bind (h.attributes hinner view t) fun _ => h.bind (h.body hinner view t) fun _ =>
        h.bind (h.elementEnd view t _) fun _ => h.pure _
  unfold Render.element
  simp only
  split
  · exact h.bind (h.pure true) hrest
  · exact h.bind (h.flag _ _) hrest

end

end Local

end Render

end XmlTemplate
