import XmlTemplate.Proofs.Render.Nested

/-!
# Walks

A tag that is walked is rendered once for each item, in order. Each of these turns starts from what
the turn before it leaves, with the item as one more frame and with the walk, at the item, as the
innermost one. The texts of the turns stand one after the other, and the indent of the tag stands
between those that are not empty.

The loop is followed item by item: between two items the session has the frames that the walk
started with and the walk at the last item, whatever the tag did for the items before.
-/

namespace XmlTemplate

open Render

-- ---------------------------------------------------------------------------
-- Turns
-- ---------------------------------------------------------------------------

namespace Rendering

/-- The session between two items of a walk, which is at some position, with the last key. -/
def between (c : Rendering) (count position : Nat) (key : Value) (s : Session) : Session :=
  { s with
    frames := c.session.frames
    iterations := ⟨count, position, key⟩ :: c.session.iterations }

/-- How the tag of a walk is rendered for an item with its key, at a position of the walk, on what
is there by then. -/
def atItem (c : Rendering) (count position : Nat) (item : Value × Value) (s : Session)
    (m : Memory) : Rendering where
  tag := c.tag
  view := c.view
  suppressed := { c.suppressed with walk := true }
  session := { s with
    frames := item.2 :: c.session.frames
    iterations := ⟨count, position, item.1⟩ :: c.session.iterations }
  memory := m

/-- A rendering for an item, and the text of it. -/
structure Turn where
  rendering : Rendering
  text : String

/-- The turns of a walk for items that come behind some others, from the state that these leave to
the one in the end. -/
inductive Turns (inner : Renderer) (c : Rendering) (count : Nat) :
    (before : Nat) → List (Value × Value) → Session → Memory → List Turn → Session → Memory → Prop
  | nil {before : Nat} {s : Session} {m : Memory} : Turns inner c count before [] s m [] s m
  | cons {before : Nat} {item : Value × Value} {entries : List (Value × Value)} {s s₁ s' : Session}
      {m m₁ m' : Memory} {fragment : Option String} {turns : List Turn}
      (hturn : (c.atItem count (before + 1) item s m).outcome inner = (.ok (fragment, s₁), m₁))
      (hrest : Turns inner c count (before + 1) entries s₁ m₁ turns s' m') :
      Turns inner c count before (item :: entries) s m
        (⟨c.atItem count (before + 1) item s m, fragment.getD ""⟩ :: turns) s' m'

variable {e : Engine} {inner inner' : Renderer} {c : Rendering} {count before : Nat}
  {entries : List (Value × Value)} {s s' : Session} {m m' : Memory} {turns : List Turn}

/-- For each item there is a turn, at its position. -/
theorem Turns.exists_turn (h : Turns inner c count before entries s m turns s' m') {i : Nat}
    {item : Value × Value} (hitem : entries[i]? = some item) : ∃ turn s₁ m₁,
      turns[i]? = some turn ∧ turn.rendering = c.atItem count (before + i + 1) item s₁ m₁ := by
  induction h generalizing i with
  | nil => cases hitem
  | @cons before _ _ _ _ _ _ _ _ _ _ _ _ ih =>
    cases i with
    | zero =>
      cases hitem
      exact ⟨_, _, _, rfl, rfl⟩
    | succ i =>
      obtain ⟨turn, s₁, m₁, hturn, hrendering⟩ := ih hitem
      refine ⟨turn, s₁, m₁, hturn, ?_⟩
      rw [hrendering, Nat.add_right_comm before 1 i]
      rfl

-- ---------------------------------------------------------------------------
-- One item
-- ---------------------------------------------------------------------------

/-- What the loop of a walk does for an item. -/
abbrev add (inner : Renderer) (c : Rendering) (done : String) (item : Value × Value) :
    Render String :=
  addItem inner c.view c.tag { c.suppressed with walk := true } done item

theorem add_between (done : String) (item : Value × Value) (position : Nat) (key : Value)
    (s : Session) (m : Memory) : add inner c done item (c.between count position key s) m =
      match (c.atItem count (position + 1) item s m).outcome inner with
      | (.ok (fragment, s₁), m₁) => (.ok (joined c.tag done (fragment.getD ""), s₁.leaveFrame), m₁)
      | (.error stop, n) => (.error stop, n) := by
  rw [add, addItem_eq, bind_apply]
  change (do
    let fragment ← inner c.tag c.view { c.suppressed with walk := true }
    modify Session.leaveFrame
    return joined c.tag done (fragment.getD "") : Render String)
      (c.atItem count (position + 1) item s m).session m = _
  rw [bind_apply, Rendering.outcome]
  simp only [atItem]
  generalize inner c.tag c.view _ _ m = r
  rcases r with ⟨_ | ⟨_, _⟩, _⟩ <;> rfl

theorem add_congr {item : Value × Value}
    (h : (c.atItem count (before + 1) item s m).outcome inner' =
      (c.atItem count (before + 1) item s m).outcome inner) (done : String) (key : Value) :
    add inner' c done item (c.between count before key s) m =
      add inner c done item (c.between count before key s) m := by
  rw [add_between, add_between, h]

section

variable (hgrowing : ∀ t view suppressed, Growing (inner t view suppressed))

include hgrowing

/-- Behind an item the session is between two items again. -/
theorem leaveFrame_of_outcome {position : Nat} {item : Value × Value} {fragment : Option String}
    {s₁ : Session} {m₁ : Memory}
    (h : (c.atItem count position item s m).outcome inner = (.ok (fragment, s₁), m₁)) :
    s₁.leaveFrame = c.between count position item.1 s₁ := by
  have hgrows := hgrowing _ _ _ _ h
  have hframes : s₁.frames = item.2 :: c.session.frames := hgrows.frames
  have hiterations : s₁.iterations = ⟨count, position, item.1⟩ :: c.session.iterations :=
    hgrows.iterations
  rw [Session.leaveFrame, between, hframes, ← hiterations]
  rfl

theorem add_of_outcome {done : String} {item : Value × Value} {key : Value}
    {fragment : Option String} {s₁ : Session} {m₁ : Memory}
    (h : (c.atItem count (before + 1) item s m).outcome inner = (.ok (fragment, s₁), m₁)) :
    add inner c done item (c.between count before key s) m =
      (.ok (joined c.tag done (fragment.getD ""), c.between count (before + 1) item.1 s₁), m₁) := by
  rw [add_between, h, ← leaveFrame_of_outcome hgrowing h]

-- ---------------------------------------------------------------------------
-- All items
-- ---------------------------------------------------------------------------

/-- A loop that ends is made of turns. -/
theorem exists_turns_of_foldlM {done output : String} {key : Value} {t : Session}
    (h : entries.foldlM (add inner c) done (c.between count before key s) m =
      (.ok (output, t), m')) :
    ∃ turns s', Turns inner c count before entries s m turns s' m' ∧
      output = (turns.map Turn.text).foldl (joined c.tag) done ∧
      t.outside =
        { s' with frames := c.session.frames, iterations := c.session.iterations } := by
  induction entries generalizing done before key s m with
  | nil =>
    obtain ⟨rfl, rfl, rfl⟩ := pure_eq_ok_iff.1 h
    exact ⟨[], s, .nil, rfl, rfl⟩
  | cons item entries ih =>
    obtain ⟨done', s₁, m₁, hadd, hrest⟩ := bind_eq_ok_iff.1 h
    rcases hturn : (c.atItem count (before + 1) item s m).outcome inner with
      ⟨stop | ⟨fragment, s₂⟩, m₂⟩
    · rw [add_between, hturn] at hadd
      cases hadd
    · rw [add_of_outcome hgrowing hturn] at hadd
      cases hadd
      obtain ⟨turns, s', hturns, houtput, hoff⟩ := ih hrest
      exact ⟨_, s', .cons hturn hturns, houtput, hoff⟩

/-- The loop goes by the turns only. -/
theorem Turns.foldlM_congr (h : Turns inner c count before entries s m turns s' m')
    (hsame : ∀ turn ∈ turns, turn.rendering.outcome inner' = turn.rendering.outcome inner)
    (done : String) (key : Value) :
    entries.foldlM (add inner' c) done (c.between count before key s) m =
      entries.foldlM (add inner c) done (c.between count before key s) m := by
  induction h generalizing done key with
  | nil => rfl
  | cons hturn _ ih =>
    obtain ⟨hhead, htail⟩ := List.forall_mem_cons.1 hsame
    rw [List.foldlM_cons, List.foldlM_cons, bind_apply, bind_apply, add_congr hhead,
      add_of_outcome hgrowing hturn]
    exact ih htail _ _

/-- The loop stops if a turn does. -/
theorem Turns.foldlM_replace (h : Turns inner c count before entries s m turns s' m')
    {c' : Rendering} (hc' : c' ∈ turns.map Turn.rendering) (stop : Stop) (n : Memory)
    (done : String) (key : Value) :
    entries.foldlM (add (inner.replace c' (.error stop, n)) c) done
      (c.between count before key s) m = (.error stop, n) := by
  induction h generalizing done key with
  | nil => cases hc'
  | @cons before item _ s _ _ m _ _ _ _ hturn _ ih =>
    rw [List.foldlM_cons, bind_apply]
    by_cases hhead : c' = c.atItem count (before + 1) item s m
    · have hstop : (c.atItem count (before + 1) item s m).outcome
          (inner.replace c' (.error stop, n)) = (.error stop, n) := if_pos hhead
      rw [add_between, hstop]
    · have hsame : (c.atItem count (before + 1) item s m).outcome
          (inner.replace c' (.error stop, n)) =
            (c.atItem count (before + 1) item s m).outcome inner := if_neg hhead
      have htail := (List.mem_cons.1 hc').resolve_left hhead
      rw [add_congr hsame, add_of_outcome hgrowing hturn]
      exact ih htail _ _

-- ---------------------------------------------------------------------------
-- Walks
-- ---------------------------------------------------------------------------

variable {d : Directive} {v : Value} {s₀ : Session} {m₀ : Memory}
  (hwalk : c.tag.directives.walk = some d) (hsuppressed : c.suppressed.walk = false)
  (hvalue : evaluate e (c.tag.place c.view) d.expr c.session c.memory = (.ok (v, s₀), m₀))

include hwalk hsuppressed

omit hgrowing in
theorem outcome_of_walk : c.outcome (tagStep e inner) =
    (some <$> walk e inner c.view c.tag d c.suppressed : Render _) c.session c.memory := by
  rw [outcome, tagStep, hwalk, hsuppressed]

include hvalue

omit hgrowing in
/-- A walk is its loop, from the state behind the evaluation on. -/
theorem outcome_of_evaluate : c.outcome (tagStep e inner) = (do
    let output ← (items v).foldlM (add inner c) ""
    modify Session.outside
    return some output : Render _) (c.between (items v).length 0 .null s₀) m₀ := by
  have hkeeps := (keeping_local e).evaluate _ _ _ hvalue
  have hstart : s₀.startWalk (items v).length = c.between (items v).length 0 .null s₀ := by
    rw [Session.startWalk, between, ← hkeeps.frames, ← hkeeps.iterations]
    rfl
  rw [outcome_of_walk hwalk hsuppressed, map_eq_pure_bind, walk, bind_assoc, bind_apply, hvalue,
    ← hstart]
  simp only [bind_assoc, pure_bind]
  rfl

/-- What takes place in a walk are the turns. -/
theorem Turns.enters_iff
    (h : Turns inner c (items v).length 0 (items v) s₀ m₀ turns s' m') (c' : Rendering) :
    Enters e inner c c' ↔ c' ∈ turns.map Turn.rendering := by
  constructor
  · rintro ⟨result, hdiffers⟩
    by_contra hother
    have hsame (turn : Turn) (hturn : turn ∈ turns) :
        turn.rendering.outcome (inner.replace c' result) = turn.rendering.outcome inner := by
      have hne : c' ≠ turn.rendering := by
        rintro rfl
        exact hother (List.mem_map_of_mem hturn)
      exact if_neg hne
    refine hdiffers (congrArg Prod.fst ?_)
    rw [outcome_of_evaluate hwalk hsuppressed hvalue, outcome_of_evaluate hwalk hsuppressed hvalue,
      bind_apply, bind_apply, h.foldlM_congr hgrowing hsame]
  · intro hc'
    refine enters_of_stops fun stop n => ?_
    rw [outcome_of_evaluate hwalk hsuppressed hvalue, bind_apply,
      h.foldlM_replace hgrowing hc' stop n]

end

end Rendering

-- ---------------------------------------------------------------------------
-- What is seen at an item
-- ---------------------------------------------------------------------------

/-- The separator stands between the texts that are not empty. -/
theorem Render.foldl_joined (t : Tag) (done : String) (texts : List String) :
    texts.foldl (joined t) done =
      String.intercalate (t.indent.getD "") ((done :: texts).filter (· ≠ "")) := by
  induction texts generalizing done with
  | nil => by_cases hdone : done = "" <;> simp [hdone]
  | cons text texts ih =>
    rw [List.foldl_cons, ih]
    by_cases htext : text = ""
    · simp [joined, htext, List.filter_cons]
    · by_cases hdone : done = ""
      · simp [joined, htext, hdone]
      · have hnext : ¬done ++ t.indent.getD "" ++ text = "" := by simp [htext]
        simp only [joined, beq_iff_eq, List.filter_cons, ne_eq, htext, hdone, hnext, if_false,
          not_false_eq_true, decide_true, if_true]
        rw [String.intercalate_cons_append, String.intercalate_cons_cons]

/-- What there is at an item of a walk that began in another session: one more frame, the item, and
one more walk, at the item. -/
structure Session.IsAtItem (s outer : Session) (count position : Nat) (item : Value × Value) :
    Prop where
  frames : s.frames = item.2 :: outer.frames
  iterations : s.iterations = ⟨count, position, item.1⟩ :: outer.iterations
  current : s.lookup "." = item.2
  parent : s.lookup ".." = outer.frames.headD s.root
  first (e : Engine) (place : Place) (args : List Value) :
    BuiltIn.first.call (anchor e place s) args = .ok (.bool (position == 1))
  last (e : Engine) (place : Place) (args : List Value) :
    BuiltIn.last.call (anchor e place s) args = .ok (.bool (position == count))

theorem Session.isAtItem_of_frames {outer s : Session} {count position : Nat}
    {item : Value × Value} (hframes : s.frames = item.2 :: outer.frames)
    (hiterations : s.iterations = ⟨count, position, item.1⟩ :: outer.iterations)
    (hposition : 0 < position) : s.IsAtItem outer count position item := by
  have hiteration : s.iteration = ⟨count, position, item.1⟩ := by
    rw [iteration, hiterations]
    rfl
  refine ⟨hframes, hiterations, ?_, ?_, fun e place args => ?_, fun e place args => ?_⟩
  · simp [lookup, hframes]
  · cases houter : outer.frames <;> simp [lookup, hframes, houter]
  · change Except.ok (Value.bool (s.iteration.position == 1)) = _
    rw [hiteration]
  · change Except.ok (Value.bool
      (s.iteration.count > 0 && s.iteration.position == s.iteration.count)) = _
    rw [hiteration]
    cases count with
    | zero => simp [Nat.ne_of_gt hposition]
    | succ count => simp

namespace Rendering

/-- A tag that is walked is rendered once for each item and for nothing else, in order, each time
on what the time before left. In the rendering for the item at position `i`, and in all renderings
within that are no items of further walks and no bodies of macros, the item is one more frame and
the innermost walk is at `i` of all items, with the key of the item, whatever came before. So
`first` holds at the first item only, and `last` at the last one. Behind the walk, frames and walks
are what they were, and the texts that are not empty stand one after the other, separated by the
indent. -/
theorem turns_of_walk {e : Engine} {depth : Nat} {c : Rendering} {d : Directive}
    {output : Option String} {s' : Session} {m' : Memory}
    (hwalk : c.tag.directives.walk = some d) (hsuppressed : c.suppressed.walk = false)
    (h : c.outcome (Render.tag e depth) = (.ok (output, s'), m')) :
    ∃ (inside : Nat) (v : Value) (s₀ s₁ : Session) (m₀ : Memory) (turns : List Turn),
      depth = inside + 1 ∧
      evaluate e (c.tag.place c.view) d.expr c.session c.memory = (.ok (v, s₀), m₀) ∧
      Turns (Render.tag e inside) c (items v).length 0 (items v) s₀ m₀ turns s₁ m' ∧
      s' = { s₁ with frames := c.session.frames, iterations := c.session.iterations } ∧
      output = some (String.intercalate (c.tag.indent.getD "")
        ((turns.map Turn.text).filter (· ≠ ""))) ∧
      (∀ c', Enters e (Render.tag e inside) c c' ↔ c' ∈ turns.map Turn.rendering) ∧
      ∀ (i : Nat) (item : Value × Value), (items v)[i]? = some item →
        ∃ turn : Turn, turns[i]? = some turn ∧
        ∀ (left : Nat) (c' : Rendering), turn.rendering.Encloses e inside (left + 1) c' →
          (∀ output s m, c'.outcome (Render.tag e (left + 1)) = (.ok (output, s), m) →
            c'.Visits e (Render.tag e left) s m) ∧
          ∀ s m, c'.Visits e (Render.tag e left) s m →
            s.IsAtItem c.session (items v).length (i + 1) item := by
  cases depth with
  | zero => cases h
  | succ inside =>
    have hgrowing (t : Tag) (view : Nat) : ∀ suppressed,
        Growing (Render.tag e inside t view suppressed) := growing_tag e view inside t
    have hstep : c.outcome (tagStep e (Render.tag e inside)) = (.ok (output, s'), m') := h
    -- the value of the walk, and what the loop over its items comes to
    obtain ⟨v, s₀, m₀, hvalue⟩ : ∃ v s₀ m₀,
        evaluate e (c.tag.place c.view) d.expr c.session c.memory = (.ok (v, s₀), m₀) := by
      rw [outcome_of_walk hwalk hsuppressed, map_eq_pure_bind] at hstep
      obtain ⟨_, _, _, hrun, -⟩ := bind_eq_ok_iff.1 hstep
      obtain ⟨v, s₀, m₀, hvalue, -⟩ := bind_eq_ok_iff.1 hrun
      exact ⟨v, s₀, m₀, hvalue⟩
    rw [outcome_of_evaluate hwalk hsuppressed hvalue] at hstep
    obtain ⟨text, t, _, hloop, hend⟩ := bind_eq_ok_iff.1 hstep
    cases hend
    obtain ⟨turns, s₁, hturns, rfl, hoff⟩ := exists_turns_of_foldlM hgrowing hloop
    refine ⟨inside, v, s₀, s₁, m₀, turns, rfl, hvalue, hturns, hoff, ?_,
      hturns.enters_iff hgrowing hwalk hsuppressed hvalue, fun i item hitem => ?_⟩
    · rw [foldl_joined]
      simp
    · obtain ⟨turn, s, m, hturn, hrendering⟩ := hturns.exists_turn hitem
      refine ⟨turn, hturn, fun left c' hwithin =>
        ⟨fun output s m hc' => visits_of_outcome hc', fun s m hvisits => ?_⟩⟩
      obtain ⟨hframes, hiterations⟩ := hwithin.visits hvisits
      rw [hrendering, Nat.zero_add] at hframes hiterations
      exact Session.isAtItem_of_frames hframes hiterations i.succ_pos

/-- A rendering of a tag that is walked over three texts, one of them empty. In it the text of each
item stands twice, the first time in a walk of its own. -/
def walkedTexts : Rendering :=
  let current : Directive := ⟨".", .path [.current]⟩
  let repeated : Tag := { (default : Tag) with
    id := 1, kind := .control
    directives := { Directives.none with walk := some current, text := some current } }
  let plain : Tag := { (default : Tag) with
    id := 2, kind := .control, directives := { Directives.none with text := some current } }
  let walked : Tag := { (default : Tag) with
    kind := .control, indent := some "\n  "
    directives := { Directives.none with walk := some current }
    children := [.child repeated, .child plain] }
  { tag := walked, view := 0, suppressed := .none
    session := (Session.start (.array [.string "a", .string "", .string "b"]) none).addView
      ⟨"page.xml", "x:", walked, []⟩ none
    memory := .ofFiles .empty }

theorem turns_of_walkedTexts :
    ∃ s' m' turns s₀ m₀ s₁, walkedTexts.outcome (Render.tag .default 4) =
        (.ok (some "aa\n  bb", s'), m') ∧
      Turns (Render.tag .default 3) walkedTexts 3 0
        [(.int 0, .string "a"), (.int 1, .string ""), (.int 2, .string "b")] s₀ m₀ turns s₁ m' ∧
      ∀ c', Enters .default (Render.tag .default 3) walkedTexts c' ↔
        c' ∈ turns.map Turn.rendering := by
  obtain ⟨s', m', hrun⟩ : ∃ s' m', walkedTexts.outcome (Render.tag .default 4) =
      (.ok (some "aa\n  bb", s'), m') := ⟨_, _, rfl⟩
  obtain ⟨inside, v, s₀, s₁, m₀, turns, hdepth, hvalue, hturns, -, -, henters, -⟩ :=
    turns_of_walk (d := ⟨".", .path [.current]⟩) rfl rfl hrun
  cases hdepth
  cases hvalue
  exact ⟨s', m', turns, _, _, s₁, hrun, hturns, henters⟩

end Rendering

end XmlTemplate
