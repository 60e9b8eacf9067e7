import XmlTemplate.Proofs.Render.Keep
import XmlTemplate.Proofs.Render.Placeholder
import XmlTemplate.Proofs.Render.Recall

/-!
# What a tag mounts

Mounts and feeds put values under keys of the root, wherever in a tag they are and whatever frames
are open. `Mounts` tells the values that a step mounts, in their order; it follows how the step is
put together. The root behind a step is the one before it with these values put, so that paths
from the root read what was mounted last under their key, and everything else as before.

A root that is no object is the exception. The first mount gives it up for an object, and what it
held is gone.
-/

namespace XmlTemplate

-- ---------------------------------------------------------------------------
-- Mounted values
-- ---------------------------------------------------------------------------

namespace Value

/-- A root with a value mounted under a key. -/
def mountOn : Value → String × Value → Value
  | object fields, (key, v) => object (Table.put key v fields)
  | _, (key, v) => object [(key, v)]

def IsObject (v : Value) : Prop := ∃ fields, v = object fields

theorem foldl_mountOn_object (fields : List (String × Value)) (mounted : List (String × Value)) :
    mounted.foldl mountOn (object fields) =
      object (mounted.foldl (fun t (key, v) => Table.put key v t) fields) := by
  induction mounted generalizing fields with
  | nil => rfl
  | cons p mounted ih => exact ih _

/-- The first mount on a root that is no object starts from an object without fields. -/
theorem mountOn_of_not_isObject {root : Value} (h : ¬ root.IsObject) (p : String × Value) :
    root.mountOn p = (object []).mountOn p := by
  cases root with
  | object fields => exact absurd ⟨fields, rfl⟩ h
  | _ => rfl

variable {mounted : List (String × Value)} {root v : Value} {key : String}

/-- Under each key an object has what was put there last, or else what it had. -/
theorem get_foldl_mountOn_object (fields : List (String × Value)) :
    (mounted.foldl mountOn (object fields)).get key =
      (mounted.reverse.lookup key).getD ((object fields).get key) := by
  rw [foldl_mountOn_object]
  simp only [get, Table.get?_foldl_put]
  cases mounted.reverse.lookup key <;> rfl

theorem get_foldl_mountOn_of_lookup (h : mounted.reverse.lookup key = some v) :
    (mounted.foldl mountOn root).get key = v := by
  cases mounted with
  | nil => cases h
  | cons p mounted =>
    by_cases hroot : root.IsObject
    · obtain ⟨fields, rfl⟩ := hroot
      rw [get_foldl_mountOn_object, h, Option.getD_some]
    · rw [List.foldl_cons, mountOn_of_not_isObject hroot, ← List.foldl_cons,
        get_foldl_mountOn_object, h, Option.getD_some]

/-- Nothing is disturbed in an object, nor where nothing is mounted. -/
theorem get_foldl_mountOn_of_isObject (h : mounted.reverse.lookup key = none)
    (hroot : mounted = [] ∨ root.IsObject) :
    (mounted.foldl mountOn root).get key = root.get key := by
  obtain rfl | ⟨fields, rfl⟩ := hroot
  · rfl
  · rw [get_foldl_mountOn_object, h, Option.getD_none]

/-- Nothing is left of a root that is no object. -/
theorem get_foldl_mountOn_of_not_isObject (h : mounted.reverse.lookup key = none)
    (hroot : ¬ (mounted = [] ∨ root.IsObject)) : (mounted.foldl mountOn root).get key = null := by
  obtain ⟨hmounted, hobject⟩ := not_or.1 hroot
  obtain ⟨p, rest, rfl⟩ := List.exists_cons_of_ne_nil hmounted
  rw [List.foldl_cons, mountOn_of_not_isObject hobject, ← List.foldl_cons,
    get_foldl_mountOn_object, h, Option.getD_none]
  rfl

end Value

theorem Session.root_mount (key : String) (v : Value) (s : Session) :
    (s.mount key v).root = s.root.mountOn (key, v) := by
  unfold Session.mount Value.mountOn
  cases s.root <;> rfl

namespace Render

-- ---------------------------------------------------------------------------
-- Steps
-- ---------------------------------------------------------------------------

/-- The step leaves the root as it is, from wherever it starts. -/
abbrev LeavesRoot (x : Render α) : Prop := Steps (fun s s' => s'.root = s.root) x

/-- A step mounts these values in their order when it starts from the session and the memory, and
ends. -/
inductive Mounts : {α : Type} → Render α → Session → Memory → List (String × Value) → Prop
  | nothing {α : Type} {x : Render α} (h : LeavesRoot x) (s : Session) (m : Memory) :
      Mounts x s m []
  | mount (target : String) (v : Value) (s : Session) (m : Memory) :
      Mounts (modify (Session.mount target v)) s m [(target, v)]
  | bind {α β : Type} {x : Render α} {f : α → Render β} {s s₁ : Session} {m m₁ : Memory} {a : α}
      {first rest : List (String × Value)} (hx : Mounts x s m first)
      (hrun : x s m = (.ok (a, s₁), m₁)) (hf : Mounts (f a) s₁ m₁ rest) :
      Mounts (x >>= f) s m (first ++ rest)

/-- The root behind a step is the one before it, with the values mounted. -/
theorem Mounts.root_eq {x : Render α} {s s' : Session} {m m' : Memory} {a : α}
    {mounted : List (String × Value)} (h : Mounts x s m mounted)
    (hrun : x s m = (.ok (a, s'), m')) : s'.root = mounted.foldl Value.mountOn s.root := by
  induction h generalizing s' m' with
  | nothing h s m => exact h s hrun
  | mount target v s m =>
    cases hrun
    exact s.root_mount target v
  | bind hx hrunx hf ihx ihf =>
    obtain ⟨b, t, n, hfirst, hrest⟩ := bind_eq_ok_iff.1 hrun
    cases hrunx.symm.trans hfirst
    rw [List.foldl_append, ← ihx hrunx]
    exact ihf hrest

/-- Whenever the step ends, it has mounted some values. -/
def Mounting (x : Render α) : Prop :=
  ∀ ⦃s m a s' m'⦄, x s m = (.ok (a, s'), m') → ∃ mounted, Mounts x s m mounted

/-- What a step mounts makes one table of another: there is an account of it, and by every account
the values are put into the table in their order. -/
structure MountsInto (x : Render α) (s : Session) (m : Memory) (fields fields' : Table Value) :
    Prop where
  exists_mounts : ∃ mounted, Mounts x s m mounted
  eq {mounted : List (String × Value)} (h : Mounts x s m mounted) :
    fields' = mounted.foldl (fun t (key, v) => Table.put key v t) fields

theorem Mounting.mountsInto {x : Render α} {s s' : Session} {m m' : Memory} {a : α}
    {fields fields' : Table Value} (h : Mounting x) (hrun : x s m = (.ok (a, s'), m'))
    (hroot : s.root = .object fields) (hroot' : s'.root = .object fields') :
    MountsInto x s m fields fields' where
  exists_mounts := h hrun
  eq hmounts := by
    have hobject := hmounts.root_eq hrun
    rw [hroot, hroot', Value.foldl_mountOn_object] at hobject
    exact Value.object.inj hobject

theorem mounting_of_leavesRoot {x : Render α} (h : LeavesRoot x) : Mounting x :=
  fun s m _ _ _ _ => ⟨[], .nothing h s m⟩

theorem leavesRoot_composes : Composes Render LeavesRoot :=
  steps_composes (fun _ => rfl) fun h k => k.trans h

theorem mounting_composes : Composes Render Mounting where
  pure a := mounting_of_leavesRoot (leavesRoot_composes.pure a)
  bind hx hf s m b s' m' hr := by
    obtain ⟨a, s₁, m₁, hfirst, hrest⟩ := bind_eq_ok_iff.1 hr
    obtain ⟨first, hfirst'⟩ := hx hfirst
    obtain ⟨rest, hrest'⟩ := hf a hrest
    exact ⟨first ++ rest, .bind hfirst' hfirst hrest'⟩

theorem mounting_modify {g : Session → Session} (h : ∀ s, (g s).root = s.root) :
    Mounting (modify g : Render Unit) :=
  mounting_of_leavesRoot (steps_modify h)

theorem leavesRoot_get : LeavesRoot (get : Render Session) := by
  intro s m t s' m' hr
  cases hr
  rfl

theorem mounting_get_bind {f : Session → Render α} (h : ∀ s, Mounting (f s)) :
    Mounting (get >>= f) :=
  mounting_composes.bind (mounting_of_leavesRoot leavesRoot_get) h

theorem leavesRoot_consult (place : Place) (use : Memory → Except Fault α × Memory) :
    LeavesRoot (consult place use) := by
  intro s m a s' m' h
  rw [consult_apply] at h
  split at h <;> cases h
  rfl

theorem leavesRoot_parse (place : Place) (source : String) : LeavesRoot (parse place source) := by
  intro s m a s' m' h
  rw [parse_apply] at h
  split at h
  · cases h
    rfl
  · split at h <;> cases h
    rfl

variable (e : Engine)

theorem leavesRoot_function (place : Place) (name : String) :
    LeavesRoot (function e place name) := by
  intro s m f s' m' h
  rw [function_apply] at h
  split at h
  · cases h
    rfl
  · split at h <;> cases h
    rfl

theorem leavesRoot_call (place : Place) (name : String) (args : List Value) :
    LeavesRoot (call e place name args) := by
  intro s m v s' m' h
  rw [call_apply] at h
  split at h
  · rename_i f t n hf
    split at h <;> cases h
    change t.root = s.root
    exact leavesRoot_function e place name s hf
  · cases h

theorem leavesRoot_local : Local e LeavesRoot where
  toComposes := leavesRoot_composes
  environment place :=
    { lookup := fun key => steps_get_bind fun s => leavesRoot_composes.pure (s.lookup key) s
      call := leavesRoot_call e place
      noText := steps_failAt place .noText }
  parse := leavesRoot_parse
  failAt := steps_failAt

theorem leavesRoot_findFeed (place : Place) (feedClass : String) (parameters : Table Value) :
    LeavesRoot (findFeed e place feedClass parameters) := by
  intro s m feed s' m' h
  rw [findFeed_apply] at h
  split at h
  · split at h <;> cases h
    rfl
  · split at h <;> cases h
    rfl

theorem mounting_local : Local e Mounting :=
  (leavesRoot_local e).mono mounting_composes mounting_of_leavesRoot

/-- The steps of a tag, each beside itself, mount nothing but by mounting. -/
theorem mounting_along (view : Nat) : Along e view view Eq (Itself Mounting) where
  toPairs := itself_pairs mounting_composes
  evaluate hline expr _ := ⟨hline ▸ rfl, (mounting_local e).evaluate _ expr⟩
  evaluateAttribute hline raw _ := ⟨hline ▸ rfl, (mounting_local e).evaluateAttribute _ raw⟩
  failAt hline f _ := ⟨hline ▸ rfl, (mounting_local e).failAt _ f⟩
  warnAt hline _ _ := ⟨hline ▸ rfl, mounting_modify fun _ => rfl⟩
  language hfg :=
    ⟨bind_congr fun s => (hfg s.language).1, mounting_get_bind fun s => (hfg s.language).2⟩
  translate hfg := ⟨bind_congr fun _ => (hfg _).1, mounting_get_bind fun _ => (hfg _).2⟩
  findFeed hline feedClass parameters :=
    ⟨hline ▸ rfl, mounting_of_leavesRoot (leavesRoot_findFeed e _ feedClass parameters)⟩
  verbatim hline file := by
    refine ⟨verbatim_of_line hline e view file, mounting_get_bind fun s => ?_⟩
    exact mounting_composes.bind (mounting_of_leavesRoot (leavesRoot_consult _ _)) fun _ =>
      mounting_composes.pure _
  mount target v := ⟨rfl, fun s m _ _ _ _ => ⟨_, .mount target v s m⟩⟩
  recordSlot _ := ⟨rfl, mounting_modify fun _ => rfl⟩
  plug _ _ _ := ⟨rfl, mounting_modify fun _ => rfl⟩
  startWalk _ := ⟨rfl, mounting_modify fun _ => rfl⟩
  outside := ⟨rfl, mounting_modify fun _ => rfl⟩
  enterItem _ := ⟨rfl, mounting_modify fun _ => rfl⟩
  leaveFrame := ⟨rfl, mounting_modify fun _ => rfl⟩

-- ---------------------------------------------------------------------------
-- Tags
-- ---------------------------------------------------------------------------

/-- A session that is set from the one at hand is a change of that one. -/
theorem get_bind_set (g : Session → Session) (f : Session → Render α) :
    (do let s ← get; set (g s); f s : Render α) = (do let s ← get; modify g; f s) := rfl

theorem macroBody_modify (inner : Renderer) (arguments : Table Value) (body : MacroBody) :
    macroBody inner arguments body = (do
      let s ← get
      match (s.views[body.view]?).bind fun v => v.template.find? body.tag with
      | none => return ""
      | some t =>
        modify (Session.enterMacro arguments)
        let output ← inner t body.view ⟨false, true⟩
        modify (Session.leaveMacro s)
        return output.getD "") := by
  funext s m
  simp only [macroBody, bind_apply, get_apply]
  cases (s.views[body.view]?).bind fun v => v.template.find? body.tag <;> rfl

section

variable {e} {inner : Renderer} (hinner : ∀ t view suppressed, Mounting (inner t view suppressed))

include hinner

theorem mounting_output (t : Tag) (view : Nat) (suppressed : Suppressed) :
    Mounting (inner.output t view suppressed) :=
  mounting_composes.map _ (hinner t view suppressed)

theorem mounting_inclusion (view : Nat) (t : Tag) (file : String) :
    Mounting (inclusion e inner view t file) := by
  unfold inclusion
  refine mounting_get_bind fun s => ?_
  refine mounting_composes.bind (mounting_of_leavesRoot (leavesRoot_consult _ _)) fun compiled => ?_
  rw [get_bind_set (·.addView compiled.template (some view))]
  refine mounting_get_bind fun s => ?_
  refine mounting_composes.bind (mounting_modify fun _ => rfl) fun _ => ?_
  exact mounting_composes.bind (hinner _ _ _) fun _ => mounting_composes.pure _

theorem mounting_invoke (view : Nat) (t : Tag) (name : String) (all : Table Value) :
    Mounting (invoke inner view t name all) := by
  refine mounting_get_bind fun s => ?_
  split
  · rw [macroBody_modify]
    refine mounting_get_bind fun s => ?_
    split
    · exact mounting_composes.pure _
    · exact mounting_composes.bind (mounting_modify fun _ => rfl) fun _ =>
        mounting_composes.bind (hinner _ _ _) fun _ =>
          mounting_composes.bind (mounting_modify fun _ => rfl) fun _ => mounting_composes.pure _
  · exact mounting_composes.bind (mounting_modify fun _ => rfl) fun _ => mounting_composes.pure _

theorem mounting_tagStep (t : Tag) (view : Nat) (suppressed : Suppressed) :
    Mounting (tagStep e inner t view suppressed) := by
  have halike (t : Tag) : t.Alike Eq Eq t := .self t rfl fun _ _ => rfl
  refine ((mounting_along e view).tagStep (C := Eq) (fun hc => .inr (hc ▸ halike _))
    (fun hc _ => hc ▸ ⟨rfl, mounting_output hinner _ _ _⟩) (halike t)
    (fun _ _ => ⟨rfl, mounting_output hinner _ _ _⟩)
    (fun file _ => ⟨rfl, mounting_inclusion hinner view t file⟩) (fun file name source _ => ?_)
    (fun _ _ => ⟨rfl, mounting_modify fun _ => rfl⟩)
    fun name _ all => ⟨rfl, mounting_invoke hinner view t name all⟩).2
  exact (mounting_along e view).attaching t t file name source
    (fun _ => ⟨rfl, mounting_of_leavesRoot (leavesRoot_consult _ _)⟩)
    (fun _ => ⟨rfl, mounting_modify fun _ => rfl⟩) fun _ => ⟨rfl, mounting_modify fun _ => rfl⟩

end

/-- Whatever is within a tag, there is an account of what it mounts. -/
theorem mounting_tag (depth : Nat) (t : Tag) (view : Nat) (suppressed : Suppressed) :
    Mounting (tag e depth t view suppressed) := by
  induction depth generalizing t view suppressed with
  | zero => exact fun _ _ _ _ _ hr => nomatch hr
  | succ depth ih => exact mounting_tagStep ih t view suppressed

-- ---------------------------------------------------------------------------
-- Reading the root
-- ---------------------------------------------------------------------------

/-- The path to a key of the root, `/key`. -/
def atRoot (key : String) : Expr := .path [.root, .name key]

/-- Wherever it stands, the path to the key has the value. -/
def Reads (e : Engine) (s : Session) (key : String) (v : Value) : Prop :=
  ∀ place m, evaluate e place (atRoot key) s m = (.ok (v, s), m)

theorem evaluate_atRoot (place : Place) (key : String) (s : Session) (m : Memory) :
    evaluate e place (atRoot key) s m = (.ok (s.root.get key, s), m) := by
  have hroot : s.lookup "/" = s.root := by rw [Session.lookup, if_pos rfl]
  have hfollow (v : Value) :
      Expr.follow (environment e place) v [.name key] = pure (v.get key) := by
    cases v <;> rfl
  simp only [evaluate, atRoot, Expr.evaluate, Expr.enter, hfollow]
  simp only [environment, bind_apply, get_apply, pure_apply, hroot]

theorem reads_iff {s : Session} {key : String} {v : Value} :
    Reads e s key v ↔ s.root.get key = v := by
  constructor
  · intro h
    have hrun := h ⟨0, 0⟩ (.ofFiles ⟨[]⟩)
    rw [evaluate_atRoot] at hrun
    cases hrun
    rfl
  · rintro rfl place m
    exact evaluate_atRoot e place key s m

/-- What a tag does to paths from the root. There is an account of what its mounts and feeds have
mounted, and by every such account a key reads what was mounted last under it. A key that nothing
was mounted under reads what it did, unless the root was no object and had to make room for one:
then it reads null. -/
theorem tag_mounts {depth view : Nat} {t : Tag} {suppressed : Suppressed} {s s' : Session}
    {m m' : Memory} {output : Option String}
    (h : tag e depth t view suppressed s m = (.ok (output, s'), m')) :
    (∃ mounted, Mounts (tag e depth t view suppressed) s m mounted) ∧
      ∀ mounted, Mounts (tag e depth t view suppressed) s m mounted → ∀ key,
        (∀ v, mounted.reverse.lookup key = some v → Reads e s' key v) ∧
        (mounted.reverse.lookup key = none →
          (mounted = [] ∨ s.root.IsObject → ∀ v, Reads e s key v → Reads e s' key v) ∧
          (¬ (mounted = [] ∨ s.root.IsObject) → Reads e s' key .null)) := by
  refine ⟨mounting_tag e depth t view suppressed h, fun mounted hmounted key => ?_⟩
  have hroot := hmounted.root_eq h
  simp only [reads_iff, hroot]
  refine ⟨fun v hlast => Value.get_foldl_mountOn_of_lookup hlast, fun hnone => ⟨?_, ?_⟩⟩
  · intro hkept v hv
    rw [Value.get_foldl_mountOn_of_isObject hnone hkept, hv]
  · exact Value.get_foldl_mountOn_of_not_isObject hnone

/-- A tag that mounts a text. -/
def mountingTag : Tag :=
  { (default : Tag) with
    name := "fig:mount", kind := .mount "k" (some ⟨"'v'", .literal (.string "v")⟩) }

theorem tag_mountingTag (s : Session) (m : Memory) :
    tag .default 1 mountingTag 0 .none s m = (.ok (some "", s.mount "k" (.string "v")), m) := rfl

theorem mounts_mountingTag (s : Session) (m : Memory) :
    Mounts (tag .default 1 mountingTag 0 .none) s m [("k", .string "v")] := by
  have hpure {α : Type} (a : α) (s : Session) : Mounts (pure a) s m [] :=
    .nothing (leavesRoot_composes.pure a) s m
  have hmount : Mounts (mount .default (tag .default 0) 0 mountingTag "k"
      (some ⟨"'v'", .literal (.string "v")⟩)) s m [("k", .string "v")] :=
    .bind (hpure _ s) rfl (.mount "k" (.string "v") s m)
  have hkind : Mounts (kind .default (tag .default 0) 0 mountingTag) s m [("k", .string "v")] :=
    .bind hmount rfl (hpure "" _)
  have hshown : Mounts (shown .default (tag .default 0) 0 mountingTag) s m
      [("k", .string "v")] := by
    have hmap : shown .default (tag .default 0) 0 mountingTag = (do
        let output ← kind .default (tag .default 0) 0 mountingTag
        return some output) := map_eq_pure_bind _ _
    rw [hmap]
    exact .bind hkind rfl (hpure _ _)
  exact .bind (hpure true s) rfl hshown

/-- A render on an object with one field. -/
def objectStart : Session := .start (.object [("a", .bool true)]) none

theorem tag_mounts_object :
    tag .default 1 mountingTag 0 .none objectStart (.ofFiles ⟨[]⟩) =
        (.ok (some "", objectStart.mount "k" (.string "v")), .ofFiles ⟨[]⟩) ∧
      Reads .default (objectStart.mount "k" (.string "v")) "k" (.string "v") ∧
      Reads .default (objectStart.mount "k" (.string "v")) "a" (.bool true) := by
  have hrun := tag_mountingTag objectStart (.ofFiles ⟨[]⟩)
  have hmounts := (tag_mounts .default hrun).2 _ (mounts_mountingTag objectStart (.ofFiles ⟨[]⟩))
  have hobject : objectStart.root.IsObject := ⟨_, rfl⟩
  have hbefore : Reads .default objectStart "a" (.bool true) := (reads_iff _).2 rfl
  exact ⟨hrun, (hmounts "k").1 _ rfl, ((hmounts "a").2 rfl).1 (.inr hobject) _ hbefore⟩

/-- A render on a list with one item. -/
def listStart : Session := .start (.array [.bool true]) none

/-- A mount under another key takes the item of a list away. -/
theorem not_reads_item_of_list :
    tag .default 1 mountingTag 0 .none listStart (.ofFiles ⟨[]⟩) =
        (.ok (some "", listStart.mount "k" (.string "v")), .ofFiles ⟨[]⟩) ∧
      Mounts (tag .default 1 mountingTag 0 .none) listStart (.ofFiles ⟨[]⟩) [("k", .string "v")] ∧
      Reads .default listStart "0" (.bool true) ∧
      Reads .default (listStart.mount "k" (.string "v")) "0" .null ∧
      ¬ Reads .default (listStart.mount "k" (.string "v")) "0" (.bool true) := by
  have hafter : (listStart.mount "k" (.string "v")).root.get "0" = .null := rfl
  refine ⟨tag_mountingTag _ _, mounts_mountingTag _ _, (reads_iff _).2 rfl,
    (reads_iff _).2 hafter, fun h => ?_⟩
  exact nomatch hafter.symm.trans ((reads_iff _).1 h)

end Render

end XmlTemplate
