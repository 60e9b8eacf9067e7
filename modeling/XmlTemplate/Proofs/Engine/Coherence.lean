import XmlTemplate.Proofs.Engine.Find
import XmlTemplate.Proofs.Path

/-!
# Coherence of loading

An engine over texts in memory is used in any way: texts are put under paths, templates are loaded
and rendered, and compiled templates are forgotten. Whoever loads a template, be it a caller or an
inclusion, gets the compilation of the last text under the normalized path. It is the compilation
that was handed out before just if no text was put there in between and nothing was forgotten.
What carries the argument is that the time of a text is the number of texts before it, so that a
compilation is kept for one text only.

A cache is the exception. Other texts may have had the same times before, so that what lies there at
first is taken for the compilation of a text that it was not made of; and what is stored is read
back as a template that may differ in its floats.
-/

namespace XmlTemplate

-- ---------------------------------------------------------------------------
-- Uses and events
-- ---------------------------------------------------------------------------

/-- Texts in memory, and what an engine over them remembers. -/
structure Holding where
  shelf : Shelf
  memory : Memory

/-- What an engine over texts in memory is used for. -/
inductive Use where
  | put (path text : String)
  | load (path : String)
  | render (depth : Nat) (template : Template) (data : Value) (language : Option String)
  /-- Forget all compiled templates. -/
  | clear

/-- What shows of the uses. A render shows its loads first. -/
inductive Event where
  | put (path text : String)
  | load (load : Load)
  | rendered (result : Except Stop Rendered)
  | clear

namespace Holding

/-- Nothing but files. -/
def start (files : Files) : Holding := ⟨.empty, .ofFiles files⟩

variable (e : Engine)

/-- What is held after a use. -/
def after (h : Holding) : Use → Holding
  | .put path text => { h with shelf := h.shelf.put path text }
  | .load path => { h with memory := ((e.onShelf h.shelf).load path h.memory).2 }
  | .render depth template data language =>
    { h with
      memory := ((e.onShelf h.shelf).renderWithin depth template data language h.memory).2 }
  | .clear => { h with memory := h.memory.clear }

/-- The events of a use. -/
inductive Shows (h : Holding) : Use → List Event → Prop
  | put (path text : String) : Shows h (.put path text) [.put path text]
  | load (path : String) :
      Shows h (.load path) [.load ⟨path, ((e.onShelf h.shelf).load path h.memory).1⟩]
  | render (depth : Nat) (template : Template) (data : Value) (language : Option String)
      {loads : Session → Memory → List Load}
      (hlogs : Render.Logs (e.onShelf h.shelf) (Render.page (e.onShelf h.shelf) depth template)
        loads) :
      Shows h (.render depth template data language)
        ((loads (.start data (language.or e.language)) h.memory).map .load ++
          [.rendered ((e.onShelf h.shelf).renderWithin depth template data language h.memory).1])
  | clear : Shows h .clear [.clear]

/-- The events of some uses, one after the other, and what is held in the end. -/
inductive Runs : Holding → List Use → List Event → Holding → Prop
  | done (h : Holding) : Runs h [] [] h
  | use {h last : Holding} {use : Use} {uses : List Use} {events more : List Event}
      (hshows : h.Shows e use events) (hrest : Runs (h.after e use) uses more last) :
      Runs h (use :: uses) (events ++ more) last

end Holding

namespace Event

/-- The texts put under a normalized path, in order. -/
def texts (path : String) (events : List Event) : List String :=
  events.filterMap fun
    | put other text => if Path.normalize other = path then some text else none
    | _ => none

/-- A text was put under the path, or compiled templates were forgotten. -/
def Touches (path : String) : Event → Prop
  | put other _ => Path.normalize other = Path.normalize path
  | clear => True
  | _ => False

/-- No text was put under the path, and nothing was forgotten. -/
def Untouched (path : String) (events : List Event) : Prop := ∀ event ∈ events, ¬ event.Touches path

/-- What loading a path has to come to after some events: the last text, compiled. -/
def due (e : Engine) (path : String) (events : List Event) : Except Fault Template :=
  match (texts (Path.normalize path) events).getLast? with
  | some text => e.compile (Path.normalize path) text
  | none => .error (.missingSource none (Path.normalize path))

/-- What a cache may have for a path after some events: a template that lay there at first for as
many texts, or what the compilation that is due is read back as. -/
inductive Cached (e : Engine) (files : Files) (path : String) (events : List Event) :
    Template → Prop
  | left {cache : Cache} {t : Template} (hcache : e.cache = some cache)
      (htexts : texts (Path.normalize path) events ≠ [])
      (hholds : cache.Holds files (Path.normalize path)
        ((texts (Path.normalize path) events).length - 1) t) : Cached e files path events t
  | stored {compiled t : Template} (hcache : e.cache ≠ none)
      (hdue : due e path events = .ok compiled)
      (hread : Template.ofDraft? (.ofJson 1 compiled.toJson) = some t) :
      Cached e files path events t

/-- A load after some events is answered as it has to be, or by the cache. `files` are those at
first. -/
structure Answered (e : Engine) (files : Files) (before : List Event) (load : Load) : Prop where
  due : load.answer.map Compiled.template = due e load.path before ∨
    ∃ t, load.answer.map Compiled.template = .ok t ∧ Cached e files load.path before t
  same {earlier between : List Event} {other : String} {old new : Compiled}
    (hbefore : before = earlier ++ .load ⟨other, .ok old⟩ :: between)
    (hpath : Path.normalize other = Path.normalize load.path) (hnew : load.answer = .ok new) :
    (new.serial = old.serial ↔ Untouched load.path between) ∧
      (Untouched load.path between → new = old)

theorem answered_error {e : Engine} {files : Files} {before : List Event} {path : String}
    {fault : Fault} (h : Event.due e path before = .error fault) :
    Answered e files before ⟨path, .error fault⟩ where
  due := .inl h.symm
  same _ _ hnew := by cases hnew

variable {path other : String} {events after : List Event} {event : Event}

theorem texts_concat (path : String) (events : List Event) (event : Event) :
    texts path (events ++ [event]) = texts path events ++ texts path [event] :=
  List.filterMap_append ..

theorem untouched_concat_iff :
    Untouched path (events ++ [event]) ↔ Untouched path events ∧ ¬ event.Touches path := by
  simp only [Untouched, List.forall_mem_append, List.forall_mem_singleton]

theorem untouched_nil : Untouched path [] := nofun

theorem untouched_congr (h : Path.normalize other = Path.normalize path) :
    Untouched other events ↔ Untouched path events := by
  have htouches (event : Event) : event.Touches other ↔ event.Touches path := by
    cases event with
    | put => simp only [Touches, h]
    | load | rendered | clear => exact .rfl
  simp only [Untouched, htouches]

/-- A place in some events and one more is the last one, or one in the events. -/
theorem concat_eq_iff {α : Type} {list before after : List α} {last x : α} :
    list ++ [last] = before ++ x :: after ↔
      after = [] ∧ before = list ∧ x = last ∨
        ∃ more, after = more ++ [last] ∧ list = before ++ x :: more := by
  constructor
  · intro h
    rcases after.eq_nil_or_concat with rfl | ⟨more, y, rfl⟩
    · obtain ⟨hlist, hlast⟩ := List.append_inj' h rfl
      exact .inl ⟨rfl, hlist.symm, (List.singleton_inj.1 hlast).symm⟩
    · rw [List.concat_eq_append] at h ⊢
      rw [← List.cons_append, ← List.append_assoc] at h
      obtain ⟨hlist, hlast⟩ := List.append_inj' h rfl
      exact .inr ⟨more, by rw [hlast], hlist⟩
  · rintro (⟨rfl, rfl, rfl⟩ | ⟨more, rfl, rfl⟩)
    · rfl
    · simp

end Event

-- ---------------------------------------------------------------------------
-- What is held after some events
-- ---------------------------------------------------------------------------

namespace Shelf

/-- The revision that a path has after some texts were put under it. -/
def revision? (texts : List String) : Option Revision :=
  texts.getLast?.map fun text => ⟨text, texts.length - 1⟩

theorem revision?_concat (texts : List String) (text : String) :
    revision? (texts ++ [text]) = some ⟨text, texts.length⟩ := by
  simp [revision?]

theorem revision?_eq_some {texts : List String} {revision : Revision}
    (h : revision? texts = some revision) : texts.getLast? = some revision.text ∧
      texts[revision.modified]? = some revision.text ∧ revision.modified + 1 = texts.length := by
  rcases texts.eq_nil_or_concat with rfl | ⟨before, text, rfl⟩
  · cases h
  · rw [List.concat_eq_append, revision?_concat] at h
    cases h
    simp

/-- The time of a new text is the number of texts before it. -/
theorem get?_put {shelf : Shelf} {path : String} {texts : List String}
    (h : shelf.get? path = revision? texts) (text other : String) :
    (shelf.put path text).get? other = if Path.normalize other = Path.normalize path then
      some ⟨text, texts.length⟩ else shelf.get? other := by
  have hput : shelf.put path text =
      ⟨shelf.revisions.put (Path.normalize path) ⟨text, texts.length⟩⟩ := by
    unfold put
    rw [h]
    rcases texts.eq_nil_or_concat with rfl | ⟨before, last, rfl⟩
    · rfl
    · rw [List.concat_eq_append, revision?_concat, List.length_append, List.length_singleton]
  rw [hput]
  by_cases hsame : Path.normalize other = Path.normalize path
  · rw [if_pos hsame, get?, hsame]
    exact Table.get?_put_self ..
  · rw [if_neg hsame]
    exact Table.get?_put_of_ne hsame ..

theorem get?_congr (shelf : Shelf) {path other : String}
    (h : Path.normalize other = Path.normalize path) : shelf.get? other = shelf.get? path := by
  unfold get?
  rw [h]

theorem get?_of_read {e : Engine} {shelf : Shelf} {files : Files} {path : String}
    {revision : Revision}
    (h : (e.onShelf shelf).source.read files (Path.normalize path) = .ok revision) :
    shelf.get? path = some revision := by
  rw [← shelf.get?_congr (Path.normalize_normalize path)]
  exact Engine.read_onShelf_eq_ok_iff.1 h

end Shelf

namespace Holding

open Event

/-- What is held of a compilation that was handed out: it is remembered as long as the path is
untouched, and not handed out again after that. -/
structure Hands (h : Holding) (path : String) (old : Compiled) (after : List Event) : Prop where
  serial : old.serial < h.memory.serial
  kept (huntouched : Untouched path after) : ∃ revision, h.shelf.get? path = some revision ∧
    h.memory.compiled.get? (Path.normalize path) = some (revision.modified, old)
  dropped {revision : Revision} {new : Compiled} (htouched : ¬ Untouched path after)
    (hrevision : h.shelf.get? path = some revision)
    (hnew : h.memory.compiled.get? (Path.normalize path) = some (revision.modified, new)) :
    new.serial ≠ old.serial

/-- What is held fits the events so far, and all loads among them were answered as they may be.
`files` are those at first. -/
structure Fits (e : Engine) (files : Files) (events : List Event) (h : Holding) : Prop where
  shelf (path : String) : h.shelf.get? path = Shelf.revision? (texts (Path.normalize path) events)
  keeps {path : String} {modified : Nat} {t : Template}
    (hkeeps : e.Keeps h.memory (Path.normalize path) modified t) :
    (∃ cache ∈ e.cache, cache.Holds files (Path.normalize path) modified t) ∨
      ∃ text, (texts (Path.normalize path) events)[modified]? = some text ∧
        e.Yields (Path.normalize path) text t
  remembered {path : String} {modified : Nat} {compiled : Compiled}
    (hcompiled : h.memory.compiled.get? (Path.normalize path) = some (modified, compiled)) :
    modified < (texts (Path.normalize path) events).length
  serial {path : String} {modified : Nat} {compiled : Compiled}
    (hcompiled : h.memory.compiled.get? path = some (modified, compiled)) :
    compiled.serial < h.memory.serial
  hands {before after : List Event} {path : String} {old : Compiled}
    (hevents : events = before ++ .load ⟨path, .ok old⟩ :: after) : h.Hands path old after
  answered {before after : List Event} {load : Load}
    (hevents : events = before ++ .load load :: after) : Answered e files before load

variable {e : Engine} {files : Files} {h : Holding} {events : List Event} {m : Memory}

/-- At first nothing is remembered, and what is kept lies in the cache. -/
theorem start_fits (e : Engine) (files : Files) : Fits e files [] (.start files) where
  shelf _ := rfl
  keeps hkeeps := .inl (hkeeps.resolve_right nofun)
  remembered := nofun
  serial := nofun
  hands hevents := by simp at hevents
  answered hevents := by simp at hevents

namespace Fits

variable (hfits : Fits e files events h)

include hfits

/-- What becomes kept is of a text that was put there. -/
theorem keeps_of_finds (hfinds : (e.onShelf h.shelf).Finds h.memory m) {path : String}
    {modified : Nat} {t : Template} (hkeeps : e.Keeps m (Path.normalize path) modified t) :
    (∃ cache ∈ e.cache, cache.Holds files (Path.normalize path) modified t) ∨
      ∃ text, (texts (Path.normalize path) events)[modified]? = some text ∧
        e.Yields (Path.normalize path) text t := by
  rcases hfinds _ _ _ hkeeps with hkept | ⟨text, hread, hyields⟩
  · exact hfits.keeps hkept
  · have hrevision := Shelf.get?_of_read hread
    rw [hfits.shelf] at hrevision
    obtain ⟨-, htext, -⟩ := Shelf.revision?_eq_some hrevision
    exact .inr ⟨text, htext, hyields⟩

/-- Questions for anything but templates. -/
theorem quiet (hfinds : (e.onShelf h.shelf).Finds h.memory m)
    (hcompiled : m.compiled = h.memory.compiled) (hserial : m.serial = h.memory.serial) :
    Fits e files events ⟨h.shelf, m⟩ where
  shelf := hfits.shelf
  keeps := hfits.keeps_of_finds hfinds
  remembered hremembered := hfits.remembered (hcompiled ▸ hremembered)
  serial hremembered := by
    rw [hcompiled] at hremembered
    rw [hserial]
    exact hfits.serial hremembered
  hands hevents := by
    obtain ⟨hold, hkept, hdropped⟩ := hfits.hands hevents
    refine ⟨hserial ▸ hold, ?_, ?_⟩
    · rw [hcompiled]
      exact hkept
    · rw [hcompiled]
      exact hdropped
  answered := hfits.answered

omit hfits in
/-- What holds of all loads of some events and one more. -/
theorem of_concat {event : Event} {P : List Event → Load → List Event → Prop}
    (hold : ∀ before load after, events = before ++ .load load :: after →
      P before load (after ++ [event]))
    (hnew : ∀ load, event = .load load → P events load []) {before after : List Event} {load : Load}
    (hevents : events ++ [event] = before ++ .load load :: after) : P before load after := by
  rcases concat_eq_iff.1 hevents with ⟨rfl, rfl, hlast⟩ | ⟨more, rfl, hmore⟩
  · exact hnew load hlast.symm
  · exact hold before load more hmore

/-- An event that is no load. -/
theorem concat {event : Event} {h' : Holding} (hevent : ∀ load, event ≠ .load load)
    (hshelf : ∀ path, h'.shelf.get? path =
      Shelf.revision? (texts (Path.normalize path) (events ++ [event])))
    (hkeeps : ∀ {path modified t}, e.Keeps h'.memory (Path.normalize path) modified t →
      e.Keeps h.memory (Path.normalize path) modified t)
    (hcompiled : ∀ {path p}, h'.memory.compiled.get? path = some p →
      h.memory.compiled.get? path = some p)
    (hserial : h'.memory.serial = h.memory.serial)
    (hhands : ∀ {path old after}, h.Hands path old after → h'.Hands path old (after ++ [event])) :
    Fits e files (events ++ [event]) h' where
  shelf := hshelf
  keeps hkept := by
    refine (hfits.keeps (hkeeps hkept)).imp_right fun ⟨text, htext, hyields⟩ => ⟨text, ?_, hyields⟩
    rw [texts_concat, List.getElem?_append_left (List.getElem?_eq_some_iff.1 htext).1]
    exact htext
  remembered hremembered := by
    rw [texts_concat, List.length_append]
    exact Nat.lt_add_right _ (hfits.remembered (hcompiled hremembered))
  serial hremembered := by
    rw [hserial]
    exact hfits.serial (hcompiled hremembered)
  hands {before after path old} hevents :=
    of_concat (P := fun _ load after => ∀ old, load.answer = .ok old → h'.Hands load.path old after)
      (fun _ load _ hevents old hold => by
        obtain ⟨path, answer⟩ := load
        cases hold
        exact hhands (hfits.hands hevents))
      (fun load heq => absurd heq (hevent load)) hevents old rfl
  answered hevents :=
    of_concat (P := fun before load _ => Answered e files before load)
      (fun _ _ _ hevents => hfits.answered hevents) (fun load heq => absurd heq (hevent load))
      hevents

theorem rendered (result : Except Stop Rendered) :
    Fits e files (events ++ [.rendered result]) h := by
  refine hfits.concat nofun (fun path => ?_) id id rfl fun hhands => ?_
  · rw [texts_concat, show texts _ [.rendered result] = [] from rfl, List.append_nil]
    exact hfits.shelf path
  · refine ⟨hhands.serial, fun huntouched => ?_, fun htouched => ?_⟩
    · exact hhands.kept (untouched_concat_iff.1 huntouched).1
    · exact hhands.dropped fun huntouched => htouched (untouched_concat_iff.2 ⟨huntouched, id⟩)

theorem clear : Fits e files (events ++ [.clear]) ⟨h.shelf, h.memory.clear⟩ := by
  refine hfits.concat nofun (fun path => ?_) ?_ nofun rfl fun hhands => ?_
  · rw [texts_concat, show texts _ [.clear] = [] from rfl, List.append_nil]
    exact hfits.shelf path
  · rintro path modified t (hcached | ⟨serial, hremembered⟩)
    · exact .inl hcached
    · cases hremembered
  · refine ⟨hhands.serial, fun huntouched => ?_, nofun⟩
    exact absurd trivial (untouched_concat_iff.1 huntouched).2

theorem put (path text : String) :
    Fits e files (events ++ [.put path text]) ⟨h.shelf.put path text, h.memory⟩ := by
  have hget := Shelf.get?_put (hfits.shelf path) text
  have htexts (other : String) : texts (Path.normalize other) [.put path text] =
      if Path.normalize path = Path.normalize other then [text] else [] := by
    by_cases hpath : Path.normalize path = Path.normalize other <;> simp [texts, hpath]
  refine hfits.concat nofun (fun other => ?_) id id rfl fun {other old after} hhands => ?_
  · rw [hget, texts_concat, htexts]
    split
    · rename_i hpath
      rw [if_pos hpath.symm, hpath, Shelf.revision?_concat]
    · rename_i hpath
      rw [if_neg (Ne.symm hpath), List.append_nil]
      exact hfits.shelf other
  · by_cases hpath : Path.normalize path = Path.normalize other
    · refine ⟨hhands.serial, fun huntouched => ?_, fun {revision new} _ hrevision hnew => ?_⟩
      · exact absurd hpath (untouched_concat_iff.1 huntouched).2
      · -- no compilation is remembered for the new text yet
        rw [hget, if_pos hpath.symm] at hrevision
        cases hrevision
        have hearlier := hfits.remembered hnew
        rw [← hpath] at hearlier
        exact absurd hearlier (Nat.lt_irrefl _)
    · have hsame : (h.shelf.put path text).get? other = h.shelf.get? other := by
        rw [hget, if_neg (Ne.symm hpath)]
      refine ⟨hhands.serial, fun huntouched => ?_, fun htouched hrevision => ?_⟩
      · rw [hsame]
        exact hhands.kept (untouched_concat_iff.1 huntouched).1
      · rw [hsame] at hrevision
        exact hhands.dropped
          (fun huntouched => htouched (untouched_concat_iff.2 ⟨huntouched, hpath⟩)) hrevision

/-- What is kept for the current revision of a path is what loading it has to come to, or it lies in
the cache. -/
theorem due_or_cached {path : String} {revision : Revision} {t : Template}
    (hrevision : h.shelf.get? path = some revision)
    (hkeeps : e.Keeps h.memory (Path.normalize path) revision.modified t) :
    due e path events = .ok t ∨ Cached e files path events t := by
  rw [hfits.shelf] at hrevision
  obtain ⟨hlast, htext, hlength⟩ := Shelf.revision?_eq_some hrevision
  rcases hfits.keeps hkeeps with
    ⟨cache, hcache, hholds⟩ | ⟨text, htext', compiled, hcompile, hyields⟩
  · refine .inr (.left hcache ?_ ?_)
    · rw [← List.length_pos_iff, ← hlength]
      exact Nat.succ_pos _
    · rw [← hlength, Nat.add_sub_cancel]
      exact hholds
  · cases htext.symm.trans htext'
    have hdue : due e path events = .ok compiled := by
      rw [due, hlast]
      exact hcompile
    rcases hyields with rfl | ⟨hcache, hread⟩
    · exact .inl hdue
    · exact .inr (.stored hcache hdue hread)

theorem due_of_revision {path : String} {revision : Revision}
    (hrevision : h.shelf.get? path = some revision) :
    due e path events = e.compile (Path.normalize path) revision.text := by
  rw [hfits.shelf] at hrevision
  rw [due, (Shelf.revision?_eq_some hrevision).1]

/-- A load is answered as it has to be, or by the cache. -/
theorem answers {path : String} {answer : Except Fault Compiled}
    (hloads : (e.onShelf h.shelf).Loads (Path.normalize path) h.memory answer m) :
    Answered e files events ⟨path, answer⟩ := by
  have hhands {earlier between : List Event} {other : String} {old : Compiled}
      (hevents : events = earlier ++ .load ⟨other, .ok old⟩ :: between)
      (hpath : Path.normalize other = Path.normalize path) : h.Hands path old between := by
    obtain ⟨hserial, hkept, hdropped⟩ := hfits.hands hevents
    rw [h.shelf.get?_congr hpath, hpath, untouched_congr hpath] at hkept hdropped
    exact ⟨hserial, hkept, hdropped⟩
  cases hloads with
  | missed fault hread =>
    obtain ⟨hnone, rfl⟩ := Engine.read_onShelf_eq_error_iff.1 hread
    rw [hfits.shelf, Shelf.revision?, Option.map_eq_none_iff, Path.normalize_normalize] at hnone
    exact answered_error (by rw [due, hnone, Path.normalize_normalize])
  | failed revision fault hread hcompile =>
    have hdue := hfits.due_of_revision (Shelf.get?_of_read hread)
    exact answered_error (hdue.trans hcompile)
  | remembered revision compiled hread hcompiled =>
    have hrevision := Shelf.get?_of_read hread
    constructor
    case due =>
      exact (hfits.due_or_cached hrevision (.inr ⟨compiled.serial, hcompiled⟩)).imp .symm
        fun hcached => ⟨_, rfl, hcached⟩
    case same =>
      rintro earlier between other old new hevents hpath ⟨⟩
      have hold := hhands hevents hpath
      have hsame (huntouched : Untouched path between) : compiled = old := by
        obtain ⟨current, hcurrent, hremembered⟩ := hold.kept huntouched
        cases hrevision.symm.trans hcurrent
        cases hcompiled.symm.trans hremembered
        rfl
      refine ⟨⟨fun hserial => ?_, fun huntouched => by rw [hsame huntouched]⟩, hsame⟩
      refine Classical.byContradiction fun htouched => ?_
      exact hold.dropped htouched hrevision hcompiled hserial
  | made revision t files hread hnew hfetches =>
    have hrevision := Shelf.get?_of_read hread
    constructor
    case due =>
      rcases hfetches.keeps_or with hkeeps | hcompile
      · exact (hfits.due_or_cached hrevision hkeeps).imp .symm fun hcached => ⟨_, rfl, hcached⟩
      · exact .inl ((hfits.due_of_revision hrevision).trans hcompile).symm
    case same =>
      rintro earlier between other old new hevents hpath ⟨⟩
      have hold := hhands hevents hpath
      have hnot (huntouched : Untouched path between) : False := by
        obtain ⟨current, hcurrent, hremembered⟩ := hold.kept huntouched
        cases hrevision.symm.trans hcurrent
        exact hnew _ hremembered
      refine ⟨⟨fun hserial => ?_, fun huntouched => (hnot huntouched).elim⟩,
        fun huntouched => (hnot huntouched).elim⟩
      exact absurd hserial (Nat.ne_of_gt hold.serial)

omit hfits in
/-- What a load leaves in hand of a compilation that was handed out before. -/
theorem hands_load {path other : String} {answer : Except Fault Compiled} {old : Compiled}
    {after : List Event}
    (hloads : (e.onShelf h.shelf).Loads (Path.normalize path) h.memory answer m)
    (hold : h.Hands other old after) :
    Hands ⟨h.shelf, m⟩ other old (after ++ [.load ⟨path, answer⟩]) := by
  have huntouched_iff : Untouched other (after ++ [.load ⟨path, answer⟩]) ↔
      Untouched other after := by
    rw [untouched_concat_iff]
    exact and_iff_left id
  cases hloads with
  | missed | remembered | failed =>
    exact ⟨hold.serial, by rw [huntouched_iff]; exact hold.kept,
      by rw [huntouched_iff]; exact hold.dropped⟩
  | made revision t files hread hnew hfetches =>
    have hrevision := Shelf.get?_of_read hread
    by_cases hpath : Path.normalize other = Path.normalize path
    · refine ⟨Nat.lt_succ_of_lt hold.serial, fun huntouched => ?_,
        fun {_ new} _ _ hremembered => ?_⟩
      · obtain ⟨current, hcurrent, hremembered⟩ := hold.kept (huntouched_iff.1 huntouched)
        rw [h.shelf.get?_congr hpath] at hcurrent
        cases hrevision.symm.trans hcurrent
        exact absurd (hpath ▸ hremembered) (hnew old)
      · rw [hpath] at hremembered
        simp only [Engine.remember, Table.get?_put_self] at hremembered
        obtain ⟨-, rfl⟩ := Prod.mk.inj (Option.some.inj hremembered)
        exact Nat.ne_of_gt hold.serial
    · have hget : ((Engine.remember (Path.normalize path) revision.modified t
          { h.memory with files := files }).2.compiled).get? (Path.normalize other) =
            h.memory.compiled.get? (Path.normalize other) :=
        Table.get?_put_of_ne hpath ..
      refine ⟨Nat.lt_succ_of_lt hold.serial, ?_, ?_⟩
      · rw [hget, huntouched_iff]
        exact hold.kept
      · rw [hget, huntouched_iff]
        exact hold.dropped

/-- What a load hands out is remembered. -/
theorem hands_answer {path : String} {new : Compiled}
    (hloads : (e.onShelf h.shelf).Loads (Path.normalize path) h.memory (.ok new) m) :
    Hands ⟨h.shelf, m⟩ path new [] := by
  cases hloads with
  | remembered revision _ hread hcompiled =>
    have hrevision := Shelf.get?_of_read hread
    exact ⟨hfits.serial hcompiled, fun _ => ⟨revision, hrevision, hcompiled⟩,
      fun htouched => absurd untouched_nil htouched⟩
  | made revision t files hread =>
    have hrevision := Shelf.get?_of_read hread
    exact ⟨Nat.lt_succ_self _, fun _ => ⟨revision, hrevision, Table.get?_put_self ..⟩,
      fun htouched => absurd untouched_nil htouched⟩

theorem load (path : String) :
    Fits e files (events ++ [.load ⟨path, ((e.onShelf h.shelf).load path h.memory).1⟩])
      ⟨h.shelf, ((e.onShelf h.shelf).load path h.memory).2⟩ := by
  have hloads := (e.onShelf h.shelf).load_loads path h.memory
  have hfinds := (e.onShelf h.shelf).finds_load path h.memory
  generalize ((e.onShelf h.shelf).load path h.memory).1 = answer at hloads
  generalize ((e.onShelf h.shelf).load path h.memory).2 = m at hloads hfinds
  have htexts (other : String) :
      texts other (events ++ [.load ⟨path, answer⟩]) = texts other events := by
    rw [texts_concat]
    exact List.append_nil _
  constructor
  case shelf => exact fun other => by rw [htexts]; exact hfits.shelf other
  case keeps => exact fun hkeeps => by rw [htexts]; exact hfits.keeps_of_finds hfinds hkeeps
  case remembered =>
    intro other modified compiled hremembered
    rw [htexts]
    cases hloads with
    | missed | remembered | failed => exact hfits.remembered hremembered
    | made revision t files hread =>
      by_cases hother : Path.normalize other = Path.normalize path
      · have hrevision := Shelf.get?_of_read hread
        rw [hfits.shelf] at hrevision
        rw [hother, Engine.remember, Table.get?_put_self] at hremembered
        cases hremembered
        rw [hother, ← (Shelf.revision?_eq_some hrevision).2.2]
        exact Nat.lt_succ_self _
      · rw [Engine.remember, Table.get?_put_of_ne hother] at hremembered
        exact hfits.remembered hremembered
  case serial =>
    intro other modified compiled hremembered
    cases hloads with
    | missed | remembered | failed => exact hfits.serial hremembered
    | made revision t files =>
      by_cases hother : other = Path.normalize path
      · subst hother
        simp only [Engine.remember, Table.get?_put_self] at hremembered
        cases hremembered
        exact Nat.lt_succ_self _
      · rw [Engine.remember, Table.get?_put_of_ne hother] at hremembered
        exact Nat.lt_succ_of_lt (hfits.serial hremembered)
  case hands =>
    intro before after other old hevents
    refine of_concat
      (P := fun _ load after =>
        ∀ old, load.answer = .ok old → Hands ⟨h.shelf, m⟩ load.path old after)
      (fun _ load _ hevents old hold => ?_) (fun load heq old hold => ?_) hevents old rfl
    · obtain ⟨other, _⟩ := load
      cases hold
      exact hands_load hloads (hfits.hands hevents)
    · cases heq
      cases hold
      exact hfits.hands_answer hloads
  case answered =>
    refine of_concat (P := fun before load _ => Answered e files before load)
      (fun _ _ _ hevents => hfits.answered hevents) (fun load heq => ?_)
    cases heq
    exact hfits.answers hloads

end Fits

-- ---------------------------------------------------------------------------
-- Runs
-- ---------------------------------------------------------------------------

/-- Questions keep what is held in step with the events. -/
theorem Fits.asks {shelf : Shelf} {m' : Memory} {loads : List Load}
    (hasks : (e.onShelf shelf).Asks m loads m') (hfits : Fits e files events ⟨shelf, m⟩) :
    Fits e files (events ++ loads.map .load) ⟨shelf, m'⟩ := by
  induction hasks generalizing events with
  | done m =>
    rw [List.map_nil, List.append_nil]
    exact hfits
  | load path _ ih =>
    rw [List.map_cons, List.append_cons]
    exact ih (hfits.load path)
  | dictionary language file _ ih =>
    exact ih (hfits.quiet ((e.onShelf shelf).finds_loadDictionary language file _) rfl rfl)
  | parsed exprs _ ih => exact ih (hfits.quiet (fun _ _ _ => .inl) rfl rfl)

theorem memory_renderWithin (e : Engine) (depth : Nat) (template : Template) (data : Value)
    (language : Option String) (m : Memory) : (e.renderWithin depth template data language m).2 =
      (Render.page e depth template (.start data (language.or e.language)) m).2 := by
  unfold Engine.renderWithin
  simp only [StateT.run]
  split
  · rename_i heq
    rw [heq]
  · rename_i heq
    rw [heq]

/-- Every use keeps what is held in step with the events. -/
theorem Fits.shows {use : Use} {more : List Event} (hshows : h.Shows e use more)
    (hfits : Fits e files events h) : Fits e files (events ++ more) (h.after e use) := by
  cases hshows with
  | put path text => exact hfits.put path text
  | load path => exact hfits.load path
  | clear => exact hfits.clear
  | render depth template data language hlogs =>
    have hasks := hlogs.asks (.start data (language.or e.language)) h.memory
    have hmemory := memory_renderWithin (e.onShelf h.shelf) depth template data language h.memory
    rw [← List.append_assoc, after, hmemory]
    exact (hfits.asks hasks).rendered _

theorem Runs.fits {last : Holding} {uses : List Use} {more : List Event}
    (hruns : Runs e h uses more last) (hfits : Fits e files events h) :
    Fits e files (events ++ more) last := by
  induction hruns generalizing events with
  | done =>
    rw [List.append_nil]
    exact hfits
  | use hshows _ ih =>
    rw [← List.append_assoc]
    exact ih (hfits.shows hshows)

theorem exists_put_of_mem_texts {path text : String} (hmem : text ∈ texts path events) :
    ∃ other, Event.put other text ∈ events ∧ Path.normalize other = path := by
  obtain ⟨event, hevent, heq⟩ := List.mem_filterMap.1 hmem
  cases event with
  | put other text' =>
    simp only at heq
    split at heq
    · rename_i hpath
      cases heq
      exact ⟨other, hevent, hpath⟩
    · cases heq
  | load | rendered | clear => cases heq

/-- The texts among the events are the ones that were put. -/
theorem Runs.mem_of_put {last : Holding} {uses : List Use} (hruns : Runs e h uses events last)
    {path text : String} (hput : .put path text ∈ events) : .put path text ∈ uses := by
  induction hruns with
  | done => cases hput
  | use hshows _ ih =>
    rcases List.mem_append.1 hput with hput | hput
    · cases hshows with
      | put => simp_all
      | load | clear => simp at hput
      | render => simp at hput
    · exact List.mem_cons_of_mem _ (ih hput)

/-- Every sequence of uses has a run, since every render has a log. -/
theorem exists_runs (e : Engine) (h : Holding) (uses : List Use) :
    ∃ events last, Runs e h uses events last := by
  induction uses generalizing h with
  | nil => exact ⟨[], h, .done h⟩
  | cons use uses ih =>
    obtain ⟨more, last, hruns⟩ := ih (h.after e use)
    have hshows : ∃ events, h.Shows e use events := by
      cases use with
      | put path text => exact ⟨_, .put path text⟩
      | load path => exact ⟨_, .load path⟩
      | clear => exact ⟨_, .clear⟩
      | render depth template data language =>
        obtain ⟨loads, hlogs⟩ := (Render.logged_basic (e.onShelf h.shelf)).page depth template
        exact ⟨_, .render depth template data language hlogs⟩
    obtain ⟨events, hshows⟩ := hshows
    exact ⟨_, last, .use hshows hruns⟩

theorem runs_append_iff {last : Holding} {uses more : List Use} :
    Runs e h (uses ++ more) events last ↔ ∃ left right middle, events = left ++ right ∧
      Runs e h uses left middle ∧ Runs e middle more right last := by
  constructor
  · intro hruns
    induction uses generalizing h events with
    | nil => exact ⟨[], events, h, rfl, .done h, hruns⟩
    | cons use uses ih =>
      cases hruns with
      | use hshows hrest =>
        obtain ⟨left, right, middle, rfl, hleft, hright⟩ := ih hrest
        exact ⟨_, right, middle, (List.append_assoc ..).symm, .use hshows hleft, hright⟩
  · rintro ⟨left, right, middle, rfl, hleft, hright⟩
    induction hleft with
    | done => exact hright
    | use hshows _ ih =>
      rw [List.append_assoc]
      exact .use hshows (ih hright)

end Holding

namespace Engine

/-- The cache of an engine, if it has one, has no templates yet, and what the texts of some uses are
compiled to is read back from it as it was stored. -/
structure IsFresh (e : Engine) (files : Files) (uses : List Use) : Prop where
  empty : ∀ cache ∈ e.cache, ∀ path modified t, ¬ cache.Holds files path modified t
  exact : e.cache ≠ none → ∀ path text t, Use.put path text ∈ uses →
    e.compile (Path.normalize path) text = .ok t → t.IsExact

/-- A fresh cache has nothing but what loading has to come to. -/
theorem IsFresh.due_of_cached {e : Engine} {files : Files} {uses : List Use}
    {before events : List Event} {h last : Holding} {path : String} {t : Template}
    (hfresh : e.IsFresh files uses)
    (hruns : Holding.Runs e h uses events last) (hbefore : before ⊆ events)
    (hcached : Event.Cached e files path before t) : Event.due e path before = .ok t := by
  cases hcached with
  | left hcache _ hholds => exact absurd hholds (hfresh.empty _ hcache _ _ _)
  | @stored compiled _ hcache hdue hread =>
    obtain ⟨text, htext, hcompile⟩ : ∃ text,
        (Event.texts (Path.normalize path) before).getLast? = some text ∧
          e.compile (Path.normalize path) text = .ok compiled := by
      unfold Event.due at hdue
      split at hdue
      · exact ⟨_, ‹_›, hdue⟩
      · cases hdue
    obtain ⟨other, hput, hother⟩ :=
      Holding.exists_put_of_mem_texts (List.mem_of_getLast? htext)
    have hexact := hfresh.exact hcache other text compiled (hruns.mem_of_put (hbefore hput))
      (hother ▸ hcompile)
    rw [hexact t hread]
    exact hdue

/-- However an engine over texts in memory is used, every load, by a call or by an inclusion, is
answered with the compilation of the last text under its path, or with its error, or misses the
source. Only a cache may have another template instead, unless it is fresh. It is the compilation of
an earlier load just if the path was not touched since. A load that fails leaves everything as it
is, so that without it all else shows the same. -/
theorem load_coherent (e : Engine) (files : Files) (uses : List Use) :
    (∃ events last, Holding.Runs e (.start files) uses events last) ∧
    (∀ events last, Holding.Runs e (.start files) uses events last →
      (∀ before load after, events = before ++ .load load :: after →
        Event.Answered e files before load ∧
          (e.IsFresh files uses →
            load.answer.map Compiled.template = Event.due e load.path before)) ∧
      (∀ first path rest, uses = first ++ .load path :: rest →
        ∃ left answer right, events = left ++ .load ⟨path, answer⟩ :: right ∧
          (∀ fault, answer = .error fault →
            Holding.Runs e (.start files) (first ++ rest) (left ++ right) last))) ∧
    (∀ shelf path m fault, ((e.onShelf shelf).load path m).1 = .error fault →
      ((e.onShelf shelf).load path m).2 = m) := by
  refine ⟨Holding.exists_runs e _ uses, fun events last hruns => ⟨?_, ?_⟩,
    fun _ _ _ _ => memory_of_load_eq_error⟩
  · intro before load after hevents
    have hanswered := (hruns.fits (Holding.start_fits e files)).answered hevents
    refine ⟨hanswered, fun hfresh => ?_⟩
    have hbefore : before ⊆ events := hevents ▸ List.subset_append_left ..
    rcases hanswered.due with hdue | ⟨t, ht, hcached⟩
    · exact hdue
    · rw [ht, hfresh.due_of_cached hruns hbefore hcached]
  · rintro first path rest rfl
    obtain ⟨left, right, middle, rfl, hleft, hright⟩ := Holding.runs_append_iff.1 hruns
    cases hright with
    | use hshows hrest =>
      cases hshows with
      | load =>
        refine ⟨left, _, _, rfl, fun fault hfault => Holding.runs_append_iff.2
          ⟨left, _, middle, rfl, hleft, ?_⟩⟩
        rw [Holding.after, memory_of_load_eq_error hfault] at hrest
        exact hrest

/-- An engine with a cache. -/
def caching : Engine := { Engine.default with cache := some ⟨"c", Cache.digest⟩ }

/-- What an engine leaves that has loaded another page. -/
def usedFiles : Files :=
  (([.put "page.xml" "<a/>", .load "page.xml"] : List Use).foldl (Holding.after caching)
    (.start ⟨[]⟩)).memory.files

/-- A page with a number that JSON does not read as it was written. -/
def numbered : String := "<p fig:text=\"97.77256910053987\"/>"

/-- With a cache that was used before, a page is loaded as the one that had its place and its time.
With a new one it is loaded with another number once everything was forgotten. -/
theorem not_due_caching :
    (∃ answer last, Holding.Runs caching (.start usedFiles)
        [.put "page.xml" "<b/>", .load "page.xml"]
        [.put "page.xml" "<b/>", .load ⟨"page.xml", answer⟩] last ∧
      answer.map Compiled.template ≠ Event.due caching "page.xml" [.put "page.xml" "<b/>"]) ∧
    ∃ first answer last, Holding.Runs caching (.start ⟨[]⟩)
        [.put "page.xml" numbered, .load "page.xml", .clear, .load "page.xml"]
        [.put "page.xml" numbered, .load first, .clear, .load ⟨"page.xml", answer⟩] last ∧
      answer.map Compiled.template ≠
        Event.due caching "page.xml" [.put "page.xml" numbered, .load first, .clear] := by
  refine ⟨⟨_, _, .use (.put ..) (.use (.load _) (.done _)), fun hdue => ?_⟩,
    ⟨_, _, _, .use (.put ..) (.use (.load _) (.use .clear (.use (.load _) (.done _)))),
      fun hdue => ?_⟩⟩
  · -- the root is still the one of the page before
    have hname := congrArg (fun answer => answer.toOption.map (·.root.name)) hdue
    revert hname
    decide +kernel
  · have hfloats := congrArg (fun answer => answer.toOption.map (·.floats.map Float.toBits)) hdue
    revert hfloats
    decide +kernel

/-- A page that includes another one. -/
def including : Template :=
  ⟨"a.xml", "fig:", ⟨0, "a", 1, .element, [], .none, [.child
    ⟨1, "fig:include", 1, .inclusion "b.xml", [], .none, [], true, none⟩], false, none⟩, []⟩

/-- A text that does not compile is replaced by one that does. It is loaded by an inclusion first,
under another spelling then, and once more after everything was forgotten. -/
def reloading : List Use :=
  [.put "./b.xml" "<b", .load "b.xml", .put "b.xml" "<b/>", .render 3 including .null none,
    .load "c/../b.xml", .clear, .load "b.xml"]

theorem isFresh_reloading : caching.IsFresh ⟨[]⟩ reloading where
  empty := by
    rintro cache - path modified t ⟨way, content, time, -, hat, -⟩
    unfold Files.at? at hat
    split at hat
    · cases hat
    · cases hat
  exact := by
    intro _ path text t hput hcompile
    have htexts : (path, text) ∈ [("./b.xml", "<b"), ("b.xml", "<b/>")] := by
      simpa [reloading] using hput
    have hfloats : ∀ p ∈ [("./b.xml", "<b"), ("b.xml", "<b/>")], p.2.toList.length < maxStored ∧
        (caching.compile (Path.normalize p.1) p.2).toOption.all (·.floats.isEmpty) := by
      decide +kernel
    obtain ⟨hsize, hnone⟩ := hfloats _ htexts
    rw [hcompile] at hnone
    have hnil : t.floats = [] := List.isEmpty_iff.1 hnone
    exact Template.isExact_of_compile hcompile hsize (by simp [hnil])

/-- The inclusion makes the first compilation, of the second text, and the loads are coherent. -/
theorem load_coherent_reloading :
    caching.IsFresh ⟨[]⟩ reloading ∧
    (let rendered := (reloading.take 4).foldl (Holding.after caching) (.start ⟨[]⟩)
     (rendered.memory.compiled.get? "b.xml").map (fun p => (p.1, p.2.serial)) = some (1, 0)) ∧
    ∃ events last, Holding.Runs caching (.start ⟨[]⟩) reloading events last ∧
      ∀ before load after, events = before ++ .load load :: after →
        Event.Answered caching ⟨[]⟩ before load ∧
          load.answer.map Compiled.template = Event.due caching load.path before := by
  obtain ⟨⟨events, last, hruns⟩, hcoherent, -⟩ := load_coherent caching ⟨[]⟩ reloading
  refine ⟨isFresh_reloading, by decide +kernel, events, last, hruns, ?_⟩
  intro before load after hevents
  obtain ⟨hanswered, hdue⟩ := (hcoherent events last hruns).1 before load after hevents
  exact ⟨hanswered, hdue isFresh_reloading⟩

end Engine

end XmlTemplate
