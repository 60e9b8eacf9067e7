import XmlTemplate.Proofs.Render.Attachment
import XmlTemplate.Proofs.Render.Growth

/-!
# What becomes of a translation

In the language of the source, the content of a translation is its text. In all others the text is
the first one under its key in the dictionaries in sight; the key is the content where none is
given. Then the placeholders of the text are filled.

Apart from what its content, its parameters and the expressions for its placeholders do, a
translation stops only if it asks for a dictionary of a name that no view around has. Otherwise
something comes of it: the text, or the key with one warning when there is no text under it or
nothing is left of the text.
-/

namespace XmlTemplate

-- ---------------------------------------------------------------------------
-- Look-ups
-- ---------------------------------------------------------------------------

namespace Views

variable {views : Views} {i : Nat} {key : String} {dict : Option String}

/-- A look-up asks for no name, or for one that a dictionary in sight has. -/
def HasAsked (views : Views) (i : Nat) (dict : Option String) : Prop :=
  ∀ name, dict = some name → ∃ v ∈ views.chain i, name ∈ v.names

theorem hasAsked_iff :
    views.HasAsked i dict ↔
      ¬ (dict.isSome ∧ (views.chain i).flatMap (View.searched dict) = []) := by
  cases dict with
  | none => simp [HasAsked]
  | some name =>
    simp only [HasAsked, Option.some.injEq, forall_eq', Option.isSome_some, true_and,
      List.flatMap_eq_nil_iff, View.searched_eq_nil_iff]
    simp

variable (views i key dict) in
/-- A look-up comes to one of three ends. -/
theorem translate_cases :
    (∃ text, views.translate i key dict = .found text ∧ views.HasAsked i dict ∧
      ((views.chain i).flatMap (View.searched dict)).findSome? (·.get? key) = some text) ∨
    (views.translate i key dict = .missingEntry ∧ views.HasAsked i dict ∧
      ((views.chain i).flatMap (View.searched dict)).findSome? (·.get? key) = none) ∨
    (views.translate i key dict = .missingDictionary ∧ ¬ views.HasAsked i dict ∧
      ((views.chain i).flatMap (View.searched dict)).findSome? (·.get? key) = none) := by
  rw [hasAsked_iff, not_not]
  unfold translate
  simp only
  split
  · rename_i text htext
    refine .inl ⟨text, rfl, ?_, htext⟩
    rintro ⟨-, hnil⟩
    rw [hnil] at htext
    cases htext
  · rename_i hnone
    split
    · rename_i hasked
      exact .inr (.inr ⟨rfl, by simpa using hasked, hnone⟩)
    · rename_i hasked
      exact .inr (.inl ⟨rfl, by simpa using hasked, hnone⟩)

theorem exists_of_not_hasAsked (h : ¬ views.HasAsked i dict) :
    ∃ name, dict = some name ∧ ∀ v ∈ views.chain i, name ∉ v.names := by
  simp only [HasAsked, not_forall, not_exists, not_and] at h
  obtain ⟨name, hname, hall⟩ := h
  exact ⟨name, hname, hall⟩

theorem translate_eq_found_iff {text : String} :
    views.translate i key dict = .found text ↔
      ((views.chain i).flatMap (View.searched dict)).findSome? (·.get? key) = some text := by
  rcases translate_cases views i key dict with
    ⟨other, h, -, hsome⟩ | ⟨h, -, hnone⟩ | ⟨h, -, hnone⟩
  · rw [h, hsome, Translation.found.injEq, Option.some.injEq]
  · simp [h, hnone]
  · simp [h, hnone]

theorem translate_eq_missingEntry_iff :
    views.translate i key dict = .missingEntry ↔
      views.HasAsked i dict ∧ ∀ v ∈ views.chain i, ∀ d ∈ v.searched dict, d.get? key = none := by
  have hnone : (∀ v ∈ views.chain i, ∀ d ∈ v.searched dict, d.get? key = none) ↔
      ((views.chain i).flatMap (View.searched dict)).findSome? (·.get? key) = none := by
    simp only [List.findSome?_eq_none_iff, List.mem_flatMap, forall_exists_index, and_imp]
    exact ⟨fun h d v hv hd => h v hv d hd, fun h v hv d hd => h d v hv hd⟩
  rw [hnone]
  rcases translate_cases views i key dict with
    ⟨other, h, -, hsome⟩ | ⟨h, hasked, hnone⟩ | ⟨h, hasked, -⟩
  · simp [h, hsome]
  · simp [h, hasked, hnone]
  · simp [h, hasked]

theorem not_hasAsked_iff :
    ¬ views.HasAsked i dict ↔ views.translate i key dict = .missingDictionary := by
  rcases translate_cases views i key dict with
    ⟨_, h, hasked, -⟩ | ⟨h, hasked, -⟩ | ⟨h, hasked, -⟩ <;> simp [h, hasked]

end Views

namespace Render

-- ---------------------------------------------------------------------------
-- Parts of a translation
-- ---------------------------------------------------------------------------

section

variable (e : Engine) (inner : Renderer) (view : Nat) (t : Tag) (key dict source : Option String)

/-- What a translation goes by: its key, and its own text in the language of the source. -/
def keyed : Render (String × Option String) := do
  let s ← get
  if source == s.language then
    let text ← content inner view t
    return (key.getD "", some text)
  else
    match key with
    | some key => return (key, none)
    | none =>
      let key ← content inner view t
      return (key, none)

/-- What becomes of a key with its own text, or else with what dictionaries have. -/
def settled (key : String) : Option String → Render String
  | some text => finish e inner view t key text
  | none => do translated e inner view t dict key ((← get).views.translate view key dict)

theorem trans_eq_keyed :
    trans e inner view t key dict source = (do
      let (key, own) ← keyed inner view t key source
      settled e inner view t dict key own) := by
  rw [trans_eq]
  unfold keyed transIn
  simp only [bind_assoc]
  refine bind_congr fun s => ?_
  split
  · simp only [bind_assoc, pure_bind, settled]
  · cases key <;> simp only [bind_assoc, pure_bind, settled]

variable (s : Session) (m : Memory)

/-- A translation goes by this key, and in the language of the source by this text; the session and
the memory are those behind its content, if that is rendered. -/
inductive Keyed : String → Option String → Session → Memory → Prop
  | own {text : String} {s₁ : Session} {m₁ : Memory} (hlanguage : source = s.language)
      (hcontent : content inner view t s m = (.ok (text, s₁), m₁)) :
      Keyed (key.getD "") (some text) s₁ m₁
  | given {k : String} (hlanguage : source ≠ s.language) (hkey : key = some k) : Keyed k none s m
  | content {k : String} {s₁ : Session} {m₁ : Memory} (hlanguage : source ≠ s.language)
      (hkey : key = none) (hcontent : content inner view t s m = (.ok (k, s₁), m₁)) :
      Keyed k none s₁ m₁

variable {e inner view t key dict source s m}

theorem keyed_apply :
    keyed inner view t key source s m = (if source = s.language then do
        let text ← content inner view t
        return (key.getD "", some text)
      else match key with
        | some key => return (key, none)
        | none => do
          let key ← content inner view t
          return (key, none) : Render (String × Option String)) s m := by
  simp only [keyed, bind_apply, get_apply, beq_iff_eq]

theorem keyed_eq_ok_iff {k : String} {own : Option String} {s₁ : Session} {m₁ : Memory} :
    keyed inner view t key source s m = (.ok ((k, own), s₁), m₁) ↔
      Keyed inner view t key source s m k own s₁ m₁ := by
  rw [keyed_apply]
  constructor
  · intro h
    split at h
    · rename_i hlanguage
      obtain ⟨text, _, _, hcontent, h⟩ := bind_eq_ok_iff.1 h
      cases h
      exact .own hlanguage hcontent
    · rename_i hlanguage
      cases key with
      | some key =>
        cases h
        exact .given hlanguage rfl
      | none =>
        obtain ⟨text, _, _, hcontent, h⟩ := bind_eq_ok_iff.1 h
        cases h
        exact .content hlanguage rfl hcontent
  · rintro (⟨hlanguage, hcontent⟩ | ⟨hlanguage, rfl⟩ | ⟨hlanguage, rfl, hcontent⟩)
    · rw [if_pos hlanguage]
      exact bind_eq_ok_iff.2 ⟨_, _, _, hcontent, rfl⟩
    · rw [if_neg hlanguage]
      rfl
    · rw [if_neg hlanguage]
      exact bind_eq_ok_iff.2 ⟨_, _, _, hcontent, rfl⟩

theorem keyed_eq_error_iff {stop : Stop} {n : Memory} :
    keyed inner view t key source s m = (.error stop, n) ↔
      (source = s.language ∨ key = none) ∧ content inner view t s m = (.error stop, n) := by
  rw [keyed_apply]
  split
  · rename_i hlanguage
    simp only [bind_pure_eq_error_iff, hlanguage, true_or, true_and]
  · rename_i hlanguage
    cases key with
    | some key =>
      simp only [hlanguage, reduceCtorEq, or_self, false_and, iff_false]
      exact nofun
    | none => simp only [bind_pure_eq_error_iff, or_true, true_and]

-- ---------------------------------------------------------------------------
-- Texts
-- ---------------------------------------------------------------------------

variable (view dict) in
/-- The text of a translation: its own, or else the first one under its key in the dictionaries that
are searched. -/
inductive HasText (views : Views) (k : String) : Option String → String → Prop
  | own (text : String) : HasText views k (some text) text
  | entry {text : String} (h : ((views.chain view).flatMap (View.searched dict)).findSome?
      (·.get? k) = some text) : HasText views k none text

theorem fillPlaceholders_eq_error_iff {text : String} {stop : Stop} {n : Memory} :
    fillPlaceholders e inner view t text s m = (.error stop, n) ↔
      (Piece.ofTranslation text).any Piece.isRun ∧
        (parameters e inner view t s m = (.error stop, n) ∨
          ∃ ps s₁ m₁, parameters e inner view t s m = (.ok (ps, s₁), m₁) ∧
            (Piece.ofTranslation text).foldlM (addPlaceholder e view t ps) [] s₁ m₁ =
              (.error stop, n)) := by
  simp only [fillPlaceholders]
  split
  · rename_i hruns
    simp only [bind_eq_error_iff (x := parameters e inner view t), bind_pure_eq_error_iff, hruns,
      true_and]
  · rename_i hruns
    simp only [hruns, Bool.false_eq_true, false_and, iff_false]
    exact nofun

theorem finish_eq_ok_iff {k text output : String} {s' : Session} {n : Memory} :
    finish e inner view t k text s m = (.ok (output, s'), n) ↔
      (fillPlaceholders e inner view t text s m = (.ok (output, s'), n) ∧ output ≠ "") ∨
      ∃ s₁, fillPlaceholders e inner view t text s m = (.ok ("", s₁), n) ∧ output = k ∧
        s' = s₁.warn (.emptyTranslation (s₁.location view t.line) k) := by
  unfold finish
  rw [bind_eq_ok_iff]
  constructor
  · rintro ⟨filled, s₁, m₁, hfilled, h⟩
    split at h
    · rename_i hempty
      cases beq_iff_eq.1 hempty
      cases h
      exact .inr ⟨s₁, hfilled, rfl, rfl⟩
    · rename_i hnonempty
      cases h
      exact .inl ⟨hfilled, fun heq => hnonempty (beq_iff_eq.2 heq)⟩
  · rintro (⟨hfilled, hnonempty⟩ | ⟨s₁, hfilled, rfl, rfl⟩)
    · refine ⟨output, s', n, hfilled, ?_⟩
      rw [if_neg (by simpa using hnonempty)]
      rfl
    · exact ⟨"", s₁, n, hfilled, rfl⟩

theorem finish_eq_error_iff {k text : String} {stop : Stop} {n : Memory} :
    finish e inner view t k text s m = (.error stop, n) ↔
      fillPlaceholders e inner view t text s m = (.error stop, n) := by
  unfold finish
  rw [bind_eq_error_iff]
  constructor
  · rintro (h | ⟨filled, s₁, m₁, -, h⟩)
    · exact h
    · split at h <;> cases h
  · exact .inl

theorem settled_none_apply (k : String) :
    settled e inner view t dict k none s m =
      translated e inner view t dict k (s.views.translate view k dict) s m := rfl

theorem settled_eq_ok_iff {k output : String} {own : Option String} {s' : Session} {n : Memory} :
    settled e inner view t dict k own s m = (.ok (output, s'), n) ↔
      (∃ text, HasText view dict s.views k own text ∧
        finish e inner view t k text s m = (.ok (output, s'), n)) ∨
      (own = none ∧ s.views.HasAsked view dict ∧
        (∀ v ∈ s.views.chain view, ∀ d ∈ v.searched dict, d.get? k = none) ∧
        output = k ∧ s' = s.warn (.missingEntry (s.location view t.line) k) ∧ n = m) := by
  constructor
  · intro h
    cases own with
    | some text => exact .inl ⟨text, .own text, h⟩
    | none =>
      rw [settled_none_apply] at h
      cases hfound : s.views.translate view k dict with
      | found text =>
        rw [hfound] at h
        exact .inl ⟨text, .entry (Views.translate_eq_found_iff.1 hfound), h⟩
      | missingEntry =>
        rw [hfound] at h
        cases h
        obtain ⟨hasked, hnone⟩ := Views.translate_eq_missingEntry_iff.1 hfound
        exact .inr ⟨rfl, hasked, hnone, rfl, rfl, rfl⟩
      | missingDictionary =>
        rw [hfound] at h
        cases h
  · rintro (⟨text, ⟨⟩ | ⟨hentry⟩, h⟩ | ⟨rfl, hasked, hnone, rfl, rfl, rfl⟩)
    · exact h
    · rw [settled_none_apply, Views.translate_eq_found_iff.2 hentry]
      exact h
    · rw [settled_none_apply, Views.translate_eq_missingEntry_iff.2 ⟨hasked, hnone⟩]
      rfl

theorem settled_eq_error_iff {k : String} {own : Option String} {stop : Stop} {n : Memory} :
    settled e inner view t dict k own s m = (.error stop, n) ↔
      (∃ text, HasText view dict s.views k own text ∧
        fillPlaceholders e inner view t text s m = (.error stop, n)) ∨
      (own = none ∧ ¬ s.views.HasAsked view dict ∧
        stop = .fault (.unknownDictionary (s.location view t.line) (dict.getD "")) ∧ n = m) := by
  constructor
  · intro h
    cases own with
    | some text => exact .inl ⟨text, .own text, finish_eq_error_iff.1 h⟩
    | none =>
      rw [settled_none_apply] at h
      cases hfound : s.views.translate view k dict with
      | found text =>
        rw [hfound] at h
        exact .inl ⟨text, .entry (Views.translate_eq_found_iff.1 hfound),
          finish_eq_error_iff.1 h⟩
      | missingEntry =>
        rw [hfound] at h
        cases h
      | missingDictionary =>
        rw [hfound] at h
        cases h
        exact .inr ⟨rfl, Views.not_hasAsked_iff.2 hfound, rfl, rfl⟩
  · rintro (⟨text, ⟨⟩ | ⟨hentry⟩, h⟩ | ⟨rfl, hasked, rfl, rfl⟩)
    · exact finish_eq_error_iff.2 h
    · rw [settled_none_apply, Views.translate_eq_found_iff.2 hentry]
      exact finish_eq_error_iff.2 h
    · rw [settled_none_apply, Views.not_hasAsked_iff.1 hasked]
      rfl

-- ---------------------------------------------------------------------------
-- Outcomes
-- ---------------------------------------------------------------------------

variable (e inner view t key dict source s m)

/-- A part of a translation stops it: its content where it is rendered, or, where the text has
placeholders, a parameter or the text for a placeholder. -/
inductive PartStops : Stop → Memory → Prop
  | content {stop : Stop} {n : Memory} (hneeded : source = s.language ∨ key = none)
      (h : content inner view t s m = (.error stop, n)) : PartStops stop n
  | parameters {k text : String} {own : Option String} {s₁ : Session} {m₁ n : Memory} {stop : Stop}
      (hkeyed : Keyed inner view t key source s m k own s₁ m₁)
      (htext : HasText view dict s₁.views k own text)
      (hplaceholders : (Piece.ofTranslation text).any Piece.isRun)
      (h : parameters e inner view t s₁ m₁ = (.error stop, n)) : PartStops stop n
  | placeholder {k text : String} {own : Option String} {s₁ s₂ : Session} {m₁ m₂ n : Memory}
      {stop : Stop} {ps : Table Value} (hkeyed : Keyed inner view t key source s m k own s₁ m₁)
      (htext : HasText view dict s₁.views k own text)
      (hplaceholders : (Piece.ofTranslation text).any Piece.isRun)
      (hparameters : parameters e inner view t s₁ m₁ = (.ok (ps, s₂), m₂))
      (h : (Piece.ofTranslation text).foldlM (addPlaceholder e view t ps) [] s₂ m₂ =
        (.error stop, n)) : PartStops stop n

/-- What comes of a translation at a location, with the session and the memory behind it. -/
inductive Translates (location : Location) : String → Session → Memory → Prop
  /-- The text with its placeholders filled, with nothing more. -/
  | filled {k text output : String} {own : Option String} {s₁ s' : Session} {m₁ n : Memory}
      (hkeyed : Keyed inner view t key source s m k own s₁ m₁)
      (htext : HasText view dict s₁.views k own text)
      (hfilled : fillPlaceholders e inner view t text s₁ m₁ = (.ok (output, s'), n))
      (houtput : output ≠ "") : Translates location output s' n
  /-- The key and a warning, where no dictionary that is searched has the key. -/
  | missingEntry {k : String} {s₁ : Session} {n : Memory}
      (hkeyed : Keyed inner view t key source s m k none s₁ n)
      (hasked : s₁.views.HasAsked view dict)
      (hmissing : ∀ w ∈ s₁.views.chain view, ∀ d ∈ w.searched dict, d.get? k = none) :
      Translates location k (s₁.warn (.missingEntry location k)) n
  /-- The key and a warning, where nothing is left of the text. -/
  | empty {k text : String} {own : Option String} {s₁ s₂ : Session} {m₁ n : Memory}
      (hkeyed : Keyed inner view t key source s m k own s₁ m₁)
      (htext : HasText view dict s₁.views k own text)
      (hfilled : fillPlaceholders e inner view t text s₁ m₁ = (.ok ("", s₂), n)) :
      Translates location k (s₂.warn (.emptyTranslation location k)) n

end

section

variable {e : Engine} {inner : Renderer} {view : Nat} {t : Tag} {key dict source : Option String}
  {s s₁ s' : Session} {m m₁ n : Memory} {v : View}

/-- A view keeps its path while a session grows. -/
theorem location_of_grows (h : s.Grows s') (hv : s.views[view]? = some v) (line : Nat) :
    s'.location view line = ⟨v.template.path, line⟩ := by
  have hshape : (s'.views.map View.shape)[view]? = some v.shape := by
    obtain ⟨rest, hrest⟩ := h.views
    have hbefore : (s.views.map View.shape)[view]? = some v.shape := by
      rw [List.getElem?_map, hv, Option.map_some]
    rw [← hrest, List.getElem?_append_left (List.getElem?_eq_some_iff.1 hbefore).1, hbefore]
  rw [List.getElem?_map, Option.map_eq_some_iff] at hshape
  obtain ⟨w, hw, hshape⟩ := hshape
  have hpath : w.template.path = v.template.path := congrArg (·.1.path) hshape
  simp only [Session.location, Views.path, hw, hpath]

theorem Keyed.grows (hinner : ∀ t view suppressed, Growing (inner t view suppressed)) {k : String}
    {own : Option String} (h : Keyed inner view t key source s m k own s₁ m₁) : s.Grows s₁ := by
  have hcontent := (growing_local .default).content hinner view t
  cases h with
  | own _ hrun => exact hcontent s hrun
  | given => exact .refl s
  | content _ _ hrun => exact hcontent s hrun

/-- The key, the own text and what is behind them are determined. -/
theorem Keyed.unique {k k' : String} {own own' : Option String} {s₂ : Session} {m₂ : Memory}
    (h : Keyed inner view t key source s m k own s₁ m₁)
    (h' : Keyed inner view t key source s m k' own' s₂ m₂) : k = k' := by
  have heq := (keyed_eq_ok_iff.2 h).symm.trans (keyed_eq_ok_iff.2 h')
  cases heq
  rfl

/-- Behind its key, a translation is what becomes of that key. -/
theorem Keyed.trans_eq_settled {k : String} {own : Option String}
    (h : Keyed inner view t key source s m k own s₁ m₁) :
    trans e inner view t key dict source s m = settled e inner view t dict k own s₁ m₁ := by
  rw [trans_eq_keyed, bind_apply, keyed_eq_ok_iff.2 h]

theorem trans_eq_error_iff (hinner : ∀ t view suppressed, Growing (inner t view suppressed))
    (hv : s.views[view]? = some v) {stop : Stop} :
    trans e inner view t key dict source s m = (.error stop, n) ↔
      PartStops e inner view t key dict source s m stop n ∨
      ∃ k s₁ name, Keyed inner view t key source s m k none s₁ n ∧ dict = some name ∧
        (∀ w ∈ s₁.views.chain view, name ∉ w.names) ∧
        stop = .fault (.unknownDictionary ⟨v.template.path, t.line⟩ name) := by
  constructor
  · intro h
    rw [trans_eq_keyed] at h
    rcases bind_eq_error_iff.1 h with h | ⟨⟨k, own⟩, s₁, m₁, hkeyed, h⟩
    · obtain ⟨hneeded, h⟩ := keyed_eq_error_iff.1 h
      exact .inl (.content hneeded h)
    · rw [keyed_eq_ok_iff] at hkeyed
      rcases settled_eq_error_iff.1 h with ⟨text, htext, h⟩ | ⟨rfl, hasked, rfl, rfl⟩
      · obtain ⟨hplaceholders, h | ⟨ps, s₂, m₂, hparameters, h⟩⟩ :=
          fillPlaceholders_eq_error_iff.1 h
        · exact .inl (.parameters hkeyed htext hplaceholders h)
        · exact .inl (.placeholder hkeyed htext hplaceholders hparameters h)
      · obtain ⟨name, rfl, hnames⟩ := Views.exists_of_not_hasAsked hasked
        refine .inr ⟨k, s₁, name, hkeyed, rfl, hnames, ?_⟩
        rw [location_of_grows (hkeyed.grows hinner) hv, Option.getD_some]
  · rintro ((⟨hneeded, h⟩ | ⟨hkeyed, htext, hplaceholders, h⟩ |
      ⟨hkeyed, htext, hplaceholders, hparameters, h⟩) | ⟨k, s₁, name, hkeyed, rfl, hnames, rfl⟩)
    · rw [trans_eq_keyed]
      exact bind_eq_error_iff.2 (.inl (keyed_eq_error_iff.2 ⟨hneeded, h⟩))
    · have hfilling := fillPlaceholders_eq_error_iff.2 ⟨hplaceholders, .inl h⟩
      rw [hkeyed.trans_eq_settled]
      exact settled_eq_error_iff.2 (.inl ⟨_, htext, hfilling⟩)
    · have hfilling := fillPlaceholders_eq_error_iff.2
        ⟨hplaceholders, .inr ⟨_, _, _, hparameters, h⟩⟩
      rw [hkeyed.trans_eq_settled]
      exact settled_eq_error_iff.2 (.inl ⟨_, htext, hfilling⟩)
    · have hasked : ¬ s₁.views.HasAsked view (some name) := by
        intro hasked
        obtain ⟨w, hw, hmem⟩ := hasked name rfl
        exact hnames w hw hmem
      rw [hkeyed.trans_eq_settled]
      refine settled_eq_error_iff.2 (.inr ⟨rfl, hasked, ?_, rfl⟩)
      rw [location_of_grows (hkeyed.grows hinner) hv, Option.getD_some]

theorem trans_eq_ok_iff (hinner : ∀ t view suppressed, Growing (inner t view suppressed))
    (hv : s.views[view]? = some v) {output : String} :
    trans e inner view t key dict source s m = (.ok (output, s'), n) ↔
      Translates e inner view t key dict source s m ⟨v.template.path, t.line⟩ output s' n := by
  have hfilling (text : String) := (growing_local e).fillPlaceholders hinner view t text
  constructor
  · intro h
    rw [trans_eq_keyed] at h
    obtain ⟨⟨k, own⟩, s₁, m₁, hkeyed, h⟩ := bind_eq_ok_iff.1 h
    rw [keyed_eq_ok_iff] at hkeyed
    have hgrows := hkeyed.grows hinner
    rcases settled_eq_ok_iff.1 h with
      ⟨text, htext, h⟩ | ⟨rfl, hasked, hmissing, rfl, rfl, rfl⟩
    · rcases finish_eq_ok_iff.1 h with ⟨hfilled, houtput⟩ | ⟨s₂, hfilled, rfl, rfl⟩
      · exact .filled hkeyed htext hfilled houtput
      · rw [location_of_grows (hgrows.trans (hfilling text s₁ hfilled)) hv]
        exact .empty hkeyed htext hfilled
    · rw [location_of_grows hgrows hv]
      exact .missingEntry hkeyed hasked hmissing
  · rintro (⟨hkeyed, htext, hfilled, houtput⟩ | ⟨hkeyed, hasked, hmissing⟩ |
      ⟨hkeyed, htext, hfilled⟩)
    · rw [hkeyed.trans_eq_settled, settled_eq_ok_iff]
      exact .inl ⟨_, htext, finish_eq_ok_iff.2 (.inl ⟨hfilled, houtput⟩)⟩
    · rw [← location_of_grows (hkeyed.grows hinner) hv, hkeyed.trans_eq_settled, settled_eq_ok_iff]
      exact .inr ⟨rfl, hasked, hmissing, rfl, rfl, rfl⟩
    · have hgrows := (hkeyed.grows hinner).trans (hfilling _ _ hfilled)
      rw [← location_of_grows hgrows hv, hkeyed.trans_eq_settled, settled_eq_ok_iff]
      exact .inl ⟨_, htext, finish_eq_ok_iff.2 (.inr ⟨_, hfilled, rfl, rfl⟩)⟩

/-- What a translation comes to by itself. It stops for a part of it, or for a dictionary: if it is
not in the language of the source and asks for a name that no view around has. All else comes to
one of three ends: the text with its placeholders filled, if something is left of it; the key with
a warning, if no dictionary that is searched has it; or the key with a warning, if nothing is left
of the text. So nothing comes of a translation only if its key is empty. -/
theorem translation_outcome (e : Engine) (depth : Nat) (m : Memory)
    (ht : t.kind = .trans key dict source) (hv : s.views[view]? = some v) :
    (∀ stop n, kind e (tag e depth) view t s m = (.error stop, n) ↔
      PartStops e (tag e depth) view t key dict source s m stop n ∨
      ∃ k s₁ name, source ≠ s.language ∧
        Keyed (tag e depth) view t key source s m k none s₁ n ∧ dict = some name ∧
        (∀ w ∈ s₁.views.chain view, name ∉ w.names) ∧
        stop = .fault (.unknownDictionary ⟨v.template.path, t.line⟩ name)) ∧
    (∀ output s' n, kind e (tag e depth) view t s m = (.ok (output, s'), n) ↔
      Translates e (tag e depth) view t key dict source s m ⟨v.template.path, t.line⟩ output s' n) ∧
    (∀ k own s₁ m₁ s' n, Keyed (tag e depth) view t key source s m k own s₁ m₁ →
      kind e (tag e depth) view t s m = (.ok ("", s'), n) → k = "") := by
  have hinner (t : Tag) (view : Nat) (suppressed : Suppressed) :
      Growing (tag e depth t view suppressed) := growing_tag e view depth t suppressed
  have hkind : kind e (tag e depth) view t = trans e (tag e depth) view t key dict source := by
    rw [kind, ht]
  have hlanguage {k : String} {s₁ : Session} {n : Memory}
      (h : Keyed (tag e depth) view t key source s m k none s₁ n) : source ≠ s.language := by
    cases h <;> assumption
  rw [hkind]
  refine ⟨fun stop n => ?_, fun output s' n => trans_eq_ok_iff hinner hv, ?_⟩
  · rw [trans_eq_error_iff hinner hv]
    refine or_congr_right (exists_congr fun k => exists₂_congr fun s₁ name => ?_)
    exact ⟨fun h => ⟨hlanguage h.1, h⟩, fun h => h.2⟩
  · intro k own s₁ m₁ s' n hkeyed h
    rw [trans_eq_ok_iff hinner hv] at h
    cases h with
    | filled _ _ _ hnonempty => exact absurd rfl hnonempty
    | missingEntry hkeyed' => exact hkeyed.unique hkeyed'
    | empty hkeyed' => exact hkeyed.unique hkeyed'

end

/-- A translation under a key. -/
def missedTag : Tag :=
  { (default : Tag) with name := "fig:trans", line := 1, kind := .trans (some "nope") none none }

/-- The view of a page without dictionaries. -/
def missedView : View := ⟨⟨"page.xml", "fig:", missedTag, []⟩, none, []⟩

/-- A render in a language that is about to translate. -/
def missedStart : Session :=
  (Session.start .null (some "fr")).addView missedView.template none

theorem translation_outcome_missed :
    missedTag.kind = .trans (some "nope") none none ∧
      missedStart.views[0]? = some missedView ∧
      kind .default (tag .default 0) 0 missedTag missedStart (.ofFiles ⟨[]⟩) =
        (.ok ("nope", missedStart.warn (.missingEntry ⟨"page.xml", 1⟩ "nope")), .ofFiles ⟨[]⟩) := by
  have hchain : missedStart.views.chain 0 = [missedView] := Views.chain_eq rfl
  have hkeyed : Keyed (tag .default 0) 0 missedTag (some "nope") none missedStart (.ofFiles ⟨[]⟩)
      "nope" none missedStart (.ofFiles ⟨[]⟩) := .given (by decide) rfl
  have hasked : missedStart.views.HasAsked 0 none := by
    intro name hname
    cases hname
  have hmissing : ∀ w ∈ missedStart.views.chain 0, ∀ d ∈ w.searched none, d.get? "nope" = none := by
    rw [hchain]
    simp [missedView, View.searched]
  have ht : missedTag.kind = .trans (some "nope") none none := rfl
  have hv : missedStart.views[0]? = some missedView := rfl
  obtain ⟨-, houtcome, -⟩ := translation_outcome .default 0 (.ofFiles ⟨[]⟩) ht hv
  exact ⟨ht, hv, (houtcome _ _ _).2 (.missingEntry hkeyed hasked hmissing)⟩

end Render

end XmlTemplate
