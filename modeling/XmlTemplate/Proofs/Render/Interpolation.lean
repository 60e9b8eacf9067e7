import XmlTemplate.Proofs.Outcome
import XmlTemplate.Proofs.Render.Step
import XmlTemplate.Proofs.Text.Entity
import XmlTemplate.Proofs.Text.Run

/-!
# Interpolation

The runs of an attribute value are replaced all at once: their expressions are evaluated from left
to right, and the escaped texts of their values take their places. Nothing that was put into the
value is looked at again.

A value that is put together from texts and runs is not always read that way. A run reaches to the
last closing brace in front of the next opening one, so that every run is found as it was put in
just if no closing brace stands between a run and the next one.
-/

namespace XmlTemplate

namespace Render

variable (e : Engine) (place : Place)

/-- The text of the value of the expression in an attribute, as it is written there. -/
def expressionText (raw : String) : Render String := do
  let v ← evaluateAttribute e place raw
  textOf place v

/-- The texts of the expressions in runs, one after the other. -/
def runTexts (runs : List Run) : Render (List String) :=
  runs.mapM fun r => expressionText e place (String.ofList r.inner)

/-- What is written in place of a run. -/
def escaped (text : String) : List Char := (Text.escapeHtml text).toList

theorem foldlM_literal (done : List (List Char)) (text : List Char) :
    ∃ parts, (Run.literal text).foldlM (addPiece e place) done = pure parts ∧
      parts.reverse.flatten = done.reverse.flatten ++ text := by
  cases text with
  | nil => exact ⟨done, rfl, by simp⟩
  | cons c text => exact ⟨(c :: text) :: done, by simp [Run.literal, addPiece], by simp⟩

/-- The pieces of a value are put together behind those that are there. -/
theorem foldlM_pieces (done : List (List Char)) (runs : List Run) (last : List Char) :
    (do
      let parts ← (Run.pieces runs last).foldlM (addPiece e place) done
      return parts.reverse.flatten) = (do
      let texts ← runTexts e place runs
      return done.reverse.flatten ++ Run.fill runs (texts.map escaped) last) := by
  induction runs generalizing done with
  | nil =>
    obtain ⟨parts, hparts, hflatten⟩ := foldlM_literal e place done last
    simp [Run.pieces, hparts, hflatten, runTexts, Run.fill]
  | cons r runs ih =>
    obtain ⟨parts, hparts, hflatten⟩ := foldlM_literal e place done r.before
    have hrun : addPiece e place parts (.run r.inner) = (do
        let text ← expressionText e place (String.ofList r.inner)
        return escaped text :: parts) := by
      simp only [addPiece, expressionText, escaped, bind_assoc]
    simp only [Run.pieces, List.foldlM_append, hparts, pure_bind, List.foldlM_cons, hrun,
      bind_assoc, ih, runTexts, List.mapM_cons]
    simp [hflatten]

variable {e place}

/-- The value of an attribute with its runs replaced. -/
theorem interpolate_eq {raw : String} {runs : List Run} {last : List Char}
    (h : Run.Finds '\x7b' raw.toList runs last) :
    interpolate e place raw = (do
      let texts ← runTexts e place runs
      return String.ofList (Run.fill runs (texts.map escaped) last)) := by
  obtain ⟨runs', last', hfinds, hpieces⟩ := Run.exists_finds Run.takes_attributeRun? raw.toList
  obtain ⟨rfl, rfl⟩ := hfinds.unique h
  have hparts := foldlM_pieces e place [] runs last
  calc interpolate e place raw
      = String.ofList <$> (do
          let parts ← (Run.pieces runs last).foldlM (addPiece e place) []
          return parts.reverse.flatten) := by
        rw [interpolate, Piece.ofAttribute, hpieces]
        simp
    _ = _ := by
        rw [hparts]
        simp

/-- Characters that end a tag or a value come only from the value itself. -/
theorem notMem_fill_escaped {raw : List Char} {runs : List Run} {last : List Char}
    (h : Run.Finds '\x7b' raw runs last) (texts : List String) {c : Char}
    (hc : c ∈ ['<', '>', '"', '\'']) (hraw : c ∉ raw) :
    c ∉ Run.fill runs (texts.map escaped) last := by
  intro hmem
  rcases Run.mem_fill hmem with hjoin | ⟨part, hpart, hmem⟩
  · exact hraw (h.eq_join ▸ hjoin)
  · obtain ⟨text, -, rfl⟩ := List.mem_map.1 hpart
    exact Text.notMem_escapeHtml hc text hmem

/-- Interpolation is one substitution. The runs of a value are the first ones in it that do not
overlap, each as long as can be. Their expressions are evaluated once each, from left to right, up
to the first that fails; then the escaped text of each value takes the place of its run. The same
comes of replacing the runs from the last one to the first at the bytes where they stand in the
value, and it holds no character that ends a tag or an attribute if the value has none. -/
theorem interpolate_substitutes (e : Engine) (place : Place) (raw : String) :
    ∃ runs last, Run.Finds '\x7b' raw.toList runs last ∧
      (∀ runs' last', Run.Finds '\x7b' raw.toList runs' last' → runs' = runs ∧ last' = last) ∧
      interpolate e place raw = (do
        let texts ← runs.mapM fun r => expressionText e place (String.ofList r.inner)
        return String.ofList (Run.fill runs (texts.map escaped) last)) ∧
      ∀ texts : List String, texts.length = runs.length →
        Run.replaceFromEnd? raw.toList ((Run.ranges 0 runs).zip (texts.map escaped)) =
          some (Run.fill runs (texts.map escaped) last) ∧
        ∀ c ∈ ['"', '<', '>'], c ∉ raw.toList →
          c ∉ Run.fill runs (texts.map escaped) last := by
  obtain ⟨runs, last, hfinds, -⟩ := Run.exists_finds Run.takes_attributeRun? raw.toList
  refine ⟨runs, last, hfinds, fun _ _ => hfinds.unique, interpolate_eq hfinds,
    fun texts hlength => ?_⟩
  refine ⟨hfinds.replaceFromEnd?_eq (by rwa [List.length_map]), fun c hc hraw => ?_⟩
  have hends : ['"', '<', '>'] ⊆ ['<', '>', '"', '\''] := by simp
  exact notMem_fill_escaped hfinds texts (hends hc) hraw

/-- Braces that come from data are text. -/
example : ((interpolate .default ⟨0, 1⟩ "\x7b/t\x7d"
    (Session.start (.object [("t", .string "\x7b/u\x7d")]) none) (.ofFiles ⟨[]⟩)).1.toOption.map
      Prod.fst) = some "\x7b/u\x7d" := by
  decide +kernel

/-- In a value that is put together from runs and from texts without opening braces, each run goes
on to the last closing brace in front of the next one, and what is evaluated is the widened run.
Just if no text behind a run holds a closing brace, these are the runs that were put in: then the
texts stay as they are, and the escaped text of its own value takes the place of each run. -/
theorem interpolate_join (e : Engine) (place : Place) {runs : List Run} {last : List Char}
    (hplain : Run.ArePlain runs last) :
    interpolate e place (String.ofList (Run.join runs last)) = (do
      let (found, rest) := Run.widened runs last
      let texts ← found.mapM fun r => expressionText e place (String.ofList r.inner)
      return String.ofList (Run.fill found (texts.map escaped) rest)) ∧
    (Run.widened runs last = (runs, last) ↔
      ∀ between ∈ (Run.betweens runs last).tail, '\x7d' ∉ between) := by
  refine ⟨?_, Run.widened_eq_iff runs last⟩
  have hfinds := Run.finds_widened hplain
  rw [← String.toList_ofList (l := Run.join runs last)] at hfinds
  exact interpolate_eq hfinds

/-- The runs of a value with a closing brace in front of the first one. -/
def linkRuns : List Run :=
  [⟨['a', '\x7d', ' '], ['/', 'i', 'd']⟩, ⟨['-'], ['/', 't']⟩]

/-- The start of a render on the data that the runs ask for. -/
def linkSession : Session :=
  .start (.object [("id", .int 3), ("t", .string "a<b")]) none

theorem interpolate_join_link :
    Run.ArePlain linkRuns ['!'] ∧
      (∀ between ∈ (Run.betweens linkRuns ['!']).tail, '\x7d' ∉ between) ∧
      ∃ s m, interpolate .default ⟨0, 1⟩ (String.ofList (Run.join linkRuns ['!']))
        linkSession (.ofFiles ⟨[]⟩) = (.ok ("a\x7d 3-a&lt;b!", s), m) := by
  have hplain : Run.ArePlain linkRuns ['!'] := by
    unfold Run.ArePlain
    decide
  have hclosing : ∀ between ∈ (Run.betweens linkRuns ['!']).tail, '\x7d' ∉ between := by decide
  have htest : (interpolate .default ⟨0, 1⟩ (String.ofList (Run.join linkRuns ['!']))
      linkSession (.ofFiles ⟨[]⟩)).1.toOption.any fun result => result.1 == "a\x7d 3-a&lt;b!" := by
    obtain ⟨hrender, hwidened⟩ := interpolate_join .default ⟨0, 1⟩ hplain
    rw [hrender, hwidened.2 hclosing]
    decide +kernel
  obtain ⟨⟨text, s⟩, hresult, htext⟩ := Outcome.exists_of_any htest
  cases eq_of_beq htext
  exact ⟨hplain, hclosing, s, _, Prod.ext hresult rfl⟩

end Render

end XmlTemplate
