import XmlTemplate.Proofs.Expr.Byte
import XmlTemplate.Proofs.Files.Segment
import XmlTemplate.Render.Run

/-!
# Runs of a text

Which runs a text holds, stated apart from the search for them: of all places where a run can start
the first one counts, of all runs that start there the longest one, and the next run is looked for
behind it. There is one such list of runs for each text, and cutting a text into pieces finds it.

A value that is put together from runs need not be cut into the same ones. A run of an attribute
goes on to the last closing brace in front of the next opening one, and so takes in what was put
behind it.

Runs can be replaced in the text itself, at the bytes where they stand, if the last one is replaced
first. This comes to the same as putting the new texts between what is left of the text.
-/

namespace XmlTemplate

/-- A run that was found in a text. -/
structure Run where
  /-- The text between the run before and this one. -/
  before : List Char
  /-- The text between the braces. -/
  inner : List Char
  deriving Repr, DecidableEq

namespace Run

/-- The run as it is written. -/
def written (r : Run) : List Char := '\x7b' :: r.inner ++ ['\x7d']

/-- A run can start the text, with this text in its braces and this one behind it. What is in the
braces is not empty and does not hold the barred character. -/
def Starts (barred : Char) (text inner rest : List Char) : Prop :=
  text = '\x7b' :: (inner ++ '\x7d' :: rest) ∧ inner ≠ [] ∧ barred ∉ inner

/-- The runs of a text, and the text behind the last one. -/
inductive Finds (barred : Char) : List Char → List Run → List Char → Prop
  | last {text : List Char}
      (hnone : ∀ before tail inner rest, text = before ++ tail → ¬Starts barred tail inner rest) :
      Finds barred text [] text
  | run {text before tail inner rest last : List Char} {runs : List Run}
      (htext : text = before ++ tail) (hstarts : Starts barred tail inner rest)
      (hfirst : ∀ b t i r, text = b ++ t → Starts barred t i r → before.length ≤ b.length)
      (hlongest : ∀ i r, Starts barred tail i r → i.length ≤ inner.length)
      (hrest : Finds barred rest runs last) :
      Finds barred text (⟨before, inner⟩ :: runs) last

variable {barred : Char} {text inner rest last : List Char} {runs : List Run}

/-! ## Texts with one run after the other -/

/-- The text that is made of runs and what stands between them. -/
def join (runs : List Run) (last : List Char) : List Char :=
  runs.flatMap (fun r => r.before ++ r.written) ++ last

/-- The text with other texts in place of the runs. -/
def fill (runs : List Run) (texts : List (List Char)) (last : List Char) : List Char :=
  (List.zipWith (fun r text => r.before ++ text) runs texts).flatten ++ last

@[simp] theorem join_cons (r : Run) (runs : List Run) (last : List Char) :
    join (r :: runs) last = r.before ++ r.written ++ join runs last := by
  simp [join]

@[simp] theorem fill_cons (r : Run) (runs : List Run) (new : List Char) (texts : List (List Char))
    (last : List Char) : fill (r :: runs) (new :: texts) last =
      r.before ++ new ++ fill runs texts last := by
  simp [fill]

/-- What is in the new text was there before, or is in one of the texts that were put in. -/
theorem mem_fill {texts : List (List Char)} {c : Char} (h : c ∈ fill runs texts last) :
    c ∈ join runs last ∨ ∃ text ∈ texts, c ∈ text := by
  induction runs generalizing texts with
  | nil => exact .inl h
  | cons r runs ih =>
    cases texts with
    | nil => exact .inl (List.mem_append_right _ h)
    | cons text texts =>
      simp only [fill_cons, List.mem_append] at h
      rcases h with (hbefore | hnew) | hrest
      · exact .inl (by simp [hbefore])
      · exact .inr ⟨text, List.mem_cons_self .., hnew⟩
      · refine (ih hrest).imp (fun hjoin => by simp [hjoin]) ?_
        exact fun ⟨other, hother, hc⟩ => ⟨other, List.mem_cons_of_mem _ hother, hc⟩

/-- A text is made of its runs and what stands between them. -/
theorem Finds.eq_join (h : Finds barred text runs last) : text = join runs last := by
  induction h with
  | last => rfl
  | run htext hstarts hfirst hlongest hrest ih =>
    rw [join_cons, ← ih, htext, hstarts.1]
    simp [written]

/-- A text has the same runs however they are found. -/
theorem Finds.unique {runs' : List Run} {last' : List Char} (h : Finds barred text runs last)
    (h' : Finds barred text runs' last') : runs' = runs ∧ last' = last := by
  induction h generalizing runs' last' with
  | last hnone =>
    cases h' with
    | last => exact ⟨rfl, rfl⟩
    | run htext hstarts => exact absurd hstarts (hnone _ _ _ _ htext)
  | @run text before tail inner rest last runs htext hstarts hfirst hlongest hrest ih =>
    cases h' with
    | last hnone => exact absurd hstarts (hnone _ _ _ _ htext)
    | @run _ before' tail' inner' rest' _ runs' htext' hstarts' hfirst' hlongest' hrest' =>
      -- each of the two is the first one and the longest one for the other
      have hlength := Nat.le_antisymm (hfirst _ _ _ _ htext' hstarts')
        (hfirst' _ _ _ _ htext hstarts)
      obtain ⟨rfl, rfl⟩ := List.append_inj (htext.symm.trans htext') hlength
      have hinner := Nat.le_antisymm (hlongest' _ _ hstarts) (hlongest _ _ hstarts')
      have hparts := (List.cons.inj (hstarts.1.symm.trans hstarts'.1)).2
      obtain ⟨rfl, hbehind⟩ := List.append_inj hparts hinner
      cases hbehind
      obtain ⟨rfl, rfl⟩ := ih hrest'
      exact ⟨rfl, rfl⟩

/-- What stands in front of the first run of a text starts none. -/
theorem Finds.cons {c : Char} (hc : ∀ inner rest, ¬Starts barred (c :: text) inner rest)
    (h : Finds barred text runs last) : (runs = [] ∧ Finds barred (c :: text) [] (c :: last)) ∨
      ∃ r others, runs = r :: others ∧
        Finds barred (c :: text) (⟨c :: r.before, r.inner⟩ :: others) last := by
  cases h with
  | last hnone =>
    refine .inl ⟨rfl, .last fun before tail inner rest htext => ?_⟩
    cases before with
    | nil =>
      cases htext
      exact hc inner rest
    | cons d before => exact hnone before tail inner rest (List.cons.inj htext).2
  | @run _ before tail inner rest _ others htext hstarts hfirst hlongest hrest =>
    refine .inr ⟨_, _, rfl, .run (congrArg (c :: ·) htext) hstarts ?_ hlongest hrest⟩
    intro b t i r heq hother
    cases b with
    | nil =>
      cases heq
      exact absurd hother (hc i r)
    | cons d b => exact Nat.succ_le_succ (hfirst b t i r (List.cons.inj heq).2 hother)

theorem Finds.of_starts (hstarts : Starts barred text inner rest)
    (hlongest : ∀ i r, Starts barred text i r → i.length ≤ inner.length)
    (h : Finds barred rest runs last) : Finds barred text (⟨[], inner⟩ :: runs) last :=
  .run rfl hstarts (fun _ _ _ _ _ _ => Nat.zero_le _) hlongest h

/-! ## The search -/

/-- A piece of text, unless it is empty. -/
def literal : List Char → List Piece
  | [] => []
  | c :: text => [.literal (c :: text)]

/-- The pieces of a text with these runs. -/
def pieces : List Run → List Char → List Piece
  | [], last => literal last
  | r :: runs, last => literal r.before ++ .run r.inner :: pieces runs last

theorem cons_literal (c : Char) (text : List Char) :
    Piece.cons c (literal text) = literal (c :: text) := by
  cases text <;> rfl

theorem cons_literal_run (c : Char) (text inner : List Char) (rest : List Piece) :
    Piece.cons c (literal text ++ .run inner :: rest) =
      literal (c :: text) ++ .run inner :: rest := by
  cases text <;> rfl

/-- The search behind an opening brace finds the longest run that starts there, if one does. -/
structure Takes (barred : Char) (cut : Piece.Cut) : Prop where
  starts : ∀ {text inner rest}, cut text = some (inner, rest) →
    Starts barred ('\x7b' :: text) inner rest
  longest : ∀ {text inner rest}, cut text = some (inner, rest) →
    ∀ i r, Starts barred ('\x7b' :: text) i r → i.length ≤ inner.length
  none : ∀ {text}, cut text = none → ∀ i r, ¬Starts barred ('\x7b' :: text) i r

/-- Cutting a text into pieces finds its runs. -/
theorem exists_finds {cut : Piece.Cut} (hcut : Takes barred cut) (text : List Char) :
    ∃ runs last, Finds barred text runs last ∧ Piece.ofText cut text = pieces runs last := by
  have hskip {c : Char} {text : List Char}
      (hc : ∀ inner rest, ¬Starts barred (c :: text) inner rest)
      (ih : ∃ runs last, Finds barred text runs last ∧ Piece.ofText cut text = pieces runs last) :
      ∃ runs last, Finds barred (c :: text) runs last ∧
        Piece.cons c (Piece.ofText cut text) = pieces runs last := by
    obtain ⟨runs, last, hfinds, hpieces⟩ := ih
    rw [hpieces]
    obtain ⟨rfl, hmore⟩ | ⟨r, others, rfl, hmore⟩ := hfinds.cons hc
    · exact ⟨_, _, hmore, cons_literal c last⟩
    · exact ⟨_, _, hmore, cons_literal_run c _ _ _⟩
  fun_induction Piece.ofText cut text with
  | case1 =>
    refine ⟨[], [], .last fun before tail inner rest htext hstarts => ?_, rfl⟩
    obtain ⟨rfl, rfl⟩ := List.append_eq_nil_iff.1 htext.symm
    cases hstarts.1
  | case2 text inner rest hfound hlength ih =>
    obtain ⟨runs, last, hfinds, hpieces⟩ := ih
    refine ⟨_, _, .of_starts (hcut.starts hfound) (hcut.longest hfound) hfinds, ?_⟩
    rw [hpieces]
    rfl
  | case3 text inner rest hfound hlength =>
    have hshape := congrArg List.length (hcut.starts hfound).1
    simp only [List.length_cons, List.length_append] at hshape
    omega
  | case4 text hnone ih => exact hskip (hcut.none hnone) ih
  | case5 c text hc ih => exact hskip (fun inner rest h => hc (List.cons.inj h.1).1) ih

/-! ## Attribute values -/

/-- What a run has in its braces in the end, and what is left of the text behind it, in which no
brace opens: it goes on to the last closing brace there. -/
def reach (inner between : List Char) : List Char × List Char :=
  match Text.cutAtLast? (· == '\x7d') between with
  | some (front, rest) => (inner ++ '\x7d' :: front, rest)
  | none => (inner, between)

theorem cutAtLast?_append (inner between : List Char) :
    Text.cutAtLast? (· == '\x7d') (inner ++ '\x7d' :: between) = some (reach inner between) := by
  induction inner with
  | nil =>
    rw [List.nil_append, Text.cutAtLast?, reach]
    cases Text.cutAtLast? (· == '\x7d') between <;> rfl
  | cons c inner ih =>
    rw [List.cons_append, Text.cutAtLast?, ih, reach, reach]
    cases Text.cutAtLast? (· == '\x7d') between <;> rfl

theorem prefix_reach (inner between : List Char) : inner <+: (reach inner between).1 := by
  unfold reach
  split
  · exact List.prefix_append _ _
  · exact List.prefix_rfl

/-- A run goes on behind its brace just if there is another closing brace. -/
theorem reach_eq_iff (inner between : List Char) :
    reach inner between = (inner, between) ↔ '\x7d' ∉ between := by
  unfold reach
  split
  · rename_i front rest hcut
    obtain ⟨c, hc, rfl, -⟩ := Text.of_cutAtLast? hcut
    cases eq_of_beq hc
    simp
  · rename_i hcut
    refine iff_of_true rfl fun hmem => ?_
    have := Text.of_cutAtLast?_eq_none hcut _ hmem
    cases this

theorem suffix_reach (inner between : List Char) : (reach inner between).2 <:+ between := by
  unfold reach
  split
  · rename_i hcut
    obtain ⟨c, -, rfl, -⟩ := Text.of_cutAtLast? hcut
    exact (List.suffix_cons _ _).trans (List.suffix_append _ _)
  · exact List.suffix_rfl

/-- A run of an attribute ends in front of the next opening brace. -/
theorem starts_attribute_iff {inside behind i r : List Char} (hinside : '\x7b' ∉ inside)
    (hbehind : ∀ c ∈ behind.head?, c = '\x7b') :
    Starts '\x7b' ('\x7b' :: (inside ++ behind)) i r ↔
      i ≠ [] ∧ ∃ rest, inside = i ++ '\x7d' :: rest ∧ r = rest ++ behind := by
  constructor
  · rintro ⟨htext, hne, hbarred⟩
    refine ⟨hne, ?_⟩
    have hparts : (i ++ ['\x7d']) ++ r = inside ++ behind := by
      rw [List.append_assoc]
      exact (List.cons.inj htext).2.symm
    rcases List.append_eq_append_iff.1 hparts with ⟨rest, hrest, hr⟩ | ⟨more, hmore, hr⟩
    · exact ⟨rest, by simp [hrest], hr⟩
    · cases more with
      | nil => exact ⟨[], by simpa using hmore.symm, hr.symm⟩
      | cons c more =>
        -- what follows the inside is an opening brace, of which there is none in the run
        have hc : c = '\x7b' := hbehind c (by simp [hr])
        have hmem : '\x7b' ∈ i ++ ['\x7d'] := by
          rw [hmore, hc]
          simp
        simp [hbarred] at hmem
  · rintro ⟨hne, rest, rfl, rfl⟩
    exact ⟨by simp, hne, fun hmem => hinside (by simp [hmem])⟩

theorem attributeRun?_append {inside behind : List Char} (hinside : '\x7b' ∉ inside)
    (hbehind : ∀ c ∈ behind.head?, c = '\x7b') :
    Piece.attributeRun? (inside ++ behind) =
      match Text.cutAtLast? (· == '\x7d') inside with
      | some (c :: inner, rest) => some (c :: inner, rest ++ behind)
      | _ => none := by
  have hall : ∀ c ∈ inside, (c != '\x7b') = true := by
    intro c hc
    rw [bne_iff_ne]
    rintro rfl
    exact hinside hc
  have htake : (inside ++ behind).takeWhile (· != '\x7b') = inside := by
    rw [List.takeWhile_append_of_pos hall]
    cases behind with
    | nil => simp
    | cons c behind => simp [hbehind c rfl]
  have hdrop : (inside ++ behind).dropWhile (· != '\x7b') = behind := by
    rw [List.dropWhile_append_of_pos hall]
    cases behind with
    | nil => rfl
    | cons c behind => simp [hbehind c rfl]
  change (match Text.cutAtLast? (· == '\x7d') ((inside ++ behind).takeWhile (· != '\x7b')) with
      | some (c :: inner, rest) =>
        some (c :: inner, rest ++ (inside ++ behind).dropWhile (· != '\x7b'))
      | _ => none) = _
  rw [htake, hdrop]

/-- The search behind the brace of a run that was put in. -/
theorem attributeRun?_written {inner between behind : List Char} (hne : inner ≠ [])
    (hinner : '\x7b' ∉ inner) (hbetween : '\x7b' ∉ between)
    (hbehind : ∀ c ∈ behind.head?, c = '\x7b') :
    Piece.attributeRun? (inner ++ '\x7d' :: (between ++ behind)) =
      some ((reach inner between).1, (reach inner between).2 ++ behind) := by
  have hinside : '\x7b' ∉ inner ++ '\x7d' :: between := by simp [hinner, hbetween]
  have hcut := attributeRun?_append hinside hbehind
  rw [List.append_assoc, List.cons_append, cutAtLast?_append] at hcut
  rw [hcut]
  have hprefix := prefix_reach inner between
  generalize reach inner between = found at hprefix
  obtain ⟨_ | ⟨c, found⟩, after⟩ := found
  · exact absurd (List.prefix_nil.1 hprefix) hne
  · rfl

/-- A text is split in front of its first opening brace. -/
theorem exists_inside (text : List Char) : ∃ inside behind, text = inside ++ behind ∧
    '\x7b' ∉ inside ∧ ∀ c ∈ behind.head?, c = '\x7b' := by
  refine ⟨text.takeWhile (· != '\x7b'), text.dropWhile (· != '\x7b'),
    List.takeWhile_append_dropWhile.symm, fun hmem => ?_, fun c hc => ?_⟩
  · have := List.mem_takeWhile_imp hmem
    cases this
  · have := List.head?_dropWhile_not (· != '\x7b') text
    rw [hc] at this
    simpa using this

/-- If a run of an attribute starts, the search finds one that goes at least as far. -/
theorem exists_attributeRun? {i r : List Char} (h : Starts '\x7b' ('\x7b' :: text) i r) :
    ∃ inner rest, Piece.attributeRun? text = some (inner, rest) ∧ i <+: inner := by
  obtain ⟨inside, behind, rfl, hinside, hbehind⟩ := exists_inside text
  obtain ⟨hne, between, rfl, -⟩ := (starts_attribute_iff hinside hbehind).1 h
  simp only [List.mem_append, List.mem_cons, not_or] at hinside
  have hfound := attributeRun?_written hne hinside.1 hinside.2.2 hbehind
  rw [List.append_assoc, List.cons_append]
  exact ⟨_, _, hfound, prefix_reach i between⟩

/-- The search for a run of an attribute finds the longest one. -/
theorem takes_attributeRun? : Takes '\x7b' Piece.attributeRun? where
  starts {text inner rest} hcut := by
    obtain ⟨inside, behind, rfl, hinside, hbehind⟩ := exists_inside text
    rw [attributeRun?_append hinside hbehind] at hcut
    split at hcut
    · rename_i hlast
      cases hcut
      obtain ⟨c, hc, hparts, -⟩ := Text.of_cutAtLast? hlast
      cases eq_of_beq hc
      exact (starts_attribute_iff hinside hbehind).2 ⟨List.cons_ne_nil _ _, _, hparts, rfl⟩
    · cases hcut
  longest hcut i r hstarts := by
    obtain ⟨inner, rest, hfound, hprefix⟩ := exists_attributeRun? hstarts
    cases hcut.symm.trans hfound
    exact hprefix.length_le
  none hnone i r hstarts := by
    obtain ⟨inner, rest, hfound, -⟩ := exists_attributeRun? hstarts
    cases hnone.symm.trans hfound

/-! ## Values that are put together -/

/-- A value is put together from these runs and from texts, none of which holds an opening brace. -/
def ArePlain (runs : List Run) (last : List Char) : Prop :=
  (∀ r ∈ runs, '\x7b' ∉ r.before ∧ r.inner ≠ [] ∧ '\x7b' ∉ r.inner) ∧ '\x7b' ∉ last

/-- The texts between runs, with the ones in front of the first run and behind the last. -/
def betweens (runs : List Run) (last : List Char) : List (List Char) :=
  runs.map Run.before ++ [last]

/-- The text in front of the first run. -/
def lead : List Run × List Char → List Char
  | ([], last) => last
  | (r :: _, _) => r.before

/-- The same runs with another text in front of them. -/
def withLead (text : List Char) : List Run × List Char → List Run × List Char
  | ([], _) => ([], text)
  | (r :: runs, last) => (⟨text, r.inner⟩ :: runs, last)

/-- The runs that are found in a value that is put together: each one goes on to the last closing
brace in front of the next one. -/
def widened : List Run → List Char → List Run × List Char
  | [], last => ([], last)
  | r :: runs, last =>
    let others := widened runs last
    let (inner, rest) := reach r.inner (lead others)
    (⟨r.before, inner⟩ :: (withLead rest others).1, (withLead rest others).2)

@[simp] theorem lead_withLead (text : List Char) (found : List Run × List Char) :
    lead (withLead text found) = text := by
  obtain ⟨_ | ⟨r, runs⟩, last⟩ := found <;> rfl

@[simp] theorem withLead_lead (found : List Run × List Char) :
    withLead (lead found) found = found := by
  obtain ⟨_ | ⟨r, runs⟩, last⟩ := found <;> rfl

@[simp] theorem lead_widened (runs : List Run) (last : List Char) :
    lead (widened runs last) = lead (runs, last) := by
  cases runs <;> rfl

theorem widened_cons (r : Run) (runs : List Run) (last : List Char) :
    widened (r :: runs) last =
      let (inner, rest) := reach r.inner (lead (runs, last))
      let (others, last) := withLead rest (widened runs last)
      (⟨r.before, inner⟩ :: others, last) := by
  rw [widened, lead_widened]

theorem betweens_eq (runs : List Run) (last : List Char) :
    betweens runs last = lead (runs, last) :: (betweens runs last).tail := by
  cases runs <;> rfl

/-- The runs are found as they were put together just if no text behind a run holds a closing
brace. -/
theorem widened_eq_iff (runs : List Run) (last : List Char) :
    widened runs last = (runs, last) ↔ ∀ between ∈ (betweens runs last).tail, '\x7d' ∉ between := by
  induction runs with
  | nil => exact iff_of_true rfl nofun
  | cons r runs ih =>
    have htail : (betweens (r :: runs) last).tail =
        lead (runs, last) :: (betweens runs last).tail := betweens_eq runs last
    rw [htail, List.forall_mem_cons, ← ih, ← reach_eq_iff r.inner, widened_cons]
    constructor
    · intro h
      obtain ⟨hruns, hlast⟩ := Prod.mk.inj h
      obtain ⟨hr, hothers⟩ := List.cons.inj hruns
      have hfound : withLead (reach r.inner (lead (runs, last))).2 (widened runs last) =
          (runs, last) := Prod.ext hothers hlast
      have hrest : (reach r.inner (lead (runs, last))).2 = lead (runs, last) := by
        have := congrArg lead hfound
        rwa [lead_withLead] at this
      refine ⟨Prod.ext (congrArg Run.inner hr) hrest, ?_⟩
      rwa [hrest, ← lead_widened, withLead_lead] at hfound
    · rintro ⟨hreach, hothers⟩
      rw [hreach, hothers]
      simp

/-- What stands in front of a run can be cut off. -/
theorem Finds.withLead {front rest : List Char} (h : Finds barred (front ++ text) runs last)
    (hlead : lead (runs, last) = front ++ rest) :
    Finds barred text (withLead rest (runs, last)).1 (withLead rest (runs, last)).2 := by
  cases h with
  | last hnone =>
    cases List.append_cancel_left hlead
    refine .last fun before tail inner r htext => ?_
    exact hnone (front ++ before) tail inner r (by rw [htext, List.append_assoc])
  | @run _ before tail inner behind last runs htext hstarts hfirst hlongest hrest =>
    obtain rfl : before = front ++ rest := hlead
    rw [List.append_assoc] at htext
    refine .run (List.append_cancel_left htext) hstarts (fun b t i r heq hother => ?_) hlongest
      hrest
    have hle := hfirst (front ++ b) t i r (by rw [heq, List.append_assoc]) hother
    simpa using hle

/-- A text is split in front of its first run. -/
theorem exists_behind (runs : List Run) (last : List Char) : ∃ behind,
    join runs last = lead (runs, last) ++ behind ∧ ∀ c ∈ behind.head?, c = '\x7b' := by
  cases runs with
  | nil => exact ⟨[], by simp [join, lead], nofun⟩
  | cons r runs => exact ⟨r.written ++ join runs last, by simp [lead], by simp [written]⟩

theorem ArePlain.lead (h : ArePlain runs last) : '\x7b' ∉ lead (runs, last) := by
  cases runs with
  | nil => exact h.2
  | cons r runs => exact (h.1 r (List.mem_cons_self ..)).1

/-- No run starts within a text without opening braces. -/
theorem length_le_of_starts {before b t i r : List Char} (hbefore : '\x7b' ∉ before)
    (htext : before ++ text = b ++ t) (hstarts : Starts barred t i r) :
    before.length ≤ b.length := by
  rcases List.append_eq_append_iff.1 htext with ⟨more, rfl, -⟩ | ⟨more, rfl, ht⟩
  · simp
  · cases more with
    | nil => simp
    | cons c more =>
      rw [hstarts.1] at ht
      have hc := (List.cons.inj ht).1
      simp [← hc] at hbefore

/-- A value that is put together holds the widened runs. -/
theorem finds_widened (hplain : ArePlain runs last) :
    Finds '\x7b' (join runs last) (widened runs last).1 (widened runs last).2 := by
  induction runs with
  | nil =>
    refine .last fun before tail inner rest htext hstarts => hplain.2 ?_
    rw [show last = before ++ tail by simpa [join] using htext, hstarts.1]
    simp
  | cons r runs ih =>
    obtain ⟨before, inner⟩ := r
    obtain ⟨⟨hbefore, hne, hinner⟩, hruns⟩ := List.forall_mem_cons.1 hplain.1
    simp only at hbefore hne hinner
    have hothers : ArePlain runs last := ⟨hruns, hplain.2⟩
    obtain ⟨behind, hjoin, hbehind⟩ := exists_behind runs last
    have hcut := attributeRun?_written hne hinner hothers.lead hbehind
    obtain ⟨front, hfront⟩ := suffix_reach inner (lead (runs, last))
    have hrest := ih hothers
    rw [hjoin, ← hfront, List.append_assoc] at hrest
    have htext : join (⟨before, inner⟩ :: runs) last =
        before ++ '\x7b' :: (inner ++ '\x7d' :: (lead (runs, last) ++ behind)) := by
      simp [written, hjoin]
    rw [widened_cons]
    refine .run htext (takes_attributeRun?.starts hcut) (fun b t i r => ?_)
      (takes_attributeRun?.longest hcut) ?_
    · rw [htext]
      exact length_le_of_starts hbefore
    · exact hrest.withLead (by rw [lead_widened, hfront])

/-! ## Placeholders -/

/-- A placeholder ends at the next closing brace. -/
theorem placeholder?_eq_some_iff :
    Piece.placeholder? text = some (inner, rest) ↔
      Starts '\x7d' ('\x7b' :: text) inner rest := by
  constructor
  · intro hcut
    unfold Piece.placeholder? at hcut
    split at hcut
    · rename_i hfirst
      cases hcut
      obtain ⟨c, hc, rfl, hinner⟩ := Text.of_cutAt? hfirst
      cases eq_of_beq hc
      refine ⟨rfl, List.cons_ne_nil _ _, fun hmem => ?_⟩
      have := hinner _ hmem
      cases this
    · cases hcut
  · rintro ⟨htext, hne, hbarred⟩
    cases htext
    have hinner : ∀ c ∈ inner, (c == '\x7d') = false := by
      intro c hc
      rw [beq_eq_false_iff_ne]
      rintro rfl
      exact hbarred hc
    have hfirst : Text.cutAt? (· == '\x7d') (inner ++ '\x7d' :: rest) = some (inner, rest) :=
      Text.cutAt?_append hinner rfl rest
    cases inner with
    | nil => exact absurd rfl hne
    | cons c inner =>
      rw [Piece.placeholder?, hfirst]

/-- The search for a placeholder finds the only one. -/
theorem takes_placeholder? : Takes '\x7d' Piece.placeholder? where
  starts := placeholder?_eq_some_iff.1
  longest hcut i r hstarts := by
    cases hcut.symm.trans (placeholder?_eq_some_iff.2 hstarts)
    exact Nat.le_refl _
  none hnone i r hstarts := by
    cases hnone.symm.trans (placeholder?_eq_some_iff.2 hstarts)

/-! ## Replacing runs where they stand -/

/-- Replace the bytes between two offsets, which have to be where characters start or the end. -/
def replaceBytes? (text : List Char) (start stop : Nat) (new : List Char) :
    Option (List Char) := do
  let before ← Token.Byte.slice? text 0 start
  let behind ← Token.Byte.from? text stop
  if start ≤ stop then return before ++ new ++ behind else none

/-- The bytes of the runs of a text that starts at an offset. -/
def ranges (start : Nat) : List Run → List (Nat × Nat)
  | [] => []
  | r :: runs =>
    let opening := start + Text.byteSize r.before
    let closing := opening + Text.byteSize r.written
    (opening, closing) :: ranges closing runs

/-- Replace bytes of a text one after the other, the last ones first. -/
def replaceFromEnd? (text : List Char) (edits : List ((Nat × Nat) × List Char)) :
    Option (List Char) :=
  edits.reverse.foldlM (fun text (range, new) => replaceBytes? text range.1 range.2 new) text

theorem slice?_append (before behind : List Char) :
    Token.Byte.slice? (before ++ behind) 0 (Text.byteSize before) = some before := by
  have hfrom : Token.Byte.from? (before ++ behind) 0 = some (before ++ behind) := by
    cases before ++ behind <;> rfl
  simp [Token.Byte.slice?, hfrom, Token.Byte.from?_append]

theorem replaceBytes?_append (before old behind new : List Char) :
    replaceBytes? (before ++ old ++ behind) (Text.byteSize before)
      (Text.byteSize before + Text.byteSize old) new = some (before ++ new ++ behind) := by
  have hbefore : Token.Byte.slice? (before ++ old ++ behind) 0 (Text.byteSize before) =
      some before := by
    rw [List.append_assoc, slice?_append]
  have hbehind : Token.Byte.from? (before ++ old ++ behind)
      (Text.byteSize before + Text.byteSize old) = some behind := by
    rw [← Text.byteSize_append, Token.Byte.from?_append]
  simp only [replaceBytes?, hbefore, hbehind, Option.bind_eq_bind, Option.bind_some,
    if_pos (Nat.le_add_right ..)]
  rfl

theorem replaceFromEnd?_cons (text : List Char) (edit : (Nat × Nat) × List Char)
    (edits : List ((Nat × Nat) × List Char)) :
    replaceFromEnd? text (edit :: edits) = (replaceFromEnd? text edits).bind fun text =>
      replaceBytes? text edit.1.1 edit.1.2 edit.2 := by
  simp [replaceFromEnd?, List.foldlM_append]

/-- What is replaced does not move what stands in front of it, so that the other runs stay where
they were. -/
theorem replaceFromEnd?_join (lead : List Char) (runs : List Run) (last : List Char)
    {texts : List (List Char)} (hlength : texts.length = runs.length) :
    replaceFromEnd? (lead ++ join runs last) ((ranges (Text.byteSize lead) runs).zip texts) =
      some (lead ++ fill runs texts last) := by
  induction runs generalizing lead texts with
  | nil =>
    cases List.eq_nil_of_length_eq_zero hlength
    rfl
  | cons r runs ih =>
    obtain ⟨new, texts, rfl⟩ := List.exists_cons_of_length_eq_add_one hlength
    have hrest := ih (lead ++ r.before ++ r.written) (Nat.succ.inj hlength)
    have hfirst := replaceBytes?_append (lead ++ r.before) r.written (fill runs texts last) new
    simp only [Text.byteSize_append, ← Nat.add_assoc, List.append_assoc] at hrest hfirst
    simp only [join_cons, fill_cons, ranges, List.zip_cons_cons, replaceFromEnd?_cons,
      List.append_assoc, hrest, Option.bind_some, hfirst]

/-- The runs that are found in a text are where they are replaced. -/
theorem Finds.replaceFromEnd?_eq (h : Finds barred text runs last) {texts : List (List Char)}
    (hlength : texts.length = runs.length) :
    replaceFromEnd? text ((ranges 0 runs).zip texts) = some (fill runs texts last) := by
  rw [h.eq_join]
  exact replaceFromEnd?_join [] runs last hlength

end Run

end XmlTemplate
