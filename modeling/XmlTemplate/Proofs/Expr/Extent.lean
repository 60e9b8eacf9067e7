import Mathlib.Data.List.TakeWhile
import XmlTemplate.Expr.Lexer

/-!
# How far lexemes reach

Two readers look for the end of a string: the one that reads strings, and the one that looks for the
bracket behind a text in brackets. They agree, so that a lexeme closes the brackets and quotes that
it opens. What each reader of the lexer takes is said once, by `Cut`: where its errors are, what it
leaves, and where the texts in brackets stand.
-/

namespace XmlTemplate

/-- The segments that a lexeme holds. -/
def Lexeme.segments : Lexeme → List RawSegment
  | path segments => segments
  | _ => []

/-- The text in brackets, if the segment has one, stands between brackets in the text, at its offset
in the text of `total` bytes that ends with this text. -/
def RawSegment.LiesIn (total : Nat) (text : List Char) : RawSegment → Prop
  | dynamic inner offset => ∃ before after, text = before ++ '[' :: (inner ++ ']' :: after) ∧
      offset = Token.offsetOf total (inner ++ ']' :: after)
  | _ => True

theorem RawSegment.LiesIn.mono {total : Nat} {s : RawSegment} {rest text : List Char}
    (h : s.LiesIn total rest) (hrest : rest <:+ text) : s.LiesIn total text := by
  obtain ⟨front, rfl⟩ := hrest
  cases s with
  | dynamic inner offset =>
    obtain ⟨before, after, rfl, hoffset⟩ := h
    exact ⟨front ++ before, after, (List.append_assoc ..).symm, hoffset⟩
  | _ => trivial

theorem Text.byteSize_le_of_suffix {rest text : List Char} (h : rest <:+ text) :
    byteSize rest ≤ byteSize text := by
  obtain ⟨before, rfl⟩ := h
  rw [byteSize_append]
  exact Nat.le_add_left ..

namespace Token

/-- The offset of a shorter suffix is greater. -/
theorem offsetOf_lt {total : Nat} {rest text : List Char} (h : rest <:+ text) (hne : rest ≠ text)
    (htext : Text.byteSize text ≤ total) : offsetOf total text < offsetOf total rest := by
  obtain ⟨before, rfl⟩ := h
  have hpos : 0 < Text.byteSize before := by
    cases before with
    | nil => exact absurd rfl hne
    | cons c before =>
      have hc := c.utf8Size_pos
      rw [Text.byteSize]
      omega
  rw [Text.byteSize_append] at htext
  rw [offsetOf, offsetOf, Text.byteSize_append]
  omega

/-! ## Brackets -/

/-- Brackets and quotes in the text are closed in it, so that a bracket around it closes behind
it. -/
def Closed (text : List Char) : Prop :=
  ∀ depth rest, bracketBody? depth none (text ++ rest) =
    (bracketBody? depth none rest).map fun (body, after) => (text ++ body, after)

theorem bracketBody?_plain {c : Char} (h : c ∉ ['\'', '"', '[', ']']) (depth : Nat)
    (rest : List Char) :
    bracketBody? depth none (c :: rest) = Text.consFirst c (bracketBody? depth none rest) := by
  simp only [List.mem_cons, List.not_mem_nil, or_false, not_or] at h
  rw [bracketBody?.eq_def]
  simp [h]

theorem bracketBody?_open (depth : Nat) (rest : List Char) :
    bracketBody? depth none ('[' :: rest) =
      Text.consFirst '[' (bracketBody? (depth + 1) none rest) := by
  rw [bracketBody?.eq_def]
  simp

theorem bracketBody?_close (depth : Nat) (rest : List Char) :
    bracketBody? (depth + 1) none (']' :: rest) =
      Text.consFirst ']' (bracketBody? depth none rest) := by
  rw [bracketBody?.eq_def]
  simp

theorem closed_nil : Closed [] := by
  intro depth rest
  simp

theorem Closed.append {s t : List Char} (hs : Closed s) (ht : Closed t) : Closed (s ++ t) := by
  intro depth rest
  rw [List.append_assoc, hs, ht, Option.map_map]
  simp [Function.comp_def]

theorem closed_singleton {c : Char} (h : c ∉ ['\'', '"', '[', ']']) : Closed [c] := by
  intro depth rest
  exact bracketBody?_plain h depth rest

theorem Closed.cons {c : Char} {t : List Char} (h : c ∉ ['\'', '"', '[', ']']) (ht : Closed t) :
    Closed (c :: t) :=
  (closed_singleton h).append ht

theorem closed_of_forall {t : List Char} (h : ∀ c ∈ t, c ∉ ['\'', '"', '[', ']']) : Closed t := by
  induction t with
  | nil => exact closed_nil
  | cons c t ih =>
    exact .cons (h c (List.mem_cons_self ..)) (ih fun d hd => h d (List.mem_cons_of_mem c hd))

theorem closed_of_all {t : List Char}
    (h : t.all fun c => ['\'', '"', '[', ']'].contains c == false) :
    Closed t :=
  closed_of_forall (by simpa using h)

theorem Closed.bracketed {t : List Char} (ht : Closed t) : Closed ('[' :: (t ++ [']'])) := by
  intro depth rest
  have hbody := ht (depth + 1) (']' :: rest)
  simp only [List.cons_append, List.append_assoc, List.nil_append]
  rw [bracketBody?_open, hbody, bracketBody?_close]
  simp [Text.consFirst, Function.comp_def]

/-- The bracket around a closed text closes behind it. -/
theorem Closed.bracketBody? {t : List Char} (ht : Closed t) (rest : List Char) :
    Token.bracketBody? 0 none (t ++ ']' :: rest) = some (t, rest) := by
  rw [ht, Token.bracketBody?.eq_def]
  simp

theorem not_mem_of_apart {p : Char → Bool} {c : Char} {cs : List Char} (h : p c = true)
    (hcs : cs.all (fun d => !p d) = true) : c ∉ cs := by
  intro hmem
  have hc := List.all_eq_true.1 hcs c hmem
  simp [h] at hc

/-! ## Texts that the search goes over -/

/-- Within other brackets, the search for the closing one goes over the text from some open brackets
and quotes to others. -/
def Passes (depth : Nat) (quote : Option Char) (depth' : Nat) (quote' : Option Char)
    (text : List Char) : Prop :=
  ∀ outer rest, bracketBody? (outer + depth) quote (text ++ rest) =
    (bracketBody? (outer + depth') quote' rest).map fun (body, after) => (text ++ body, after)

section

variable {depth depth₁ depth' : Nat} {quote quote₁ quote' : Option Char} {text : List Char}

namespace Passes

theorem cons {c : Char}
    (hc : ∀ outer rest, bracketBody? (outer + depth) quote (c :: rest) =
      Text.consFirst c (bracketBody? (outer + depth₁) quote₁ rest))
    (h : Passes depth₁ quote₁ depth' quote' text) :
    Passes depth quote depth' quote' (c :: text) := by
  intro outer rest
  rw [List.cons_append, hc, h]
  simp [Text.consFirst, Function.comp_def]

/-- A backslash in quotes hides the character behind it. -/
theorem escaped {q : Char} (hq : '\\' ≠ q) (d : Char)
    (h : Passes depth (some q) depth' quote' text) :
    Passes depth (some q) depth' quote' ('\\' :: d :: text) := by
  intro outer rest
  rw [List.cons_append, bracketBody?.eq_def]
  simp [hq, h outer rest, Text.consFirst, Function.comp_def]

theorem quoted {q c : Char} (hq : c ≠ q) (hslash : c ≠ '\\')
    (h : Passes depth (some q) depth' quote' text) :
    Passes depth (some q) depth' quote' (c :: text) := by
  refine .cons (fun outer rest => ?_) h
  rw [bracketBody?.eq_def]
  simp [hq, hslash]

theorem unquoted {q : Char} (h : Passes depth none depth' quote' text) :
    Passes depth (some q) depth' quote' (q :: text) := by
  refine .cons (fun outer rest => ?_) h
  rw [bracketBody?.eq_def]
  simp

theorem inQuotes {q : Char} (hq : q = '\'' ∨ q = '"')
    (h : Passes depth (some q) depth' quote' text) :
    Passes depth none depth' quote' (q :: text) := by
  refine .cons (fun outer rest => ?_) h
  rw [bracketBody?.eq_def]
  simp [hq]

theorem opened (h : Passes (depth + 1) none depth' quote' text) :
    Passes depth none depth' quote' ('[' :: text) :=
  .cons (fun _ rest => bracketBody?_open _ rest) h

theorem closed (h : Passes depth none depth' quote' text) :
    Passes (depth + 1) none depth' quote' (']' :: text) :=
  .cons (fun _ rest => bracketBody?_close _ rest) h

theorem plain {c : Char} (hc : c ∉ ['\'', '"', '[', ']'])
    (h : Passes depth none depth' quote' text) : Passes depth none depth' quote' (c :: text) :=
  .cons (fun _ rest => bracketBody?_plain hc _ rest) h

end Passes

/-- A string behind its opening quote is passed up to behind its closing quote. -/
theorem exists_passes_of_stringBody? {q : Char} {value rest : List Char}
    (h : stringBody? q text = some (value, rest)) :
    ∃ written, text = written ++ rest ∧ Passes 0 (some q) 0 none written := by
  fun_induction stringBody? q text generalizing value with
  | case1 => cases h
  | case2 text =>
    cases h
    exact ⟨[q], rfl, .unquoted closed_nil⟩
  | case3 => cases h
  | case4 d more hd hquote ih =>
    obtain ⟨_, hvalue, -⟩ := Text.consFirst_eq_some_iff.1 h
    obtain ⟨written, rfl, hpasses⟩ := ih hvalue
    exact ⟨'\\' :: d :: written, rfl, hpasses.escaped hquote d⟩
  | case5 d more hd hquote ih =>
    obtain ⟨_, h, -⟩ := Text.consFirst_eq_some_iff.1 h
    obtain ⟨_, hvalue, -⟩ := Text.consFirst_eq_some_iff.1 h
    obtain ⟨written, rfl, hpasses⟩ := ih hvalue
    exact ⟨'\\' :: d :: written, rfl, hpasses.escaped hquote d⟩
  | case6 c text hquote hslash ih =>
    obtain ⟨_, hvalue, -⟩ := Text.consFirst_eq_some_iff.1 h
    obtain ⟨written, rfl, hpasses⟩ := ih hvalue
    exact ⟨c :: written, rfl, hpasses.quoted hquote hslash⟩

/-- What brackets hold is passed with the bracket behind it. -/
theorem passes_of_bracketBody? {body rest : List Char}
    (h : bracketBody? depth quote text = some (body, rest)) :
    text = body ++ ']' :: rest ∧ Passes (depth + 1) quote 0 none (body ++ [']']) := by
  fun_induction bracketBody? depth quote text generalizing body with
  | case1 => cases h
  | case2 depth more q ih =>
    obtain ⟨_, hbody, rfl⟩ := Text.consFirst_eq_some_iff.1 h
    obtain ⟨rfl, hpasses⟩ := ih hbody
    exact ⟨rfl, hpasses.unquoted⟩
  | case3 => cases h
  | case4 depth q d more hquote ih =>
    obtain ⟨_, hmore, rfl⟩ := Text.consFirst_eq_some_iff.1 h
    obtain ⟨_, hbody, rfl⟩ := Text.consFirst_eq_some_iff.1 hmore
    obtain ⟨hrest, hpasses⟩ := ih hbody
    exact ⟨by rw [hrest]; rfl, hpasses.escaped hquote d⟩
  | case5 depth c more q hquote hslash ih =>
    obtain ⟨_, hbody, rfl⟩ := Text.consFirst_eq_some_iff.1 h
    obtain ⟨rfl, hpasses⟩ := ih hbody
    exact ⟨rfl, hpasses.quoted hquote hslash⟩
  | case6 depth q more hquote ih =>
    obtain ⟨_, hbody, rfl⟩ := Text.consFirst_eq_some_iff.1 h
    obtain ⟨rfl, hpasses⟩ := ih hbody
    exact ⟨rfl, hpasses.inQuotes hquote⟩
  | case7 depth more hquote ih =>
    obtain ⟨_, hbody, rfl⟩ := Text.consFirst_eq_some_iff.1 h
    obtain ⟨rfl, hpasses⟩ := ih hbody
    exact ⟨rfl, hpasses.opened⟩
  | case8 more hquote hopen =>
    cases h
    exact ⟨rfl, .closed closed_nil⟩
  | case9 more outer hquote hopen ih =>
    obtain ⟨_, hbody, rfl⟩ := Text.consFirst_eq_some_iff.1 h
    obtain ⟨rfl, hpasses⟩ := ih hbody
    exact ⟨rfl, hpasses.closed⟩
  | case10 depth c more hquote hopen hclose ih =>
    obtain ⟨_, hbody, rfl⟩ := Text.consFirst_eq_some_iff.1 h
    obtain ⟨rfl, hpasses⟩ := ih hbody
    exact ⟨rfl, hpasses.plain (by simp_all)⟩

end

/-! ## Lexemes -/

/-- The text up to the rest closes the brackets and quotes that it opens. -/
def ClosedTo (rest text : List Char) : Prop := ∃ written, text = written ++ rest ∧ Closed written

namespace ClosedTo

variable {rest middle text : List Char}

theorem refl (rest : List Char) : ClosedTo rest rest := ⟨[], rfl, closed_nil⟩

theorem trans (h : ClosedTo rest middle) (k : ClosedTo middle text) : ClosedTo rest text := by
  obtain ⟨written, rfl, hwritten⟩ := h
  obtain ⟨before, rfl, hbefore⟩ := k
  exact ⟨before ++ written, (List.append_assoc ..).symm, hbefore.append hwritten⟩

theorem cons {c : Char} (hc : c ∉ ['\'', '"', '[', ']']) (h : ClosedTo rest text) :
    ClosedTo rest (c :: text) :=
  h.trans ⟨[c], rfl, closed_singleton hc⟩

theorem closed (h : ClosedTo [] text) : Closed text := by
  obtain ⟨written, rfl, hwritten⟩ := h
  rwa [List.append_nil]

theorem suffix (h : ClosedTo rest text) : rest <:+ text := by
  obtain ⟨written, rfl, -⟩ := h
  exact List.suffix_append written rest

/-- Characters of a class without brackets and quotes. -/
theorem dropWhile {p : Char → Bool} (hp : ['\'', '"', '[', ']'].all (fun c => !p c) = true)
    (text : List Char) : ClosedTo (text.dropWhile p) text :=
  ⟨text.takeWhile p, List.takeWhile_append_dropWhile.symm, closed_of_forall fun _ hc =>
    not_mem_of_apart (List.mem_takeWhile_imp hc) hp⟩

end ClosedTo

variable {total : Nat} {text rest : List Char}

/-- What a reader makes of the end of a text of `total` bytes. An error is at a place of the text.
Else what is read closes the brackets and quotes that it opens, and the segments in it stand where
they say. -/
inductive Cut (total : Nat) (held : α → List RawSegment) (text : List Char) :
    Except SyntaxError (α × List Char) → Prop where
  | error {rest : List Char} (h : rest <:+ text) (problem : SyntaxProblem) :
    Cut total held text (.error ⟨offsetOf total rest, problem⟩)
  | ok {a : α} {rest : List Char} (h : ClosedTo rest text)
      (hheld : ∀ s ∈ held a, s.LiesIn total text) : Cut total held text (.ok (a, rest))

namespace Cut

variable {held : α → List RawSegment} {result : Except SyntaxError (α × List Char)}

/-- What holds no segments. -/
theorem plain {a : α} (h : ClosedTo rest text) (ha : held a = []) :
    Cut total held text (.ok (a, rest)) :=
  .ok h (by simp [ha])

/-- What is read behind something else. -/
theorem behind (h : ClosedTo rest text) (k : Cut total held rest result) :
    Cut total held text result := by
  cases k with
  | error hrest problem => exact .error (hrest.trans h.suffix) problem
  | ok hrest hheld => exact .ok (hrest.trans h) fun s hs => (hheld s hs).mono h.suffix

theorem closedTo {a : α} (h : Cut total held text (.ok (a, rest))) : ClosedTo rest text := by
  cases h
  assumption

theorem liesIn {a : α} (h : Cut total held text (.ok (a, rest))) :
    ∀ s ∈ held a, s.LiesIn total text := by
  cases h
  assumption

theorem exists_place {e : SyntaxError} (h : Cut total held text (.error e)) :
    ∃ rest, rest <:+ text ∧ e.offset = offsetOf total rest := by
  cases h with
  | error hrest => exact ⟨_, hrest, rfl⟩

end Cut

theorem closedTo_of_stringBody? {q : Char} (hq : q = '\'' ∨ q = '"') {value : List Char}
    (h : stringBody? q text = some (value, rest)) : ClosedTo rest (q :: text) := by
  obtain ⟨written, rfl, hpasses⟩ := exists_passes_of_stringBody? h
  exact ⟨q :: written, rfl, hpasses.inQuotes hq⟩

theorem closedTo_number (text : List Char) : ClosedTo (number text).2 text := by
  have hdigits (text : List Char) : ClosedTo (text.dropWhile Char.isDigit) text :=
    .dropWhile (by decide) text
  unfold number
  simp only
  split
  · rename_i d more hrest
    split
    · refine .trans ?_ (hdigits text)
      rw [hrest]
      exact .cons (by decide) (hdigits (d :: more))
    · exact hdigits text
  · exact hdigits text

theorem segments_number (text : List Char) : (number text).1.segments = [] := by
  unfold number
  simp only
  split
  · split <;> rfl
  · rfl

theorem cut_segment (total : Nat) (text : List Char) :
    Cut total (fun s => [s]) text (segment total text) := by
  unfold segment
  split
  · exact .ok (.cons (by decide) (.cons (by decide) (.refl _))) (by simp [RawSegment.LiesIn])
  · exact .ok (.cons (by decide) (.refl _)) (by simp [RawSegment.LiesIn])
  · rename_i text
    split
    · rename_i inner after hbody
      obtain ⟨rfl, hpasses⟩ := passes_of_bracketBody? hbody
      refine .ok ⟨'[' :: (inner ++ [']']), by simp, hpasses.opened⟩ fun s hs => ?_
      rw [List.mem_singleton.1 hs]
      exact ⟨[], after, rfl, rfl⟩
    · exact .error (List.suffix_refl _) _
  · rename_i c more _ _ _
    split
    · rename_i hc
      exact .ok (.cons (not_mem_of_apart hc (by decide)) (.dropWhile (by decide) more))
        (by simp [RawSegment.LiesIn])
    · exact .error (List.suffix_refl _) _
  · exact .error (List.suffix_refl _) _

theorem cut_segments (total : Nat) (text : List Char) :
    Cut total id text (segments total text) := by
  fun_induction segments total text with
  | case1 text e herror =>
    have hfirst := cut_segment total text
    rw [herror] at hfirst
    cases hfirst with
    | error hrest problem => exact .error hrest problem
  | case2 text first more hread _ e herror ih =>
    rw [herror] at ih
    have hfirst := cut_segment total text
    rw [hread] at hfirst
    exact .behind (.trans (.cons (by decide) (.refl more)) hfirst.closedTo) ih
  | case3 text first more hread _ others after hothers ih =>
    rw [hothers] at ih
    have hfirst := cut_segment total text
    rw [hread] at hfirst
    have hslash : ClosedTo more text := .trans (.cons (by decide) (.refl more)) hfirst.closedTo
    refine .ok (ih.closedTo.trans hslash) fun s hs => ?_
    rcases List.mem_cons.1 hs with rfl | hs
    · exact hfirst.liesIn s (List.mem_singleton_self s)
    · exact (ih.liesIn s hs).mono hslash.suffix
  | case4 text first more hread =>
    have hfirst := cut_segment total text
    rw [hread] at hfirst
    exact .error ((List.suffix_cons ..).trans hfirst.closedTo.suffix) _
  | case5 text first rest _ hread =>
    have hfirst := cut_segment total text
    rw [hread] at hfirst
    exact .ok hfirst.closedTo hfirst.liesIn

theorem cut_path (total : Nat) (text : List Char) : Cut total id text (path total text) := by
  unfold path
  split
  · rename_i rest
    have hslash : ClosedTo rest ('/' :: rest) := .cons (by decide) (.refl rest)
    split
    · have hothers := cut_segments total rest
      split
      · rename_i herror
        rw [herror] at hothers
        exact .behind hslash hothers
      · rename_i found after hread
        rw [hread] at hothers
        refine .ok (hothers.closedTo.trans hslash) fun s hs => ?_
        rcases List.mem_cons.1 hs with rfl | hs
        · trivial
        · exact (hothers.liesIn s hs).mono hslash.suffix
    · exact .ok hslash fun s hs => by
        rw [List.mem_singleton.1 hs]
        trivial
  · exact cut_segments total text

theorem cut_pathLexeme (total : Nat) (text : List Char) :
    Cut total Lexeme.segments text (pathLexeme total text) := by
  have hpath := cut_path total text
  unfold pathLexeme
  split
  · rename_i herror
    rw [herror] at hpath
    cases hpath with
    | error hrest problem => exact .error hrest problem
  · rename_i hread
    rw [hread] at hpath
    exact .ok hpath.closedTo hpath.liesIn

theorem segments_of_keyword? {word : List Char} {l : Lexeme} (h : keyword? word = some l) :
    l.segments = [] := by
  unfold keyword? at h
  split at h
  all_goals
    cases h
    try rfl

theorem cut_word (total : Nat) (text : List Char) :
    Cut total Lexeme.segments text (word total text) := by
  have hname : ClosedTo (text.dropWhile continuesName) text := .dropWhile (by decide) text
  simp only [word]
  split
  · exact cut_pathLexeme total text
  · split
    · rename_i hkeyword
      exact .plain hname (segments_of_keyword? hkeyword)
    · split
      · rename_i rest hparen
        have hblanks : ClosedTo ('(' :: rest) (text.dropWhile continuesName) :=
          hparen ▸ .dropWhile (by decide) _
        exact .plain (.trans (.cons (by decide) (.refl rest)) (hblanks.trans hname)) rfl
      · exact cut_pathLexeme total text

theorem cut_otherLexeme (total : Nat) (c : Char) (text : List Char) :
    Cut total Lexeme.segments (c :: text) (otherLexeme total c text) := by
  simp only [otherLexeme]
  split
  · exact .error (List.suffix_refl _) _
  · split
    · rename_i hquote
      split
      · rename_i hbody
        exact .plain (closedTo_of_stringBody? hquote hbody) rfl
      · exact .error (List.suffix_refl _) _
    · split
      · exact .plain (closedTo_number (c :: text)) (segments_number (c :: text))
      · split
        · exact cut_pathLexeme total (c :: text)
        · split
          · exact cut_word total (c :: text)
          · exact .error (List.suffix_refl _) _

/-- A lexeme closes the brackets and quotes that it opens, and its segments stand in the text. -/
theorem cut_nextLexeme (total : Nat) (text : List Char) :
    Cut total Lexeme.segments text (nextLexeme total text) := by
  unfold nextLexeme
  split
  case h_1 => exact .error (List.suffix_refl _) _
  case h_14 => exact cut_otherLexeme ..
  case h_8 | h_9 | h_10 | h_11 =>
    exact .plain (.cons (by decide) (.cons (by decide) (.refl _))) rfl
  all_goals exact .plain (.cons (by decide) (.refl _)) rfl

/-! ## Tokens -/

/-- White space and tokens, which stand where they say in a text of `total` bytes that ends with
this text. -/
inductive Tiled (total : Nat) : List Char → List Token → Prop where
  | blank {text : List Char} (h : ∀ c ∈ text, Text.isWhiteSpace c = true) : Tiled total text []
  | token {blanks text rest : List Char} {l : Lexeme} {tokens : List Token}
      (hblanks : ∀ c ∈ blanks, Text.isWhiteSpace c = true)
      (hnext : nextLexeme total text = .ok (l, rest)) (h : Tiled total rest tokens) :
      Tiled total (blanks ++ text) (⟨l, offsetOf total text⟩ :: tokens)

theorem tiled_of_scanFrom {tokens : List Token} (h : scanFrom total text = .ok tokens) :
    Tiled total text tokens := by
  fun_induction scanFrom total text generalizing tokens with
  | case1 text hend =>
    cases h
    exact .blank (List.dropWhile_eq_nil_iff.1 hend)
  | case2 => cases h
  | case3 => cases h
  | case4 text c rest hblank l after hnext others hothers ih =>
    cases h
    rw [← List.takeWhile_append_dropWhile (p := Text.isWhiteSpace) (l := text), hblank]
    exact .token (fun _ => List.mem_takeWhile_imp) hnext (ih hothers)

theorem exists_place_of_scanFrom {e : SyntaxError} (h : scanFrom total text = .error e) :
    ∃ rest, rest <:+ text ∧ e.offset = offsetOf total rest := by
  fun_induction scanFrom total text with
  | case1 => cases h
  | case2 text c rest hblank e' herror =>
    cases h
    have hread := cut_nextLexeme total (c :: rest)
    rw [herror] at hread
    obtain ⟨after, hafter, hoffset⟩ := hread.exists_place
    exact ⟨after, hafter.trans (hblank ▸ List.dropWhile_suffix _), hoffset⟩
  | case3 text c rest hblank l after hnext e' herror ih =>
    cases h
    have hread := cut_nextLexeme total (c :: rest)
    rw [hnext] at hread
    obtain ⟨last, hlast, hoffset⟩ := ih herror
    refine ⟨last, hlast.trans (hread.closedTo.suffix.trans ?_), hoffset⟩
    exact hblank ▸ List.dropWhile_suffix _
  | case4 => cases h

theorem closed_of_isWhiteSpace (h : ∀ c ∈ text, Text.isWhiteSpace c = true) : Closed text :=
  closed_of_forall fun c hc => not_mem_of_apart (h c hc) (by decide)

/-- A text that is cut into tokens closes the brackets and quotes that it opens. -/
theorem Tiled.closed {tokens : List Token} (h : Tiled total text tokens) : Closed text := by
  induction h with
  | blank h => exact closed_of_isWhiteSpace h
  | @token _ text _ _ _ hblanks hnext _ ih =>
    have hread := cut_nextLexeme total text
    rw [hnext] at hread
    obtain ⟨written, rfl, hwritten⟩ := hread.closedTo
    exact (closed_of_isWhiteSpace hblanks).append (hwritten.append ih)

end Token

end XmlTemplate
