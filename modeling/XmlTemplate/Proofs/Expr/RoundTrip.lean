import XmlTemplate.Proofs.Expr.Reading

/-!
# Printing undoes parsing

The lexer only makes names and numbers that are spelled the way they are printed. Phrases of such
lexemes stand for printable trees, so the text of whatever was parsed is read back, by
`Expr.parse_text_of_printable`. Keys in brackets were parsed from shorter texts: the induction is on
the length of the source.
-/

namespace XmlTemplate

namespace Token

/-! ## Names and numbers of lexemes -/

/-- The names and numbers of a lexeme are spelled as they are printed. -/
def IsSpelled : Lexeme → Prop
  | .number (.int i) => 0 ≤ i.toInt
  | .path raw => IsPath raw
  | .function name => IsWord name.toList ∧ keyword? name.toList = none
  | _ => True

variable {total : Nat} {text rest : List Char}

theorem isName_cons_takeWhile {c : Char} (h : continuesName c = true) (more : List Char) :
    IsName (c :: more.takeWhile continuesName) := by
  refine ⟨List.cons_ne_nil _ _, fun d hd => ?_⟩
  rcases List.mem_cons.1 hd with rfl | hd
  · exact h
  · exact List.all_eq_true.1 List.all_takeWhile d hd

/-- A segment that is a name is the longest name that the text starts with. -/
theorem of_segment_name {key : String} (h : segment total text = .ok (.name key, rest)) :
    ∃ c more, text = c :: more ∧ continuesName c = true ∧
      key.toList = c :: more.takeWhile continuesName ∧ rest = more.dropWhile continuesName := by
  unfold segment at h
  split at h
  · cases h
  · cases h
  · split at h <;> cases h
  · split at h
    · rename_i c more _ _ _ hc
      cases h
      exact ⟨c, more, rfl, hc, String.toList_ofList, rfl⟩
    · cases h
  · cases h

theorem follows_of_segment {s : RawSegment} (h : segment total text = .ok (s, rest)) :
    Follows s := by
  cases s with
  | root =>
    unfold segment at h
    split at h
    · cases h
    · cases h
    · split at h <;> cases h
    · split at h <;> cases h
    · cases h
  | name key =>
    obtain ⟨c, more, -, hc, hkey, -⟩ := of_segment_name h
    rw [Follows, hkey]
    exact isName_cons_takeWhile hc more
  | _ => trivial

/-- The segments of a path are its first one and segments behind slashes. -/
theorem of_segments {found : List RawSegment} (h : segments total text = .ok (found, rest)) :
    ∃ first others after, found = first :: others ∧ segment total text = .ok (first, after) ∧
      (∀ s ∈ others, Follows s) ∧ (others = [] → after.head? ≠ some '/') := by
  fun_induction segments total text generalizing found with
  | case1 => cases h
  | case2 => cases h
  | case3 text first more hfirst hmore others after hothers ih =>
    cases h
    obtain ⟨second, more', after', rfl, hsecond, hfollows, -⟩ := ih hothers
    refine ⟨first, second :: more', _, rfl, hfirst, ?_, fun hnil => ?_⟩
    · exact List.forall_mem_cons.2 ⟨follows_of_segment hsecond, hfollows⟩
    · cases hnil
  | case4 => cases h
  | case5 text first after hslash hfirst =>
    cases h
    refine ⟨first, [], _, rfl, hfirst, List.forall_mem_nil _, fun _ hhead => ?_⟩
    obtain ⟨more, rfl⟩ := List.head?_eq_some_iff.1 hhead
    exact hslash more rfl

theorem isSpelled_numeral (whole : List Char) (fraction : Option (List Char)) :
    IsSpelled (.number (Numeral.toNumber ⟨none, whole, fraction, none⟩)) := by
  have hvalue : Numeral.toInt ⟨none, whole, fraction, none⟩ = (Text.ofDigits whole : Int) := rfl
  unfold Numeral.toNumber
  split
  · split
    · rename_i i hint
      have hi := Number.toInt_of_int64? hint
      rw [hvalue] at hi
      rw [IsSpelled, hi]
      exact Int.natCast_nonneg _
    · trivial
  · trivial

theorem isSpelled_number (text : List Char) : IsSpelled (number text).1 := by
  unfold number
  simp only
  split
  · split <;> exact isSpelled_numeral _ _
  · exact isSpelled_numeral _ _

theorem isPath_root {others : List RawSegment} {after : List Char}
    (h : segments total text = .ok (others, after)) : IsPath (.root :: others) := by
  obtain ⟨first, more, after', rfl, hfirst, hmore, -⟩ := of_segments h
  exact List.forall_mem_cons.2 ⟨follows_of_segment hfirst, hmore⟩

/-- What a path starts with decides whether it can start with it. -/
theorem isPath_of_segments {found : List RawSegment} (h : segments total text = .ok (found, rest))
    (hleads : ∀ isAlone first after, segment total text = .ok (first, after) →
      (isAlone → after.head? ≠ some '/') → Leads isAlone first) : IsPath found := by
  obtain ⟨first, others, after, rfl, hfirst, hothers, halone⟩ := of_segments h
  have hfirst' := hleads _ first after hfirst halone
  cases first with
  | root => exact hfirst'.elim
  | _ => exact ⟨hfirst', hothers⟩

theorem of_pathLexeme {l : Lexeme} (h : pathLexeme total text = .ok (l, rest)) :
    ∃ raw, l = .path raw ∧ path total text = .ok (raw, rest) := by
  unfold pathLexeme at h
  split at h
  · cases h
  · rename_i hpath
    cases h
    exact ⟨_, rfl, hpath⟩

theorem isPath_slash {raw : List RawSegment} (h : path total ('/' :: text) = .ok (raw, rest)) :
    IsPath raw := by
  simp only [path] at h
  split at h
  · split at h
    · cases h
    · rename_i hsegments
      cases h
      exact isPath_root hsegments
  · cases h
    exact List.forall_mem_nil _

theorem path_eq_segments {c : Char} (hc : c ≠ '/') :
    path total (c :: text) = segments total (c :: text) := by
  unfold path
  split
  · rename_i heq
    cases heq
    exact absurd rfl hc
  · rfl

/-- A path that starts with a point or a bracket. -/
theorem isPath_mark {c : Char} {raw : List RawSegment} (hc : c = '.' ∨ c = '[')
    (h : path total (c :: text) = .ok (raw, rest)) : IsPath raw := by
  rw [path_eq_segments (by rcases hc with rfl | rfl <;> decide)] at h
  refine isPath_of_segments h fun isAlone first after hfirst _ => ?_
  cases first with
  | root => exact follows_of_segment hfirst
  | name key =>
    -- neither mark can be in a name
    obtain ⟨d, more, heq, hd, -, -⟩ := of_segment_name hfirst
    cases heq
    exact absurd hd (by rcases hc with rfl | rfl <;> decide)
  | _ => trivial

/-- A path that starts with a name that no parenthesis follows. -/
theorem isPath_word {c : Char} {raw : List RawSegment} (hc : startsName c = true)
    (hkeyword : (text.dropWhile continuesName).head? ≠ some '/' →
      keyword? (c :: text.takeWhile continuesName) = none)
    (h : path total (c :: text) = .ok (raw, rest)) : IsPath raw := by
  have hname := continuesName_of_startsName hc
  rw [path_eq_segments (by rintro rfl; exact absurd hc (by decide))] at h
  refine isPath_of_segments h fun isAlone first after hfirst halone => ?_
  rw [segment_eq_name hname] at hfirst
  cases hfirst
  refine ⟨?_, fun hlast => ?_⟩
  · rw [String.toList_ofList]
    exact ⟨isName_cons_takeWhile hname text, by simp [hc]⟩
  · rw [String.toList_ofList]
    exact hkeyword (halone hlast)

theorem isSpelled_keyword {name : List Char} {l : Lexeme} (h : keyword? name = some l) :
    IsSpelled l := by
  unfold keyword? at h
  split at h
  all_goals
    cases h
    try trivial

theorem isSpelled_word {c : Char} {l : Lexeme} (hc : startsName c = true)
    (h : word total (c :: text) = .ok (l, rest)) : IsSpelled l := by
  have hname := continuesName_of_startsName hc
  simp only [word, List.takeWhile_cons_of_pos hname, List.dropWhile_cons_of_pos hname] at h
  split at h
  · rename_i hslash
    obtain ⟨raw, rfl, hpath⟩ := of_pathLexeme h
    exact isPath_word hc (absurd hslash) hpath
  · split at h
    · rename_i hkeyword
      cases h
      exact isSpelled_keyword hkeyword
    · rename_i hkeyword
      split at h
      · cases h
        refine ⟨?_, by rw [String.toList_ofList, hkeyword]⟩
        rw [String.toList_ofList]
        exact ⟨isName_cons_takeWhile hname text, by simp [hc]⟩
      · obtain ⟨raw, rfl, hpath⟩ := of_pathLexeme h
        exact isPath_word hc (fun _ => hkeyword) hpath

theorem isSpelled_otherLexeme {c : Char} {l : Lexeme}
    (h : otherLexeme total c text = .ok (l, rest)) : IsSpelled l := by
  simp only [otherLexeme] at h
  split at h
  · cases h
  · split at h
    · split at h
      · cases h
        trivial
      · cases h
    · split at h
      · rw [Except.ok.injEq] at h
        have hnumber := isSpelled_number (c :: text)
        rw [h] at hnumber
        exact hnumber
      · split at h
        · rename_i hmark
          obtain ⟨raw, rfl, hpath⟩ := of_pathLexeme h
          rcases hmark with rfl | hmark
          · exact isPath_slash hpath
          · exact isPath_mark hmark hpath
        · split at h
          · rename_i hc
            exact isSpelled_word hc h
          · cases h

theorem isSpelled_nextLexeme {l : Lexeme} (h : nextLexeme total text = .ok (l, rest)) :
    IsSpelled l := by
  unfold nextLexeme at h
  split at h
  case h_1 => cases h
  case h_14 => exact isSpelled_otherLexeme h
  all_goals
    cases h
    trivial

theorem isSpelled_scanFrom {tokens : List Token} (h : scanFrom total text = .ok tokens) :
    ∀ t ∈ tokens, IsSpelled t.lexeme := by
  fun_induction scanFrom total text generalizing tokens with
  | case1 =>
    cases h
    exact List.forall_mem_nil _
  | case2 => cases h
  | case3 => cases h
  | case4 text c rest hblank l after hnext others hothers ih =>
    cases h
    exact List.forall_mem_cons.2 ⟨isSpelled_nextLexeme hnext, ih hothers⟩

end Token

namespace Expr

open Token

/-! ## Trees of phrases -/

theorem of_mapM_cons {first : RawSegment} {raw : List RawSegment} {segments : List Segment}
    (h : (first :: raw).mapM segment? = some segments) :
    ∃ s others, segments = s :: others ∧ segment? first = some s ∧
      raw.mapM segment? = some others := by
  rw [List.mapM_cons] at h
  obtain ⟨s, hs, h⟩ := Option.bind_eq_some_iff.1 h
  obtain ⟨others, hothers, h⟩ := Option.bind_eq_some_iff.1 h
  cases h
  exact ⟨s, others, rfl, hs, hothers⟩

/-- A segment is the one that was written, but for the text in its brackets. -/
theorem outline_of_segment? {raw : RawSegment} {s : Segment} (h : segment? raw = some s) :
    s.outline = raw ∨
      ∃ source offset, raw = .dynamic source offset ∧ s.outline = .dynamic [] 0 := by
  cases raw with
  | dynamic source offset =>
    obtain ⟨key, -, rfl⟩ := Option.map_eq_some_iff.1 h
    exact .inr ⟨source, offset, rfl, rfl⟩
  | _ =>
    cases h
    exact .inl rfl

theorem follows_outline {raw : List RawSegment} {segments : List Segment}
    (h : raw.mapM segment? = some segments) (hraw : ∀ s ∈ raw, Follows s) :
    ∀ s ∈ segments.map Segment.outline, Follows s := by
  induction raw generalizing segments with
  | nil =>
    cases h
    nofun
  | cons first raw ih =>
    obtain ⟨s, others, rfl, hs, hothers⟩ := of_mapM_cons h
    have hfirst := hraw first (List.mem_cons_self ..)
    refine List.forall_mem_cons.2
      ⟨?_, ih hothers fun s hmem => hraw s (List.mem_cons_of_mem first hmem)⟩
    rcases outline_of_segment? hs with hs | ⟨_, _, -, hs⟩
    · exact hs ▸ hfirst
    · rw [hs]
      trivial

theorem isPath_outline {raw : List RawSegment} {segments : List Segment}
    (h : raw.mapM segment? = some segments) (hraw : IsPath raw) :
    IsPath (segments.map Segment.outline) := by
  cases raw with
  | nil => exact hraw.elim
  | cons first raw =>
    obtain ⟨s, others, rfl, hs, hothers⟩ := of_mapM_cons h
    have hlast (hnil : others.map Segment.outline = []) : raw = [] := by
      cases List.map_eq_nil_iff.1 hnil
      cases raw with
      | nil => rfl
      | cons next raw =>
        obtain ⟨_, _, heq, -⟩ := of_mapM_cons hothers
        cases heq
    rw [List.map_cons]
    rcases outline_of_segment? hs with hout | ⟨_, _, rfl, hout⟩
    · rw [hout]
      cases first with
      | root => exact follows_outline hothers hraw
      | name key => exact ⟨⟨hraw.1.1, hraw.1.2 ∘ hlast⟩, follows_outline hothers hraw.2⟩
      | _ => exact ⟨trivial, follows_outline hothers hraw.2⟩
    · rw [hout]
      exact ⟨trivial, follows_outline hothers hraw.2⟩

theorem allPrintable_of_mapM {n : Nat} {raw : List RawSegment} {segments : List Segment}
    (hinner : ∀ (source : List Char) (key : Expr), source.length < n →
      parse (String.ofList source) = .ok key → key.floats = [] → key.Printable)
    (hwithin : ∀ s ∈ raw, s.Within n) (h : raw.mapM segment? = some segments)
    (hfloats : Segment.listFloats segments = []) : Segment.AllPrintable segments := by
  induction raw generalizing segments with
  | nil =>
    cases h
    trivial
  | cons first raw ih =>
    obtain ⟨s, others, rfl, hs, hothers⟩ := of_mapM_cons h
    have hrest := fun hfloats =>
      ih (fun s hmem => hwithin s (List.mem_cons_of_mem first hmem)) hothers hfloats
    cases first with
    | dynamic source offset =>
      obtain ⟨key, hkey, rfl⟩ := Option.map_eq_some_iff.1 hs
      obtain ⟨hkeyFloats, hotherFloats⟩ := List.append_eq_nil_iff.1 hfloats
      have hparse := Outcome.of_toOption hkey
      exact ⟨hinner source key (hwithin _ (List.mem_cons_self ..)) hparse hkeyFloats,
        hrest hotherFloats⟩
    | _ =>
      cases hs
      exact ⟨trivial, hrest hfloats⟩

/-- What phrases stand for is printable, if it has no floats. -/
def Category.Printable : (c : Category) → c.Value → Prop
  | .expression _, e => Expr.floats e = [] → Expr.Printable e
  | .arguments, es => Expr.listFloats es = [] → Expr.AllPrintable es

theorem Phrase.printable_tree {n : Nat}
    (hinner : ∀ (source : List Char) (key : Expr), source.length < n →
      parse (String.ofList source) = .ok key → key.floats = [] → key.Printable)
    {c : Category} (t : Phrase c) (h : ∀ l ∈ t.lexemes, IsSpelled l ∧ l.Within n) :
    c.Printable t.tree := by
  induction t with
  | binary op _ left right ihl ihr =>
    intro hfloats
    obtain ⟨hleft, hright⟩ := List.append_eq_nil_iff.1 hfloats
    exact ⟨ihl (fun l hl => h l (by simp [Phrase.lexemes, hl])) hleft,
      ihr (fun l hl => h l (by simp [Phrase.lexemes, hl])) hright⟩
  | tighter _ t ih => exact ih h
  | unary op operand ih => exact ih fun l hl => h l (by simp [Phrase.lexemes, hl])
  | literal v =>
    intro hfloats
    have hspelled := (h v.lexeme (List.mem_singleton_self _)).1
    cases v with
    | number n =>
      cases n with
      | int i => exact hspelled
      | float f => cases hfloats
    | _ => trivial
  | path raw segments hsegments =>
    intro hfloats
    obtain ⟨hpath, hwithin⟩ := h (.path raw) (List.mem_singleton_self _)
    exact ⟨isPath_outline hsegments hpath,
      allPrintable_of_mapM hinner hwithin hsegments hfloats⟩
  | paren t ih => exact ih fun l hl => h l (by simp [Phrase.lexemes, hl])
  | emptyCall name =>
    intro _
    exact ⟨(h (.function name) (List.mem_cons_self ..)).1, trivial⟩
  | call name args ih =>
    intro hfloats
    exact ⟨(h (.function name) (List.mem_cons_self ..)).1,
      ih (fun l hl => h l (by simp [Phrase.lexemes, hl])) hfloats⟩
  | last t ih =>
    intro hfloats
    exact ⟨ih h (List.append_eq_nil_iff.1 hfloats).1, trivial⟩
  | more first rest ihf ihr =>
    intro hfloats
    obtain ⟨hfirst, hrest⟩ := List.append_eq_nil_iff.1 hfloats
    exact ⟨ihf (fun l hl => h l (by simp [Phrase.lexemes, hl])) hfirst,
      ihr (fun l hl => h l (by simp [Phrase.lexemes, hl])) hrest⟩

/-- What parsing gives is printable, if it has no floats. -/
theorem printable_of_parse {source : String} {e : Expr} (h : parse source = .ok e)
    (hfloats : e.floats = []) : e.Printable := by
  induction hn : source.toList.length using Nat.strongRecOn generalizing source e with
  | _ n ih =>
    have hwhole := toOption_parse source
    rw [h, whole?] at hwhole
    split at hwhole
    · cases hwhole
    · cases hwhole
      trivial
    · rename_i tokens _ hscan
      obtain ⟨t, hlexemes, rfl⟩ := foldlM_next?_iff.1 hwhole.symm
      have hinner (inner : List Char) (key : Expr) (hlt : inner.length < source.toList.length)
          (hkey : parse (String.ofList inner) = .ok key) (hfloats : key.floats = []) :
          key.Printable :=
        ih inner.length (hn ▸ hlt) hkey hfloats (by rw [String.toList_ofList])
      refine t.printable_tree hinner (fun l hl => ?_) hfloats
      rw [hlexemes] at hl
      obtain ⟨token, htoken, rfl⟩ := List.mem_map.1 hl
      exact ⟨isSpelled_scanFrom hscan token htoken, within_of_scan hscan token htoken⟩

/-- Printing undoes parsing: the text of what was parsed is parsed to the same expression. -/
theorem parse_text {source : String} {e : Expr} (h : parse source = .ok e)
    (hfloats : e.floats = []) : parse e.text = .ok e :=
  parse_text_of_printable (printable_of_parse h hfloats)

/-- A keyword that heads a path, a quote within a string in brackets, the root on its own and a
call. -/
theorem parse_text_keywords : ∃ e, parse "not true/['it\\'s'+x]/.. and f( /, .,-3 )" = .ok e ∧
    e.floats = [] ∧ e.text = "((not true/[('it\\'s' + x)]/..) and f(/, ., (-3)))" ∧
      parse e.text = .ok e := by
  have h : (parse "not true/['it\\'s'+x]/.. and f( /, .,-3 )").toOption.any (fun e =>
      e.floats.isEmpty && e.text == "((not true/[('it\\'s' + x)]/..) and f(/, ., (-3)))") := by
    decide +kernel
  obtain ⟨e, hparse, htest⟩ := Outcome.exists_of_any h
  obtain ⟨hfloats, htext⟩ := Bool.and_eq_true_iff.1 htest
  have hnone := List.isEmpty_iff.1 hfloats
  exact ⟨e, hparse, hnone, eq_of_beq htext, parse_text hparse hnone⟩

end Expr

end XmlTemplate
