import XmlTemplate.Proofs.Expr.Byte
import XmlTemplate.Proofs.Expr.Enclosed

/-!
# Where tokens and errors are

Tokens start between characters of the text, one behind the other, with nothing but white space in
between. An error is raised in the text or in one of the texts in brackets in it, at a place of that
text; as such a text lies between its brackets at its offset, so does the error.
-/

namespace XmlTemplate

/-! ## Offsets between characters -/

/-- A character of the text starts at the byte offset, or the text ends there. -/
def IsBoundary (source : List Char) (offset : Nat) : Prop :=
  ∃ before after, source = before ++ after ∧ offset = Text.byteSize before

namespace IsBoundary

variable {source : List Char} {offset : Nat}

theorem le (h : IsBoundary source offset) : offset ≤ Text.byteSize source := by
  obtain ⟨before, after, rfl, rfl⟩ := h
  rw [Text.byteSize_append]
  exact Nat.le_add_right ..

theorem of_suffix {rest : List Char} (h : rest <:+ source) :
    IsBoundary source (Token.offsetOf (Text.byteSize source) rest) := by
  obtain ⟨before, rfl⟩ := h
  refine ⟨before, rest, rfl, ?_⟩
  rw [Token.offsetOf, Text.byteSize_append]
  omega

theorem shift {inner : List Char} (h : IsBoundary inner offset) (before after : List Char) :
    IsBoundary (before ++ (inner ++ after)) (Text.byteSize before + offset) := by
  obtain ⟨front, back, rfl, rfl⟩ := h
  exact ⟨before ++ front, back ++ after, by simp, by simp⟩

end IsBoundary

theorem utf8ByteSize_eq (s : String) : s.utf8ByteSize = Text.byteSize s.toList := by
  have hsize (cs : List Char) : (String.ofList cs).utf8ByteSize = Text.byteSize cs := by
    induction cs with
    | nil => rfl
    | cons c cs ih => simp [Text.byteSize, ← ih]
  rw [← hsize, String.ofList_toList]

/-- These offsets are the valid positions of strings. -/
theorem isBoundary_iff {s : String} {offset : Nat} :
    IsBoundary s.toList offset ↔ String.Pos.Raw.IsValid s ⟨offset⟩ := by
  rw [String.Pos.Raw.isValid_iff_exists_append]
  constructor
  · rintro ⟨before, after, hs, rfl⟩
    refine ⟨String.ofList before, String.ofList after, ?_, ?_⟩
    · rw [← String.toList_inj]
      simp [hs]
    · have hsize := utf8ByteSize_eq (String.ofList before)
      rw [String.toList_ofList] at hsize
      exact congrArg String.Pos.Raw.mk hsize.symm
  · rintro ⟨before, after, rfl, hoffset⟩
    refine ⟨before.toList, after.toList, String.toList_append, ?_⟩
    rw [← utf8ByteSize_eq]
    exact congrArg String.Pos.Raw.byteIdx hoffset

/-- Texts start at these offsets and nowhere else. -/
theorem isSome_from?_iff {source : List Char} {offset : Nat} :
    (Token.Byte.from? source offset).isSome ↔ IsBoundary source offset := by
  rw [Option.isSome_iff_exists]
  constructor
  · rintro ⟨after, h⟩
    obtain ⟨before, rfl, rfl⟩ := Token.Byte.exists_of_from? h
    exact ⟨before, after, rfl, rfl⟩
  · rintro ⟨before, after, rfl, rfl⟩
    exact ⟨after, Token.Byte.from?_append before after⟩

namespace Token

/-! ## Tokens -/

variable {total : Nat} {source text : List Char} {tokens : List Token}

theorem Tiled.liesIn (h : Tiled total text tokens) :
    ∀ t ∈ tokens, ∀ s ∈ t.lexeme.segments, s.LiesIn total text := by
  induction h with
  | blank => nofun
  | @token blanks text rest l others hblanks hnext _ ih =>
    have hread := cut_nextLexeme total text
    rw [hnext] at hread
    have hrest : rest <:+ blanks ++ text := hread.closedTo.suffix.trans (List.suffix_append ..)
    intro t ht s hs
    rcases List.mem_cons.1 ht with rfl | ht
    · exact (hread.liesIn s hs).mono (List.suffix_append ..)
    · exact (ih t ht s hs).mono hrest

/-- A token starts where a rest of the text does that is not empty. -/
theorem Tiled.exists_rest (h : Tiled total text tokens) :
    ∀ t ∈ tokens, ∃ rest, rest <:+ text ∧ rest ≠ [] ∧ t.offset = offsetOf total rest := by
  induction h with
  | blank => nofun
  | @token blanks text rest l others hblanks hnext _ ih =>
    have hread := cut_nextLexeme total text
    rw [hnext] at hread
    have hrest : rest <:+ blanks ++ text := hread.closedTo.suffix.trans (List.suffix_append ..)
    intro t ht
    rcases List.mem_cons.1 ht with rfl | ht
    · refine ⟨text, List.suffix_append .., ?_, rfl⟩
      rintro rfl
      cases hnext
    · obtain ⟨after, hafter, hne, hoffset⟩ := ih t ht
      exact ⟨after, hafter.trans hrest, hne, hoffset⟩

/-- Every token starts behind the ones before it. -/
theorem Tiled.pairwise (h : Tiled total text tokens) (htext : Text.byteSize text ≤ total) :
    (tokens.map Token.offset).Pairwise (· < ·) := by
  induction h with
  | blank => exact .nil
  | @token blanks text rest l others hblanks hnext hothers ih =>
    have hread := cut_nextLexeme total text
    rw [hnext] at hread
    have hrest : rest <:+ text := hread.closedTo.suffix
    have hshorter : rest.length < text.length := length_of_nextLexeme hnext
    rw [Text.byteSize_append] at htext
    have hsize := Text.byteSize_le_of_suffix hrest
    refine List.pairwise_cons.2 ⟨fun offset hmem => ?_, ih (by omega)⟩
    obtain ⟨t, ht, rfl⟩ := List.mem_map.1 hmem
    obtain ⟨after, hafter, -, hoffset⟩ := hothers.exists_rest t ht
    rw [hoffset]
    refine offsetOf_lt (hafter.trans hrest) ?_ (by omega)
    rintro rfl
    exact absurd hafter.length_le (Nat.not_le.2 hshorter)

end Token

namespace Expr

/-! ## Errors of the parser -/

namespace Parser

variable {inner : List Char → Nat → Except SyntaxError Expr} {e : SyntaxError}

/-- The error is that of a text in the brackets of a segment. -/
def IsInner (inner : List Char → Nat → Except SyntaxError Expr) (held : List RawSegment)
    (e : SyntaxError) : Prop :=
  ∃ text offset, .dynamic text offset ∈ held ∧ inner text offset = .error e

theorem IsInner.mono {held held' : List RawSegment} (h : IsInner inner held e)
    (hheld : held ⊆ held') : IsInner inner held' e := by
  obtain ⟨text, offset, hmem, hinner⟩ := h
  exact ⟨text, offset, hheld hmem, hinner⟩

theorem isInner_of_segments {raw : List RawSegment} (h : segments inner raw = .error e) :
    IsInner inner raw e := by
  induction raw with
  | nil => cases h
  | cons first rest ih =>
    have htail {f : List Segment → List Segment} (h : (segments inner rest).map f = .error e) :
        IsInner inner (first :: rest) e :=
      (ih (Outcome.of_map_eq_error h)).mono (List.subset_cons_self ..)
    cases first with
    | dynamic text offset =>
      simp only [segments] at h
      cases hinner : inner text offset with
      | error e' =>
        rw [hinner] at h
        cases h
        exact ⟨text, offset, List.mem_cons_self .., hinner⟩
      | ok key =>
        rw [hinner] at h
        exact htail h
    | _ => exact htail h

theorem isInner_of_operand? {l : Lexeme} (h : operand? inner l = some (.error e)) :
    IsInner inner l.segments e := by
  cases l with
  | path raw => exact isInner_of_segments (Outcome.of_map_eq_error (Option.some.inj h))
  | _ => cases h

theorem offset_of_finish {p : Parser} {offset : Nat} (h : finish p offset = .error e) :
    e.offset = offset := by
  obtain ⟨frames, focus⟩ := p
  cases focus with
  | awaiting =>
    cases h
    rfl
  | holding operand =>
    simp only [finish] at h
    split at h
    · cases h
    · cases h
      rfl

/-- A lexeme is refused where it stands, or for what stands in its brackets. -/
theorem offset_or_isInner_of_step {p : Parser} {l : Lexeme} {offset : Nat}
    (h : step inner p l offset = .error e) : e.offset = offset ∨ IsInner inner l.segments e := by
  obtain ⟨frames, focus⟩ := p
  cases focus with
  | holding operand =>
    simp only [step] at h
    split at h
    · cases h
    · split at h
      all_goals
        cases h
        try exact .inl rfl
  | awaiting mayClose =>
    simp only [step] at h
    split at h
    · cases h
    · split at h
      · cases h
      · rename_i herror
        cases h
        exact .inr (isInner_of_operand? herror)
      · split at h
        all_goals
          cases h
          try exact .inl rfl

/-- An error is at the end, at a token, or in the brackets of a token. -/
theorem offset_or_isInner_of_run {base endOffset : Nat} {p : Parser} {tokens : List Token}
    (h : run inner base endOffset p tokens = .error e) :
    e.offset = endOffset ∨ (∃ t ∈ tokens, e.offset = base + t.offset) ∨
      ∃ t ∈ tokens, IsInner inner t.lexeme.segments e := by
  induction tokens generalizing p with
  | nil => exact .inl (offset_of_finish h)
  | cons token rest ih =>
    rw [run] at h
    split at h
    · rename_i herror
      cases h
      have hfirst := List.mem_cons_self (a := token) (l := rest)
      exact .inr ((offset_or_isInner_of_step herror).imp
        (fun hoffset => ⟨token, hfirst, hoffset⟩) fun hinner => ⟨token, hfirst, hinner⟩)
    · rcases ih h with hend | ⟨t, ht, hoffset⟩ | ⟨t, ht, hinner⟩
      · exact .inl hend
      · exact .inr (.inl ⟨t, List.mem_cons_of_mem _ ht, hoffset⟩)
      · exact .inr (.inr ⟨t, List.mem_cons_of_mem _ ht, hinner⟩)

end Parser

/-- The texts that are parsed for a text, each at its offset: the text itself, and what stands in
the brackets of the tokens of one of them. -/
inductive IsPart (source : List Char) : Nat → List Char → Prop where
  | whole : IsPart source 0 source
  | bracketed {base : Nat} {text : List Char} {tokens : List Token} {token : Token}
      {inner : List Char} {offset : Nat} (h : IsPart source base text)
      (htokens : Token.scan text = .ok tokens) (htoken : token ∈ tokens)
      (hinner : .dynamic inner offset ∈ token.lexeme.segments) :
      IsPart source (base + offset) inner

/-- The error is found in the text itself, and not in brackets of its tokens: the text is not cut
into tokens, or the parser refuses a token or the end. -/
def Raises (base : Nat) (text : List Char) (e : SyntaxError) : Prop :=
  (∃ e', Token.scan text = .error e' ∧ e = e'.shift base) ∨
    ∃ tokens, Token.scan text = .ok tokens ∧
      (e.offset = base + Text.byteSize text ∨ ∃ t ∈ tokens, e.offset = base + t.offset)

variable {source : List Char} {base : Nat} {e : SyntaxError}

theorem raises_or_of_parseFrom (h : parseFrom base source = .error e) :
    Raises base source e ∨
      ∃ tokens, Token.scan source = .ok tokens ∧ ∃ t ∈ tokens,
        ∃ inner offset, .dynamic inner offset ∈ t.lexeme.segments ∧
          inner.length < source.length ∧ parseFrom (base + offset) inner = .error e := by
  rw [parseFrom] at h
  split at h
  · rename_i e' herror
    cases h
    exact .inl (.inl ⟨e', herror, rfl⟩)
  · cases h
  · rename_i tokens _ htokens
    rcases Parser.offset_or_isInner_of_run h with hend | ⟨t, ht, hoffset⟩ | ⟨t, ht, hinner⟩
    · exact .inl (.inr ⟨tokens, htokens, .inl hend⟩)
    · exact .inl (.inr ⟨tokens, htokens, .inr ⟨t, ht, hoffset⟩⟩)
    · obtain ⟨inner, offset, hmem, herror⟩ := hinner
      have hshorter : inner.length < source.length :=
        ((Token.tiled_of_scanFrom htokens).liesIn t ht _ hmem).within
      simp only [if_pos hshorter] at herror
      exact .inr ⟨tokens, htokens, t, ht, inner, offset, hmem, hshorter, herror⟩

theorem exists_brackets {tokens : List Token} (htokens : Token.scan source = .ok tokens)
    {t : Token} (ht : t ∈ tokens) {inner : List Char} {offset : Nat}
    (hinner : .dynamic inner offset ∈ t.lexeme.segments) :
    ∃ before after, source = before ++ '[' :: (inner ++ ']' :: after) ∧
      offset = Text.byteSize before + 1 := by
  obtain ⟨before, after, hsource, hoffset⟩ :=
    (Token.tiled_of_scanFrom htokens).liesIn t ht _ hinner
  refine ⟨before, after, hsource, ?_⟩
  have hbracket : '['.utf8Size = 1 := rfl
  rw [hoffset, Token.offsetOf, hsource, Text.byteSize_append, Text.byteSize, hbracket]
  omega

theorem Raises.exists_boundary (h : Raises base source e) :
    ∃ offset, IsBoundary source offset ∧ e.offset = base + offset := by
  rcases h with ⟨e', herror, rfl⟩ | ⟨tokens, htokens, hend | ⟨t, ht, hoffset⟩⟩
  · obtain ⟨rest, hrest, hoffset⟩ := Token.exists_place_of_scanFrom herror
    refine ⟨e'.offset, hoffset ▸ .of_suffix hrest, ?_⟩
    rw [SyntaxError.shift, Nat.add_comm]
  · exact ⟨Text.byteSize source, ⟨source, [], by simp, rfl⟩, hend⟩
  · obtain ⟨rest, hrest, -, hplace⟩ := (Token.tiled_of_scanFrom htokens).exists_rest t ht
    exact ⟨t.offset, hplace ▸ .of_suffix hrest, hoffset⟩

/-- An error is at a place of the text that is parsed. -/
theorem exists_boundary_of_parseFrom (h : parseFrom base source = .error e) :
    ∃ offset, IsBoundary source offset ∧ e.offset = base + offset := by
  induction hlength : source.length using Nat.strongRecOn generalizing base source with
  | _ length ih =>
    rcases raises_or_of_parseFrom h with
      hraises | ⟨tokens, htokens, t, ht, inner, offset, hinner, hshorter, herror⟩
    · exact hraises.exists_boundary
    · obtain ⟨before, after, hsource, rfl⟩ := exists_brackets htokens ht hinner
      obtain ⟨place, hplace, hoffset⟩ := ih _ (hlength ▸ hshorter) herror rfl
      have hshift := hplace.shift (before ++ ['[']) (']' :: after)
      have hbracket : Text.byteSize (before ++ ['[']) = Text.byteSize before + 1 :=
        Text.byteSize_append ..
      refine ⟨Text.byteSize before + 1 + place, ?_, by omega⟩
      rw [hsource, ← hbracket]
      simpa using hshift

/-- An error is raised in one of the texts that are parsed. -/
theorem IsPart.exists_raises {text : List Char} (hpart : IsPart source base text)
    (h : parseFrom base text = .error e) :
    ∃ base' text', IsPart source base' text' ∧ parseFrom base' text' = .error e ∧
      Raises base' text' e := by
  induction hlength : text.length using Nat.strongRecOn generalizing base text with
  | _ length ih =>
    rcases raises_or_of_parseFrom h with
      hraises | ⟨tokens, htokens, t, ht, inner, offset, hinner, hshorter, herror⟩
    · exact ⟨base, text, hpart, h, hraises⟩
    · exact ih _ (hlength ▸ hshorter) (hpart.bracketed htokens ht hinner) herror rfl

/-- The texts that are parsed for a text are the text and texts between brackets in it. -/
theorem IsPart.eq_or_exists_brackets {text : List Char} (h : IsPart source base text) :
    (base = 0 ∧ text = source) ∨
      ∃ before after, source = before ++ '[' :: (text ++ ']' :: after) ∧
        base = Text.byteSize before + 1 := by
  induction h with
  | whole => exact .inl ⟨rfl, rfl⟩
  | @bracketed base text tokens t inner offset _ htokens ht hinner ih =>
    right
    obtain ⟨before, after, htext, rfl⟩ := exists_brackets htokens ht hinner
    rcases ih with ⟨rfl, rfl⟩ | ⟨front, back, rfl, rfl⟩
    · exact ⟨before, after, htext, Nat.zero_add _⟩
    · refine ⟨front ++ '[' :: before, after ++ ']' :: back, by simp [htext], ?_⟩
      have hbracket : '['.utf8Size = 1 := rfl
      rw [Text.byteSize_append, Text.byteSize, hbracket]
      omega

/-- Tokens are cut out of every text by slices between its characters, one behind the other with
white space in between. Every error is at a place of the text, and an error in brackets is behind
the opening bracket and not behind the closing one. -/
theorem scan_parse_places (source : String) :
    (Token.Byte.scan? source.toList = some (Token.scan source.toList) ∧
      ∀ offset, (Token.Byte.from? source.toList offset).isSome ↔
        String.Pos.Raw.IsValid source ⟨offset⟩) ∧
    (∀ tokens, Token.scan source.toList = .ok tokens →
      Token.Tiled source.utf8ByteSize source.toList tokens ∧
      (tokens.map Token.offset).Pairwise (· < ·) ∧
      ∀ t ∈ tokens, t.offset < source.utf8ByteSize ∧
        String.Pos.Raw.IsValid source ⟨t.offset⟩) ∧
    (∀ e, Token.scan source.toList = .error e ∨ parse source = .error e →
      e.offset ≤ source.utf8ByteSize ∧ String.Pos.Raw.IsValid source ⟨e.offset⟩) ∧
    (∀ e, parse source = .error e → ∃ base text, IsPart source.toList base text ∧
      parseFrom base text = .error e ∧ Raises base text e) ∧
    ∀ base text, IsPart source.toList base text →
      (base = 0 ∧ text = source.toList) ∨
      ∃ before after, source.toList = before ++ '[' :: (text ++ ']' :: after) ∧
        base = Text.byteSize before + 1 ∧
        ∀ e, parseFrom base text = .error e →
          Text.byteSize before < e.offset ∧ e.offset ≤ Text.byteSize (before ++ '[' :: text) := by
  have hplace {offset : Nat} (h : IsBoundary source.toList offset) :
      offset ≤ source.utf8ByteSize ∧ String.Pos.Raw.IsValid source ⟨offset⟩ :=
    ⟨utf8ByteSize_eq source ▸ h.le, isBoundary_iff.1 h⟩
  refine ⟨⟨Token.Byte.scan?_eq _, fun offset => isSome_from?_iff.trans isBoundary_iff⟩, ?_, ?_, ?_,
    ?_⟩
  · intro tokens htokens
    have htiled := Token.tiled_of_scanFrom htokens
    refine ⟨utf8ByteSize_eq source ▸ htiled, htiled.pairwise (Nat.le_refl _), fun t ht => ?_⟩
    obtain ⟨rest, hrest, hne, hoffset⟩ := htiled.exists_rest t ht
    have hboundary := IsBoundary.of_suffix hrest
    rw [← hoffset] at hboundary
    refine ⟨?_, (hplace hboundary).2⟩
    rw [utf8ByteSize_eq, hoffset]
    exact Token.offsetOf_lt List.nil_suffix hne.symm (Text.byteSize_le_of_suffix hrest)
  · rintro e (herror | herror)
    · obtain ⟨rest, hrest, hoffset⟩ := Token.exists_place_of_scanFrom herror
      exact hplace (hoffset ▸ .of_suffix hrest)
    · obtain ⟨offset, hoffset, he⟩ := exists_boundary_of_parseFrom herror
      rw [Nat.zero_add] at he
      exact hplace (he ▸ hoffset)
  · exact fun e herror => IsPart.whole.exists_raises herror
  · intro base text hpart
    refine hpart.eq_or_exists_brackets.imp_right fun ⟨before, after, hsource, hbase⟩ =>
      ⟨before, after, hsource, hbase, fun e herror => ?_⟩
    obtain ⟨offset, hoffset, he⟩ := exists_boundary_of_parseFrom herror
    have hle := hoffset.le
    have hbracket : '['.utf8Size = 1 := rfl
    rw [Text.byteSize_append, Text.byteSize, hbracket]
    omega

/-- An error at the end of the text in the inner one of two pairs of brackets, behind a character
of two bytes. -/
theorem scan_parse_places_nested :
    parse "[['é' +]]" = .error ⟨8, .unexpectedEnd⟩ ∧
      parseFrom 2 "'é' +".toList = .error ⟨8, .unexpectedEnd⟩ ∧
      ∃ before after, "[['é' +]]".toList = before ++ '[' :: ("'é' +".toList ++ ']' :: after) ∧
        Text.byteSize before < 8 ∧ 8 ≤ Text.byteSize (before ++ '[' :: "'é' +".toList) := by
  have hscan : Token.scan "'é' +".toList = .ok [⟨.string "é", 0⟩, ⟨.plus, 5⟩] := by decide +kernel
  have hclosed : Token.Closed "'é' +".toList := (Token.tiled_of_scanFrom hscan).closed
  have hinner : parseFrom 0 "'é' +".toList = .error ⟨6, .unexpectedEnd⟩ := by
    rw [parseFrom, hscan]
    rfl
  have hnested : parseFrom 2 "'é' +".toList = .error ⟨8, .unexpectedEnd⟩ := by
    rw [parseFrom_add 0 2, hinner]
    rfl
  have hparse : parse "[['é' +]]" = .error ⟨8, .unexpectedEnd⟩ := by
    have houter : parse "[['é' +]]" = _ := parseFrom_bracketed hclosed.bracketed
    rw [houter, parseFrom_bracketed hclosed, hinner]
    rfl
  have hpart : IsPart "[['é' +]]".toList 2 "'é' +".toList :=
    .bracketed (.bracketed .whole (Token.scan_bracketed hclosed.bracketed)
      (List.mem_singleton_self _) (List.mem_singleton_self _)) (Token.scan_bracketed hclosed)
      (List.mem_singleton_self _) (List.mem_singleton_self _)
  rcases (scan_parse_places "[['é' +]]").2.2.2.2 2 _ hpart with
    ⟨hzero, -⟩ | ⟨before, after, hsource, -, hoffset⟩
  · cases hzero
  · exact ⟨hparse, hnested, before, after, hsource, hoffset _ hnested⟩

end Expr

end XmlTemplate
