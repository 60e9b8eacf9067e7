import XmlTemplate.Proofs.Expr.Lexeme
import XmlTemplate.Proofs.Outcome

/-!
# Reading printed expressions

The text of a printable expression is read back as the expression, wherever it stands: alone, in
brackets, or in front of a blank and an operator, a comma or a closing parenthesis.
-/

namespace XmlTemplate

namespace Token

/-! ## Paths -/

/-- What a printed segment stands in front of. -/
def Cuts (rest : List Char) : Prop := (∃ more, rest = '/' :: more) ∨ Ends rest

theorem Cuts.head {p : Char → Bool} (h : Cuts rest)
    (hp : ['/', ' ', ')', ','].all (fun c => !p c)) : rest.head?.any p = false := by
  simp only [List.all_cons, Bool.and_eq_true, Bool.not_eq_true'] at hp
  rcases h with ⟨more, rfl⟩ | h
  · simp [hp.1]
  · exact h.head (by simp [hp.2])

/-- The keys in brackets are read back. -/
def KeysParse (segments : List Segment) : Prop :=
  ∀ key : Expr, .dynamic key ∈ segments →
    Closed key.chars ∧ Expr.parse (String.ofList key.chars) = .ok key

theorem segment_eq_name {c : Char} (h : continuesName c = true) (more : List Char) :
    segment total (c :: more) =
      .ok (.name (String.ofList (c :: more.takeWhile continuesName)),
        more.dropWhile continuesName) := by
  have hmarks : c ∉ ['.', '['] := not_mem_of_apart h (by decide)
  simp only [List.mem_cons, List.not_mem_nil, or_false, not_or] at hmarks
  unfold segment
  split
  · simp_all
  · simp_all
  · simp_all
  · rename_i heq
    cases heq
    rw [if_pos h]
  · simp_all

variable (total) in
theorem exists_segment {s : Segment} (hs : Follows s.outline) (hkeys : KeysParse [s])
    (hrest : Cuts rest) :
    ∃ raw, segment total (s.chars ++ rest) = .ok (raw, rest) ∧ Expr.segment? raw = some s := by
  cases s with
  | root => exact hs.elim
  | current =>
    refine ⟨.current, ?_, rfl⟩
    have hpoint := hrest.head (p := (· == '.')) (by decide)
    rw [Segment.chars]
    cases rest with
    | nil => rfl
    | cons c rest =>
      have hc : c ≠ '.' := by simpa using hpoint
      simp [segment, hc]
  | parent => exact ⟨.parent, rfl, rfl⟩
  | name key =>
    obtain ⟨hne, hname⟩ : IsName key.toList := hs
    obtain ⟨c, more, hkey⟩ := List.exists_cons_of_ne_nil hne
    have hend := hrest.head (p := continuesName) (by decide)
    rw [hkey] at hname
    have hc := hname c (List.mem_cons_self ..)
    have hmore : ∀ d ∈ more, continuesName d = true :=
      fun d hd => hname d (List.mem_cons_of_mem c hd)
    refine ⟨.name key, ?_, rfl⟩
    rw [Segment.chars, hkey, List.cons_append, segment_eq_name hc,
      takeWhile_append_eq hmore hend, dropWhile_append_eq hmore hend, ← hkey, String.ofList_toList]
  | dynamic key =>
    obtain ⟨hclosed, hparse⟩ := hkeys key (List.mem_singleton_self _)
    refine ⟨.dynamic key.chars (offsetOf total (key.chars ++ ']' :: rest)), ?_, ?_⟩
    · have hbody := hclosed.bracketBody? rest
      simp [Segment.chars, segment, hbody]
    · simp [Expr.segment?, hparse, Except.toOption]

theorem startsSegment_chars {s : Segment} (hs : Follows s.outline) (rest : List Char) :
    startsSegment (s.chars ++ rest) = true := by
  cases s with
  | root => exact hs.elim
  | name key =>
    obtain ⟨hne, hname⟩ : IsName key.toList := hs
    obtain ⟨c, more, hkey⟩ := List.exists_cons_of_ne_nil hne
    have hc := hname c (by simp [hkey])
    simp [Segment.chars, hkey, startsSegment, hc]
  | _ => rfl

theorem startsSegment_pathChars {s : Segment} (hs : Follows s.outline) (segments : List Segment)
    (rest : List Char) : startsSegment (Segment.pathChars (s :: segments) ++ rest) = true := by
  by_cases hlast : segments = []
  · subst hlast
    exact startsSegment_chars hs rest
  · have hroot : s ≠ .root := by
      rintro rfl
      exact hs.elim
    rw [Segment.pathChars_cons hroot hlast, List.append_assoc]
    exact startsSegment_chars hs _

theorem segments_last {text after : List Char} {first : RawSegment}
    (h : segment total text = .ok (first, after)) (hafter : Ends after) :
    segments total text = .ok ([first], after) := by
  rw [segments]
  split
  · rename_i heq
    rw [h] at heq
    cases heq
  · rename_i more heq
    rw [h] at heq
    cases heq
    exact absurd rfl (hafter.ne_cons (by decide) more)
  · rename_i heq
    rw [h] at heq
    cases heq
    rfl

theorem segments_slash {text more after : List Char} {first : RawSegment} {others : List RawSegment}
    (h : segment total text = .ok (first, '/' :: more)) (hmore : startsSegment more = true)
    (hothers : segments total more = .ok (others, after)) :
    segments total text = .ok (first :: others, after) := by
  rw [segments]
  split
  · rename_i heq
    rw [h] at heq
    cases heq
  · rename_i more heq
    rw [h] at heq
    cases heq
    rw [if_pos hmore, hothers]
  · rename_i hslash heq
    rw [h] at heq
    cases heq
    exact (hslash _ rfl).elim

variable (total) in
theorem exists_segments {found : List Segment} (hne : found ≠ [])
    (hfollows : ∀ s ∈ found.map Segment.outline, Follows s) (hkeys : KeysParse found)
    (hrest : Ends rest) :
    ∃ raw, segments total (Segment.pathChars found ++ rest) = .ok (raw, rest) ∧
      raw.mapM Expr.segment? = some found := by
  induction found with
  | nil => exact absurd rfl hne
  | cons s others ih =>
    have hs : Follows s.outline := hfollows _ (by simp)
    have hkey : KeysParse [s] := fun key hmem => hkeys key (by simp_all)
    by_cases hlast : others = []
    · subst hlast
      obtain ⟨raw, hraw, hsegment⟩ := exists_segment total hs hkey (.inr hrest)
      exact ⟨[raw], segments_last hraw hrest, by simp [hsegment]⟩
    · have hothers : ∀ s ∈ others.map Segment.outline, Follows s := fun s hmem =>
        hfollows s (List.mem_cons_of_mem _ hmem)
      obtain ⟨raws, hraws, hsegments⟩ :=
        ih hlast hothers fun key hmem => hkeys key (List.mem_cons_of_mem _ hmem)
      obtain ⟨raw, hraw, hsegment⟩ := exists_segment total hs hkey
        (.inl ⟨Segment.pathChars others ++ rest, rfl⟩)
      have hroot : s ≠ .root := by
        rintro rfl
        exact hs.elim
      obtain ⟨next, more, rfl⟩ := List.exists_cons_of_ne_nil hlast
      have hstarts := startsSegment_pathChars (hothers next.outline (by simp)) more rest
      refine ⟨raw :: raws, ?_, by simp [hsegment, hsegments]⟩
      rw [Segment.pathChars_cons hroot hlast, List.append_assoc, List.cons_append]
      exact segments_slash hraw hstarts hraws

variable (total) in
/-- The first character of a path that starts at the root. -/
theorem pathLexeme_root {found : List Segment}
    (hfollows : ∀ s ∈ found.map Segment.outline, Follows s) (hkeys : KeysParse found)
    (hrest : Ends rest) :
    ∃ raw, pathLexeme total (Segment.pathChars (.root :: found) ++ rest) = .ok (.path raw, rest) ∧
      raw.mapM Expr.segment? = some (.root :: found) := by
  cases found with
  | nil =>
    have hstarts : startsSegment rest = false := by
      have hhead := hrest.head (p := fun c => continuesName c || c == '.' || c == '[') (by decide)
      cases rest with
      | nil => rfl
      | cons c rest => simpa [startsSegment] using hhead
    refine ⟨[.root], ?_, rfl⟩
    simp [Segment.pathChars, Segment.chars, pathLexeme, path, hstarts]
  | cons next more =>
    obtain ⟨raw, hraw, hsegments⟩ :=
      exists_segments total (List.cons_ne_nil next more) hfollows hkeys hrest
    have hstarts := startsSegment_pathChars (hfollows next.outline (by simp)) more rest
    refine ⟨.root :: raw, ?_, by simp [Expr.segment?, hsegments]⟩
    rw [Segment.pathChars_root (List.cons_ne_nil next more), List.cons_append]
    simp [pathLexeme, path, hstarts, hraw]

/-- A path that starts with another segment. -/
theorem pathLexeme_segments {text after : List Char} {raw : List RawSegment}
    (hslash : text.head? ≠ some '/') (h : segments total text = .ok (raw, after)) :
    pathLexeme total text = .ok (.path raw, after) := by
  have hpath : path total text = segments total text := by
    unfold path
    split
    · simp at hslash
    · rfl
  simp [pathLexeme, hpath, h]

theorem nextLexeme_slash : nextLexeme total ('/' :: rest) = pathLexeme total ('/' :: rest) := by
  rw [nextLexeme_eq_otherLexeme (by decide)]
  simp [otherLexeme]

theorem nextLexeme_bracket : nextLexeme total ('[' :: rest) = pathLexeme total ('[' :: rest) := by
  rw [nextLexeme_eq_otherLexeme (by decide)]
  simp [otherLexeme]

theorem nextLexeme_point (h : rest.head?.any Char.isDigit = false) :
    nextLexeme total ('.' :: rest) = pathLexeme total ('.' :: rest) := by
  rw [nextLexeme_eq_otherLexeme (by decide)]
  simp [otherLexeme, h]

/-- After the first segment of a path comes another one or what follows the path. -/
theorem exists_pathChars {first : Segment} (h : first ≠ .root) (others : List Segment)
    (hrest : Ends rest) :
    ∃ after, Segment.pathChars (first :: others) ++ rest = first.chars ++ after ∧ Cuts after := by
  by_cases hlast : others = []
  · subst hlast
    exact ⟨rest, rfl, .inr hrest⟩
  · refine ⟨'/' :: (Segment.pathChars others ++ rest), ?_, .inl ⟨_, rfl⟩⟩
    rw [Segment.pathChars_cons h hlast, List.append_assoc, List.cons_append]

/-- A path that starts with a word is no keyword and no function. -/
theorem nextLexeme_name {key : String} {others : List Segment}
    (h : Leads (others.map Segment.outline = []) (.name key)) (hrest : Ends rest) :
    nextLexeme total (Segment.pathChars (.name key :: others) ++ rest) =
      pathLexeme total (Segment.pathChars (.name key :: others) ++ rest) := by
  obtain ⟨hword, hkeyword⟩ := h
  by_cases hlast : others = []
  · subst hlast
    exact (nextLexeme_word hword).trans (word_alone hword.1 (hkeyword rfl) hrest)
  · rw [Segment.pathChars_cons (s := .name key) nofun hlast, List.append_assoc, List.cons_append]
    exact (nextLexeme_word hword).trans (word_slash hword.1)

theorem IsPath.first {first : RawSegment} {others : List RawSegment}
    (h : IsPath (first :: others)) (hroot : first ≠ .root) :
    Leads (others = []) first ∧ ∀ s ∈ others, Follows s := by
  cases first with
  | root => exact absurd rfl hroot
  | _ => exact h

theorem Leads.follows {isAlone : Prop} {s : RawSegment} (h : Leads isAlone s) : Follows s := by
  cases s with
  | name key => exact h.1.1
  | _ => exact h

variable (total) in
/-- A printed path is one lexeme. -/
theorem exists_path {found : List Segment} (hpath : IsPath (found.map Segment.outline))
    (hkeys : KeysParse found) (hrest : Ends rest) :
    ∃ raw, nextLexeme total (Segment.pathChars found ++ rest) = .ok (.path raw, rest) ∧
      raw.mapM Expr.segment? = some found := by
  cases found with
  | nil => exact hpath.elim
  | cons first others =>
    by_cases hroot : first = .root
    · subst hroot
      obtain ⟨raw, hraw, hsegments⟩ := pathLexeme_root total hpath
        (fun key hmem => hkeys key (List.mem_cons_of_mem _ hmem)) hrest
      refine ⟨raw, ?_, hsegments⟩
      rw [← hraw]
      cases others with
      | nil => exact nextLexeme_slash
      | cons next more => exact nextLexeme_slash
    · obtain ⟨hleads, hothers⟩ := hpath.first (by cases first <;> simp_all [Segment.outline])
      have hfollows : ∀ s ∈ (first :: others).map Segment.outline, Follows s :=
        List.forall_mem_cons.2 ⟨hleads.follows, hothers⟩
      obtain ⟨raw, hraw, hsegments⟩ :=
        exists_segments total (List.cons_ne_nil _ _) hfollows hkeys hrest
      obtain ⟨after, htext, hafter⟩ := exists_pathChars hroot others hrest
      refine ⟨raw, ?_, hsegments⟩
      cases first with
      | root => exact absurd rfl hroot
      | current =>
        rw [htext] at hraw ⊢
        exact (nextLexeme_point (hafter.head (by decide))).trans (pathLexeme_segments nofun hraw)
      | parent =>
        rw [htext] at hraw ⊢
        exact (nextLexeme_point rfl).trans (pathLexeme_segments nofun hraw)
      | dynamic key =>
        rw [htext] at hraw ⊢
        exact nextLexeme_bracket.trans (pathLexeme_segments nofun hraw)
      | name key =>
        refine (nextLexeme_name hleads hrest).trans (pathLexeme_segments ?_ hraw)
        obtain ⟨c, more, hkey⟩ := List.exists_cons_of_ne_nil hleads.1.1.1
        have hc : c ∉ ['/'] := not_mem_of_apart (hleads.1.1.2 c (by simp [hkey])) (by decide)
        simpa [htext, Segment.chars, hkey] using hc

end Token

namespace Expr

/-- The text is cut into the lexemes of a phrase. -/
def Spells (total : Nat) (rest text : List Char) (e : Expr) : Prop :=
  ∃ t : Phrase (.expression 5), t.tree = e ∧ Token.Reads total rest text t.lexemes

/-- An operand is an expression. -/
theorem exists_expression (t : Phrase (.expression 5)) :
    ∃ t' : Phrase (.expression 1), t'.lexemes = t.lexemes ∧ t'.tree = t.tree :=
  Parser.loosen t (show 1 ≤ 5 by decide) (Nat.le_refl 5)

/-- The text is parsed to the expression that it spells. -/
theorem Spells.parse {text : List Char} {e : Expr}
    (h : Spells (Text.byteSize text) [] text e) : parse (String.ofList text) = .ok e := by
  obtain ⟨t, rfl, hreads⟩ := h
  obtain ⟨tokens, hscan, htokens⟩ := hreads.exists_scanFrom
  obtain ⟨t', hlexemes, htree⟩ := exists_expression t
  have hwhole : whole? text = some t.tree := by
    have hrun := (foldlM_next?_iff (e := t.tree)).2 ⟨t', hlexemes, htree⟩
    rw [← htokens] at hrun
    unfold whole? Token.scan
    rw [hscan]
    cases tokens with
    | nil =>
      have hpos := t.length_lexemes_pos
      rw [← htokens] at hpos
      cases hpos
    | cons token tokens => exact hrun
  have hparse := toOption_parse (String.ofList text)
  rw [String.toList_ofList, hwhole] at hparse
  exact Outcome.of_toOption hparse

/-- Operands, signs in front of them and operators between them are phrases again. -/
theorem exists_binary (op : BinaryOp) (left right : Phrase (.expression 5)) :
    ∃ t : Phrase (.expression 1), t.lexemes = left.lexemes ++ op.lexeme :: right.lexemes ∧
      t.tree = .binary op left.tree right.tree := by
  have hlow : 1 ≤ op.level := by cases op <;> decide
  have hhigh : op.level ≤ 5 := Nat.le_succ_of_le op.level_le
  obtain ⟨l, hl, hltree⟩ := Parser.loosen left hhigh (Nat.le_refl 5)
  obtain ⟨r, hr, hrtree⟩ := Parser.loosen right (Nat.succ_le_succ op.level_le) (Nat.le_refl 5)
  obtain ⟨t, ht, htree⟩ := Parser.loosen (.binary op (mem_operators op) l r) hlow hhigh
  refine ⟨t, ?_, ?_⟩
  · rw [ht, Phrase.lexemes, hl, hr]
  · rw [htree, Phrase.tree, hltree, hrtree]

variable {total : Nat} {rest : List Char}

open Token

theorem reads_operator (op : BinaryOp) :
    Reads total rest (' ' :: (op.chars ++ ' ' :: rest)) [op.lexeme] :=
  .blank rfl (.lexeme (nextLexeme_operator op) (.blank rfl .done))

theorem reads_unary (op : UnaryOp) : Reads total rest (op.chars ++ rest) [op.lexeme] := by
  cases op with
  | plus => exact .lexeme rfl .done
  | minus => exact .lexeme rfl .done
  | not =>
    have hword : IsWord ['n', 'o', 't'] := by decide
    exact .lexeme (nextLexeme_keyword hword rfl) (.blank rfl .done)

theorem reads_comma : Reads total rest (',' :: ' ' :: rest) [.comma] :=
  .lexeme rfl (.blank rfl .done)

theorem reads_close : Reads total rest (')' :: rest) [.closeParen] :=
  .lexeme rfl .done

/-- A text in parentheses that spells a phrase is an operand. -/
theorem spells_paren {text : List Char} {t : Phrase (.expression 1)}
    (h : Reads total (')' :: rest) text t.lexemes) : Spells total rest ('(' :: text) t.tree :=
  ⟨.paren t, rfl, .lexeme rfl (h.append reads_close)⟩

theorem spells_literal {v : Literal} (h : v.Printable) (hrest : Ends rest) :
    Spells total rest (v.chars ++ rest) (.literal v) :=
  ⟨.literal v, rfl, .lexeme (nextLexeme_literal h hrest) .done⟩

theorem spells_path {segments : List Segment} (h : IsPath (segments.map Segment.outline))
    (hkeys : KeysParse segments) (hrest : Ends rest) :
    Spells total rest (Segment.pathChars segments ++ rest) (.path segments) := by
  obtain ⟨raw, hraw, hsegments⟩ := exists_path total h hkeys hrest
  exact ⟨.path raw segments hsegments, rfl, .lexeme hraw .done⟩

/-- A name in front of a parenthesis is a function. -/
theorem nextLexeme_function (total : Nat) (rest : List Char) {name : String}
    (h : IsWord name.toList) (hkeyword : keyword? name.toList = none) :
    nextLexeme total (name.toList ++ '(' :: rest) = .ok (.function name, rest) := by
  rw [nextLexeme_word h, word_function h.1 hkeyword, String.ofList_toList]

mutual

/-- A printed expression spells the expression, whatever it stands in front of. -/
theorem spells_chars (e : Expr) (h : e.Printable) (total : Nat) {rest : List Char}
    (hrest : Ends rest) : Spells total rest (e.chars ++ rest) e := by
  cases e with
  | literal v => exact spells_literal h hrest
  | path segments => exact spells_path h.1 (keysParse segments h.2) hrest
  | unary op operand =>
    obtain ⟨t, rfl, hreads⟩ := spells_chars operand h total (.close rest)
    obtain ⟨t', hlexemes, htree⟩ := exists_expression (.unary op t)
    have hunary := (reads_unary op).append hreads
    rw [Phrase.tree] at htree
    rw [Expr.chars, ← htree]
    simp only [List.cons_append, List.append_assoc, List.nil_append]
    exact spells_paren (by rw [hlexemes]; exact hunary)
  | binary op left right =>
    obtain ⟨l, rfl, hl⟩ := spells_chars left h.1 total
      (.operator op (right.chars ++ ')' :: rest))
    obtain ⟨r, rfl, hr⟩ := spells_chars right h.2 total (.close rest)
    obtain ⟨t, hlexemes, htree⟩ := exists_binary op l r
    have hbinary := hl.append ((reads_operator op).append hr)
    rw [Expr.chars, ← htree]
    simp only [List.cons_append, List.append_assoc, List.nil_append]
    exact spells_paren (by rw [hlexemes]; exact hbinary)
  | call name args =>
    have hname := nextLexeme_function total (Expr.argChars args ++ ')' :: rest) h.1.1 h.1.2
    rw [Expr.chars]
    simp only [List.cons_append, List.append_assoc, List.nil_append]
    by_cases hempty : args = []
    · subst hempty
      exact ⟨.emptyCall name, rfl, .lexeme hname reads_close⟩
    · obtain ⟨t, rfl, hreads⟩ := spells_argChars args hempty h.2 total rest
      exact ⟨.call name t, rfl, .lexeme hname (hreads.append reads_close)⟩

theorem keysParse (segments : List Segment) (h : Segment.AllPrintable segments) :
    KeysParse segments := by
  cases segments with
  | nil => nofun
  | cons s others =>
    intro key hmem
    have hothers := keysParse others h.2 key
    cases s with
    | dynamic inner =>
      rcases List.mem_cons.1 hmem with heq | hmem
      · cases heq
        have hspells := spells_chars key h.1 (Text.byteSize key.chars) .nil
        rw [List.append_nil] at hspells
        exact ⟨key.closed_chars h.1, hspells.parse⟩
      · exact hothers hmem
    | _ => simp_all

theorem spells_argChars (args : List Expr) (hne : args ≠ []) (h : Expr.AllPrintable args)
    (total : Nat) (rest : List Char) :
    ∃ t : Phrase .arguments, t.tree = args ∧
      Reads total (')' :: rest) (Expr.argChars args ++ ')' :: rest) t.lexemes := by
  cases args with
  | nil => exact absurd rfl hne
  | cons e others =>
    by_cases hlast : others = []
    · subst hlast
      obtain ⟨t, rfl, hreads⟩ := spells_chars e h.1 total (.close rest)
      obtain ⟨t', hlexemes, htree⟩ := exists_expression t
      exact ⟨.last t', by rw [Phrase.tree, htree], by rw [Phrase.lexemes, hlexemes]; exact hreads⟩
    · obtain ⟨ts, rfl, hothers⟩ := spells_argChars others hlast h.2 total rest
      obtain ⟨t, rfl, hreads⟩ := spells_chars e h.1 total
        (.comma (' ' :: (Expr.argChars ts.tree ++ ')' :: rest)))
      obtain ⟨t', hlexemes, htree⟩ := exists_expression t
      refine ⟨.more t' ts, by rw [Phrase.tree, htree], ?_⟩
      rw [Expr.argChars_cons _ hlast, Phrase.lexemes, hlexemes, List.append_assoc]
      exact hreads.append (reads_comma.append hothers)

end

/-- Printable expressions are read back from their texts. -/
theorem parse_text_of_printable {e : Expr} (h : e.Printable) : parse e.text = .ok e := by
  have hspells := spells_chars e h (Text.byteSize e.chars) .nil
  rw [List.append_nil] at hspells
  exact hspells.parse

end Expr
end XmlTemplate
