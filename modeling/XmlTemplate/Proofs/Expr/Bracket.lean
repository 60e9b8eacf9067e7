import XmlTemplate.Expr.Parser
import XmlTemplate.Proofs.Expr.Extent

/-!
# Text in brackets

A path may hold an expression in brackets, whose text is parsed by the parser of the whole. The
text is shorter than the whole, and whether it is an expression, and which one, does not depend on
where it stands. So the parser is a machine that reads one lexeme after the other.
-/

namespace XmlTemplate

/-- The text in brackets, if the segment has one, is shorter than `n`. -/
def RawSegment.Within (n : Nat) : RawSegment → Prop
  | dynamic source _ => source.length < n
  | _ => True

/-- All texts in brackets are shorter than `n`. -/
def Lexeme.Within (n : Nat) : Lexeme → Prop
  | path segments => ∀ s ∈ segments, s.Within n
  | _ => True

theorem RawSegment.Within.mono {s : RawSegment} {n n' : Nat} (h : s.Within n) (hn : n ≤ n') :
    s.Within n' := by
  cases s with
  | dynamic source offset => exact Nat.lt_of_lt_of_le h hn
  | _ => trivial

theorem Lexeme.Within.mono {l : Lexeme} {n n' : Nat} (h : l.Within n) (hn : n ≤ n') :
    l.Within n' := by
  cases l with
  | path segments => exact fun s hs => (h s hs).mono hn
  | _ => trivial

/-- What stands between brackets in a text is shorter than the text. -/
theorem RawSegment.LiesIn.within {total : Nat} {text : List Char} {s : RawSegment}
    (h : s.LiesIn total text) : s.Within text.length := by
  cases s with
  | dynamic source offset =>
    obtain ⟨before, after, rfl, -⟩ := h
    simp only [RawSegment.Within, List.length_append, List.length_cons]
    omega
  | _ => trivial

namespace Token

/-! ## Tokens -/

theorem within_of_nextLexeme {total : Nat} {text rest : List Char} {l : Lexeme}
    (h : nextLexeme total text = .ok (l, rest)) : l.Within text.length := by
  have hread := cut_nextLexeme total text
  rw [h] at hread
  cases l with
  | path segments => exact fun s hs => (hread.liesIn s hs).within
  | _ => trivial

theorem within_of_scanFrom {total : Nat} {text : List Char} {tokens : List Token}
    (h : scanFrom total text = .ok tokens) : ∀ t ∈ tokens, t.lexeme.Within text.length := by
  fun_induction scanFrom total text generalizing tokens with
  | case1 =>
    cases h
    exact List.forall_mem_nil _
  | case2 => cases h
  | case3 => cases h
  | case4 text c rest hblank l after hnext others hothers ih =>
    cases h
    have hle := length_dropWhile_le Text.isWhiteSpace text
    rw [hblank] at hle
    intro t ht
    rcases List.mem_cons.1 ht with rfl | ht
    · exact (within_of_nextLexeme hnext).mono hle
    · refine (ih hothers t ht).mono ?_
      have hlt := length_of_nextLexeme hnext
      omega

/-- Texts in brackets are shorter than the text around them. -/
theorem within_of_scan {source : List Char} {tokens : List Token} (h : scan source = .ok tokens) :
    ∀ t ∈ tokens, t.lexeme.Within source.length :=
  within_of_scanFrom h

end Token

namespace Expr

/-- The segment that is written, if the text in its brackets is an expression. -/
def segment? : RawSegment → Option Segment
  | .root => some .root
  | .current => some .current
  | .parent => some .parent
  | .name key => some (.name key)
  | .dynamic source _ => (parse (String.ofList source)).toOption.map .dynamic

namespace Parser

/-- The parser after a lexeme, if the lexeme may come. -/
def next? (p : Parser) (l : Lexeme) : Option Parser :=
  (step (fun text _ => parse (String.ofList text)) p l 0).toOption

/-- The expression that was read, if the text may end. -/
def finish? (p : Parser) : Option Expr := (finish p 0).toOption

/-- A reader of texts in brackets that reads what is in a lexeme as expressions. -/
def Reads (inner : List Char → Nat → Except SyntaxError Expr) : Lexeme → Prop
  | .path raw => ∀ text offset, .dynamic text offset ∈ raw →
      (inner text offset).toOption = (parse (String.ofList text)).toOption
  | _ => True

theorem toOption_segments {inner : List Char → Nat → Except SyntaxError Expr}
    {raw : List RawSegment} (h : Reads inner (.path raw)) :
    (segments inner raw).toOption = raw.mapM segment? := by
  induction raw with
  | nil => rfl
  | cons first rest ih =>
    have hrest := ih fun text offset hmem => h text offset (List.mem_cons_of_mem first hmem)
    rw [List.mapM_cons, ← hrest]
    cases first with
    | dynamic source offset =>
      have hinner := h source offset (List.mem_cons_self ..)
      simp only [segments, segment?, ← hinner]
      cases inner source offset with
      | error e => rfl
      | ok key => cases segments inner rest <;> rfl
    | _ =>
      simp only [segments, segment?]
      cases segments inner rest <;> rfl

theorem toOption_step_path {inner : List Char → Nat → Except SyntaxError Expr}
    {raw : List RawSegment} (h : Reads inner (.path raw)) (frames : List Frame) (mayClose : Bool)
    (offset : Nat) :
    (step inner ⟨frames, .awaiting mayClose⟩ (.path raw) offset).toOption =
      (raw.mapM segment?).map fun segments => complete (.path segments) frames := by
  rw [← toOption_segments h]
  simp only [step, unaryOp?, operand?]
  cases segments inner raw <;> rfl

theorem toOption_step {inner : List Char → Nat → Except SyntaxError Expr} {l : Lexeme}
    (h : Reads inner l) (p : Parser) (offset : Nat) :
    (step inner p l offset).toOption = next? p l := by
  obtain ⟨frames, focus⟩ := p
  unfold next?
  cases focus with
  | holding operand =>
    simp only [step]
    cases binaryOp? l with
    | some op => rfl
    | none =>
      simp only
      split <;> rfl
  | awaiting mayClose =>
    cases l with
    | path raw => rw [toOption_step_path h, toOption_step_path fun _ _ _ => rfl]
    | closeParen => rcases frames with _ | ⟨_ | _ | _ | _, _⟩ <;> cases mayClose <;> rfl
    | _ => rfl

theorem toOption_finish (p : Parser) (offset : Nat) :
    (finish p offset).toOption = finish? p := by
  obtain ⟨frames, focus⟩ := p
  cases focus with
  | awaiting => rfl
  | holding operand =>
    simp only [finish?, finish]
    split <;> rfl

theorem toOption_run {inner : List Char → Nat → Except SyntaxError Expr} {tokens : List Token}
    (h : ∀ t ∈ tokens, Reads inner t.lexeme) (base endOffset : Nat) (p : Parser) :
    (run inner base endOffset p tokens).toOption =
      ((tokens.map Token.lexeme).foldlM next? p).bind finish? := by
  induction tokens generalizing p with
  | nil => exact toOption_finish p endOffset
  | cons t tokens ih =>
    have hstep := toOption_step (h t (List.mem_cons_self ..)) p (base + t.offset)
    rw [List.map_cons, List.foldlM_cons, run, ← hstep]
    cases step inner p t.lexeme (base + t.offset) with
    | error e => rfl
    | ok next => exact ih (fun u hu => h u (List.mem_cons_of_mem t hu)) next

end Parser

/-- The expression that a text is, if it is one. -/
def whole? (source : List Char) : Option Expr :=
  match Token.scan source with
  | .error _ => none
  | .ok [] => some (.literal (.bool false))
  | .ok tokens =>
    ((tokens.map Token.lexeme).foldlM Parser.next? ⟨[], .awaiting false⟩).bind Parser.finish?

theorem toOption_parseFrom (base : Nat) (source : List Char) :
    (parseFrom base source).toOption = whole? source := by
  induction hn : source.length using Nat.strongRecOn generalizing base source with
  | _ n ih =>
    rw [parseFrom, whole?]
    cases htokens : Token.scan source with
    | error e => rfl
    | ok tokens =>
      cases tokens with
      | nil => rfl
      | cons first rest =>
        refine Parser.toOption_run (fun t ht => ?_) _ _ _
        have hwithin := Token.within_of_scan htokens t ht
        cases hl : t.lexeme with
        | path raw =>
          intro text offset hmem
          rw [hl] at hwithin
          have hlt : text.length < source.length := hwithin _ hmem
          simp only
          rw [if_pos hlt, parse, String.toList_ofList, ih _ (hn ▸ hlt) _ _ rfl,
            ih _ (hn ▸ hlt) _ _ rfl]
        | _ => trivial

/-- Parsing is reading lexeme after lexeme. -/
theorem toOption_parse (source : String) : (parse source).toOption = whole? source.toList :=
  toOption_parseFrom 0 source.toList

end Expr

end XmlTemplate
