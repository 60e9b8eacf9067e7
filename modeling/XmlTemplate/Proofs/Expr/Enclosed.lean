import XmlTemplate.Proofs.Expr.Reading

/-!
# Expressions in brackets

Where a text stands shows only in the offsets of its errors. A text that is cut into tokens is found
whole between brackets put around it, so it is parsed there as it is on its own, one byte further
on.
-/

namespace XmlTemplate

namespace SyntaxError

theorem shift_shift (m n : Nat) (e : SyntaxError) : (e.shift m).shift n = e.shift (m + n) := by
  simp [shift, Nat.add_assoc]

end SyntaxError

namespace Expr

/-- The outcome with the offset of its error `n` bytes further on. -/
def further (n : Nat) (x : Except SyntaxError α) : Except SyntaxError α :=
  x.mapError (SyntaxError.shift n)

theorem further_map (n : Nat) (f : α → β) (x : Except SyntaxError α) :
    further n (x.map f) = (further n x).map f := by
  cases x <;> rfl

namespace Parser

/-- Two readers of texts in brackets whose errors are `n` bytes apart. -/
def Apart (n : Nat) (inner inner' : List Char → Nat → Except SyntaxError Expr) : Prop :=
  ∀ text offset, inner' text offset = further n (inner text offset)

section

variable {n : Nat} {inner inner' : List Char → Nat → Except SyntaxError Expr}

theorem segments_further (h : Apart n inner inner') (raw : List RawSegment) :
    segments inner' raw = further n (segments inner raw) := by
  induction raw with
  | nil => rfl
  | cons first rest ih =>
    cases first with
    | dynamic text offset =>
      simp only [segments, h text offset, ih]
      cases inner text offset with
      | error e => rfl
      | ok key => exact (further_map ..).symm
    | _ =>
      simp only [segments, ih]
      exact (further_map ..).symm

theorem operand?_further (h : Apart n inner inner') (l : Lexeme) :
    operand? inner' l = (operand? inner l).map (further n) := by
  cases l with
  | path raw => simp [operand?, segments_further h, further_map]
  | _ => rfl

theorem step_further (h : Apart n inner inner') (p : Parser) (l : Lexeme) (offset : Nat) :
    step inner' p l (offset + n) = further n (step inner p l offset) := by
  obtain ⟨frames, focus⟩ := p
  cases focus with
  | holding operand =>
    simp only [step]
    cases binaryOp? l with
    | some op => rfl
    | none =>
      simp only
      split <;> rfl
  | awaiting mayClose =>
    simp only [step, operand?_further h]
    cases unaryOp? l with
    | some op => rfl
    | none =>
      cases operand? inner l with
      | some x => cases x <;> rfl
      | none =>
        simp only [Option.map_none]
        split <;> rfl

theorem finish_further (p : Parser) (offset : Nat) :
    finish p (offset + n) = further n (finish p offset) := by
  obtain ⟨frames, focus⟩ := p
  cases focus with
  | awaiting => rfl
  | holding operand =>
    simp only [finish]
    split <;> rfl

theorem run_further (h : Apart n inner inner') (base endOffset : Nat) (p : Parser)
    (tokens : List Token) :
    run inner' (base + n) (endOffset + n) p tokens =
      further n (run inner base endOffset p tokens) := by
  induction tokens generalizing p with
  | nil => exact finish_further p endOffset
  | cons token rest ih =>
    have hstep := step_further h p token.lexeme (base + token.offset)
    rw [Nat.add_right_comm] at hstep
    rw [run, run, hstep]
    cases step inner p token.lexeme (base + token.offset) with
    | error e => rfl
    | ok next => exact ih next

end

end Parser

/-- A text parsed further on gives the same, with its errors further on. -/
theorem parseFrom_add (base n : Nat) (source : List Char) :
    parseFrom (base + n) source = further n (parseFrom base source) := by
  induction hlength : source.length using Nat.strongRecOn generalizing base source with
  | _ length ih =>
    rw [parseFrom, parseFrom.eq_def base]
    split
    · exact congrArg Except.error (SyntaxError.shift_shift base n _).symm
    · rfl
    · rw [Nat.add_right_comm base n]
      refine Parser.run_further (fun text offset => ?_) ..
      simp only [Nat.add_right_comm base n]
      split
      · rename_i hshorter
        exact ih _ (hlength ▸ hshorter) _ _ rfl
      · rfl

end Expr

namespace Token

variable {source : List Char}

/-- A closed text between brackets is one token, which holds the text. -/
theorem scan_bracketed (h : Closed source) :
    scan ('[' :: (source ++ [']'])) = .ok [⟨.path [.dynamic source 1], 0⟩] := by
  have hoffset : offsetOf (Text.byteSize ('[' :: (source ++ [']']))) (source ++ [']']) = 1 := by
    have hbracket : '['.utf8Size = 1 := rfl
    rw [offsetOf, Text.byteSize, hbracket]
    omega
  have hsegment (total : Nat) : segment total ('[' :: (source ++ [']'])) =
      .ok (.dynamic source (offsetOf total (source ++ [']'])), []) := by
    simp [segment, h.bracketBody? []]
  have hnext (total : Nat) := nextLexeme_bracket.trans
    (pathLexeme_segments (by simp) (segments_last (hsegment total) .nil))
  rw [scan, scanFrom_lexeme (hnext _) (by rw [scanFrom]; rfl), hoffset, offsetOf, Nat.sub_self]

end Token

namespace Expr

/-- A text between brackets is parsed as it is on its own. -/
theorem parseFrom_bracketed {source : List Char} (h : Token.Closed source) :
    parseFrom 0 ('[' :: (source ++ [']'])) =
      (further 1 (parseFrom 0 source)).map fun e => .path [.dynamic e] := by
  have hshorter : source.length < ('[' :: (source ++ [']'])).length := by
    rw [List.length_cons, List.length_append]
    omega
  rw [parseFrom, Token.scan_bracketed h]
  simp only [Parser.run, Parser.step, Parser.operand?, Parser.segments, unaryOp?, if_pos hshorter]
  rw [parseFrom_add 0 1 source]
  cases parseFrom 0 source <;> rfl

/-- A text that is cut into tokens is parsed between brackets as it is on its own, with its errors
one byte further on. The bracket behind it is the one that is found. -/
theorem parse_bracketed {s : String} {tokens : List Token} (h : Token.scan s.toList = .ok tokens) :
    parse ("[" ++ s ++ "]") =
        (match parse s with
        | .ok e => .ok (.path [.dynamic e])
        | .error e => .error ⟨e.offset + 1, e.problem⟩) ∧
      Token.scan ("[" ++ s ++ "]").toList = .ok [⟨.path [.dynamic s.toList 1], 0⟩] ∧
      ∀ rest, Token.bracketBody? 0 none (s.toList ++ ']' :: rest) = some (s.toList, rest) := by
  have hclosed : Token.Closed s.toList := (Token.tiled_of_scanFrom h).closed
  have htext : ("[" ++ s ++ "]").toList = '[' :: (s.toList ++ [']']) := by simp
  refine ⟨?_, ?_, hclosed.bracketBody?⟩
  · rw [parse, htext, parseFrom_bracketed hclosed, parse]
    cases parseFrom 0 s.toList <;> rfl
  · rw [htext, Token.scan_bracketed hclosed]

/-- A bracket in a string, behind a quote that a backslash escapes, closes nothing. Each pair of
brackets moves the error by one byte. -/
theorem parse_bracketed_string :
    Token.scan "'\\']' +".toList = .ok [⟨.string "']", 0⟩, ⟨.plus, 6⟩] ∧
      parse "'\\']' +" = .error ⟨7, .unexpectedEnd⟩ ∧
      parse ("[" ++ "'\\']' +" ++ "]") = .error ⟨8, .unexpectedEnd⟩ ∧
      parse ("[" ++ ("[" ++ "'\\']' +" ++ "]") ++ "]") = .error ⟨9, .unexpectedEnd⟩ := by
  have hscan : Token.scan "'\\']' +".toList = .ok [⟨.string "']", 0⟩, ⟨.plus, 6⟩] := by
    decide +kernel
  have hparse : parse "'\\']' +" = .error ⟨7, .unexpectedEnd⟩ := by
    rw [parse, parseFrom, hscan]
    rfl
  have honce := parse_bracketed hscan
  have htwice := parse_bracketed honce.2.1
  rw [hparse] at honce
  rw [honce.1] at htwice
  exact ⟨hscan, hparse, honce.1, htwice.1⟩

end Expr

end XmlTemplate
