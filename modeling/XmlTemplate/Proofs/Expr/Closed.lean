import XmlTemplate.Proofs.Expr.Extent
import XmlTemplate.Proofs.Expr.Printer

/-!
# Brackets in printed expressions

The text of a printable expression closes the brackets and the quotes that it opens, so that a
bracket around it closes behind it.
-/

namespace XmlTemplate

namespace Token

/-! ## Strings and names -/

theorem stringBody?_escaped (s rest : List Char) :
    stringBody? '\'' (s.flatMap Literal.escaped ++ '\'' :: rest) = some (s, rest) := by
  induction s with
  | nil =>
    rw [List.flatMap_nil, List.nil_append, stringBody?.eq_def]
    simp
  | cons c s ih =>
    rw [List.flatMap_cons, List.append_assoc, stringBody?.eq_def]
    by_cases hslash : c = '\\'
    · simp [Literal.escaped, hslash, ih, Text.consFirst]
    · by_cases hquote : c = '\''
      · simp [Literal.escaped, hquote, ih, Text.consFirst]
      · simp [Literal.escaped, hslash, hquote, ih, Text.consFirst]

theorem closed_string (s : String) : Closed (Literal.string s).chars :=
  (closedTo_of_stringBody? (.inl rfl) (stringBody?_escaped s.toList [])).closed

theorem IsName.closed {name : List Char} (h : IsName name) : Closed name :=
  closed_of_forall fun c hc => not_mem_of_apart (h.2 c hc) (by decide)

end Token

theorem closed_digits (n : Nat) : Token.Closed (Text.digits n) := by
  refine Token.closed_of_forall fun c hc => ?_
  have hdigit : c.isDigit = true := Nat.isDigit_of_mem_toDigits (by decide) (by decide) hc
  exact Token.not_mem_of_apart hdigit (by decide)

theorem Number.toList_text_int {i : Int64} (h : 0 ≤ i.toInt) :
    (Number.text (.int i)).toList = Text.digits i.toInt.natAbs := by
  simp [Number.text, Number.intText, Int.not_lt.2 h]

theorem Literal.Printable.closed {v : Literal} (h : v.Printable) : Token.Closed v.chars := by
  cases v with
  | null => exact Token.closed_of_all rfl
  | bool b => cases b <;> exact Token.closed_of_all rfl
  | number n =>
    cases n with
    | int i =>
      rw [Literal.chars, Number.toList_text_int h]
      exact closed_digits _
    | float f => exact h.elim
  | string s => exact Token.closed_string s

theorem UnaryOp.closed (op : UnaryOp) : Token.Closed op.chars := by
  cases op <;> exact Token.closed_of_all rfl

theorem BinaryOp.closed (op : BinaryOp) : Token.Closed op.chars := by
  cases op <;> exact Token.closed_of_all rfl

/-- A segment after which others follow. -/
theorem Segment.pathChars_cons {s : Segment} (h : s ≠ .root) {rest : List Segment}
    (hrest : rest ≠ []) :
    Segment.pathChars (s :: rest) = s.chars ++ '/' :: Segment.pathChars rest := by
  cases rest with
  | nil => exact absurd rfl hrest
  | cons next rest =>
    cases s with
    | root => exact absurd rfl h
    | _ => rfl

theorem Segment.pathChars_root {rest : List Segment} (hrest : rest ≠ []) :
    Segment.pathChars (.root :: rest) = '/' :: Segment.pathChars rest := by
  cases rest with
  | nil => exact absurd rfl hrest
  | cons next rest => rfl

theorem Expr.argChars_cons (e : Expr) {rest : List Expr} (hrest : rest ≠ []) :
    Expr.argChars (e :: rest) = e.chars ++ ',' :: ' ' :: Expr.argChars rest := by
  cases rest with
  | nil => exact absurd rfl hrest
  | cons next rest => rfl

theorem Token.IsPath.isName {raw : List RawSegment} (h : Token.IsPath raw) {key : String}
    (hkey : .name key ∈ raw) : Token.IsName key.toList := by
  cases raw with
  | nil => exact h.elim
  | cons first rest =>
    cases first with
    | root =>
      simp only [List.mem_cons, reduceCtorEq, false_or] at hkey
      exact h _ hkey
    | name other =>
      rcases List.mem_cons.1 hkey with hkey | hkey
      · cases hkey
        exact h.1.1.1
      · exact h.2 _ hkey
    | _ =>
      simp only [List.mem_cons, reduceCtorEq, false_or] at hkey
      exact h.2 _ hkey

mutual

/-- Brackets and quotes in a printed expression are closed. -/
theorem Expr.closed_chars (e : Expr) (h : e.Printable) : Token.Closed e.chars := by
  have hclose : Token.Closed [')'] := Token.closed_singleton (by decide)
  cases e with
  | literal v => exact Literal.Printable.closed h
  | path segments =>
    refine Segment.closed_pathChars segments h.2 fun key hkey => ?_
    exact h.1.isName (List.mem_map_of_mem (f := Segment.outline) hkey)
  | unary op operand =>
    exact .cons (by decide) (op.closed.append ((operand.closed_chars h).append hclose))
  | binary op left right =>
    have hright : Token.Closed (' ' :: (right.chars ++ [')'])) :=
      .cons (by decide) ((right.closed_chars h.2).append hclose)
    have hop : Token.Closed (' ' :: (op.chars ++ ' ' :: (right.chars ++ [')']))) :=
      .cons (by decide) (op.closed.append hright)
    exact .cons (by decide) ((left.closed_chars h.1).append hop)
  | call name args =>
    exact h.1.1.1.closed.append (.cons (by decide) ((Expr.closed_argChars args h.2).append hclose))

theorem Segment.closed_chars (s : Segment) (h : s.Printable)
    (hname : ∀ key, s = .name key → Token.IsName key.toList) : Token.Closed s.chars := by
  cases s with
  | root | current | parent => exact Token.closed_of_all rfl
  | name key => exact (hname key rfl).closed
  | dynamic key => exact (key.closed_chars h).bracketed

theorem Segment.closed_pathChars (segments : List Segment) (h : Segment.AllPrintable segments)
    (hnames : ∀ key, .name key ∈ segments → Token.IsName key.toList) :
    Token.Closed (Segment.pathChars segments) := by
  cases segments with
  | nil => exact Token.closed_nil
  | cons s rest =>
    have hs := Segment.closed_chars s h.1 fun key hkey => hnames key (by simp [hkey])
    have hrest := Segment.closed_pathChars rest h.2 fun key hkey => hnames key (by simp [hkey])
    by_cases hlast : rest = []
    · subst hlast
      exact hs
    · by_cases hroot : s = .root
      · rw [hroot, Segment.pathChars_root hlast]
        exact .cons (by decide) hrest
      · rw [Segment.pathChars_cons hroot hlast]
        exact hs.append (.cons (by decide) hrest)

theorem Expr.closed_argChars (args : List Expr) (h : Expr.AllPrintable args) :
    Token.Closed (Expr.argChars args) := by
  cases args with
  | nil => exact Token.closed_nil
  | cons e rest =>
    have hrest := Expr.closed_argChars rest h.2
    by_cases hlast : rest = []
    · subst hlast
      exact e.closed_chars h.1
    · rw [Expr.argChars_cons e hlast]
      exact (e.closed_chars h.1).append (.cons (by decide) (.cons (by decide) hrest))

end

end XmlTemplate
