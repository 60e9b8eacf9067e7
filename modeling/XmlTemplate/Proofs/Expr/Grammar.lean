import XmlTemplate.Proofs.Expr.Bracket

/-!
# The grammar of expressions

Binary operators come in four levels, and the operators of one level group to the left. Signs and
`not` bind tighter than all of them. Below are the operands: literals, paths, expressions in
parentheses and calls. A phrase is a derivation in this grammar, together with the lexemes that it
derives and the expression that it stands for. The grammar is unambiguous: no lexemes have two
derivations.
-/

namespace XmlTemplate

/-- The operator as it is written. -/
def BinaryOp.lexeme : BinaryOp → Lexeme
  | add => .plus
  | sub => .minus
  | mul => .star
  | div => .div
  | mod => .mod
  | eq => .eq
  | ne => .ne
  | lt => .lt
  | le => .le
  | gt => .gt
  | ge => .ge
  | and => .and
  | or => .or

/-- The operator as it is written. -/
def UnaryOp.lexeme : UnaryOp → Lexeme
  | plus => .plus
  | minus => .minus
  | not => .not

/-- The constant as it is written. -/
def Literal.lexeme : Literal → Lexeme
  | null => .null
  | bool true => .true
  | bool false => .false
  | number n => .number n
  | string s => .string s

theorem BinaryOp.level_le (op : BinaryOp) : op.level ≤ 4 := by
  cases op <;> decide

namespace Expr

/-- The operators of a level, the loosest ones first. -/
def operators : Nat → List BinaryOp
  | 1 => [.and, .or]
  | 2 => [.eq, .ne, .lt, .le, .gt, .ge]
  | 3 => [.add, .sub]
  | 4 => [.mul, .div, .mod]
  | _ => []

/-- The parser's levels are the ones of the grammar. -/
theorem mem_operators (op : BinaryOp) : op ∈ operators op.level := by
  cases op <;> decide

theorem level_eq_of_mem {op : BinaryOp} {level : Nat} (h : op ∈ operators level) :
    op.level = level := by
  unfold operators at h
  split at h <;> grind [BinaryOp.level]

theorem binaryOp?_lexeme (op : BinaryOp) : binaryOp? op.lexeme = some op := by
  cases op <;> rfl

/-- What a phrase is: an expression without binary operators below a level, other than in
parentheses, or the arguments of a call. Level 5 are the operands. -/
inductive Category where
  | expression (level : Nat)
  | arguments

/-- What the phrases of a category stand for. -/
@[reducible] def Category.Value : Category → Type
  | expression _ => Expr
  | arguments => List Expr

/-- Derivations. -/
inductive Phrase : Category → Type where
  | binary {level : Nat} (op : BinaryOp) (h : op ∈ operators level)
      (left : Phrase (.expression level)) (right : Phrase (.expression (level + 1))) :
      Phrase (.expression level)
  | tighter {level : Nat} (h : level ≤ 4) (t : Phrase (.expression (level + 1))) :
      Phrase (.expression level)
  | unary (op : UnaryOp) (operand : Phrase (.expression 5)) : Phrase (.expression 5)
  | literal (v : Literal) : Phrase (.expression 5)
  /-- The texts in brackets are expressions themselves. -/
  | path (raw : List RawSegment) (segments : List Segment)
      (h : raw.mapM segment? = some segments) : Phrase (.expression 5)
  | paren (t : Phrase (.expression 1)) : Phrase (.expression 5)
  | emptyCall (name : String) : Phrase (.expression 5)
  | call (name : String) (args : Phrase .arguments) : Phrase (.expression 5)
  | last (t : Phrase (.expression 1)) : Phrase .arguments
  | more (first : Phrase (.expression 1)) (rest : Phrase .arguments) : Phrase .arguments

namespace Phrase

/-- The lexemes that are derived. -/
def lexemes : {c : Category} → Phrase c → List Lexeme
  | _, binary op _ left right => left.lexemes ++ op.lexeme :: right.lexemes
  | _, tighter _ t => t.lexemes
  | _, unary op operand => op.lexeme :: operand.lexemes
  | _, literal v => [v.lexeme]
  | _, path raw _ _ => [.path raw]
  | _, paren t => .openParen :: (t.lexemes ++ [.closeParen])
  | _, emptyCall name => [.function name, .closeParen]
  | _, call name args => .function name :: (args.lexemes ++ [.closeParen])
  | _, last t => t.lexemes
  | _, more first rest => first.lexemes ++ .comma :: rest.lexemes

/-- The expression, or the arguments, that the lexemes stand for. -/
def tree : {c : Category} → Phrase c → c.Value
  | _, binary op _ left right => Expr.binary op left.tree right.tree
  | _, tighter _ t => t.tree
  | _, unary op operand => Expr.unary op operand.tree
  | _, literal v => Expr.literal v
  | _, path _ segments _ => Expr.path segments
  | _, paren t => t.tree
  | _, emptyCall name => Expr.call name []
  | _, call name args => Expr.call name args.tree
  | _, last t => [t.tree]
  | _, more first rest => first.tree :: rest.tree

/-- An operand is no binary phrase. -/
@[elab_as_elim]
theorem operandCases {motive : Phrase (.expression 5) → Prop}
    (unary : ∀ op operand, motive (.unary op operand)) (literal : ∀ v, motive (.literal v))
    (path : ∀ raw segments h, motive (.path raw segments h)) (paren : ∀ t, motive (.paren t))
    (emptyCall : ∀ name, motive (.emptyCall name)) (call : ∀ name args, motive (.call name args))
    (t : Phrase (.expression 5)) : motive t := by
  cases t with
  | binary op h => cases h
  | tighter h => omega
  | unary op operand => exact unary op operand
  | literal v => exact literal v
  | path raw segments h => exact path raw segments h
  | paren t => exact paren t
  | emptyCall name => exact emptyCall name
  | call name args => exact call name args

/-! ## Chains of operators -/

/-- An operator of a level with its right operand. -/
structure Link (level : Nat) where
  op : BinaryOp
  h : op ∈ operators level
  right : Phrase (.expression (level + 1))

/-- The lexemes of an operator and its right operand. -/
def Link.lexemes {level : Nat} (link : Link level) : List Lexeme :=
  link.op.lexeme :: link.right.lexemes

/-- A phrase with more operators of its level. -/
def grow {level : Nat} (t : Phrase (.expression level)) (links : List (Link level)) :
    Phrase (.expression level) :=
  links.foldl (fun t link => binary link.op link.h t link.right) t

theorem lexemes_grow {level : Nat} (t : Phrase (.expression level)) (links : List (Link level)) :
    (t.grow links).lexemes = t.lexemes ++ links.flatMap Link.lexemes := by
  induction links generalizing t with
  | nil => simp [grow]
  | cons link links ih =>
    have hgrow := ih (binary link.op link.h t link.right)
    rw [grow, List.foldl_cons, ← grow, hgrow]
    simp [lexemes, Link.lexemes]

/-- Every phrase of a level is a chain of phrases of the next level. -/
theorem exists_chain {level : Nat} (hlevel : level ≤ 4) :
    (t : Phrase (.expression level)) → ∃ head links, t = grow (tighter hlevel head) links
  | binary op h left right => by
    obtain ⟨head, links, hleft⟩ := exists_chain hlevel left
    refine ⟨head, links ++ [⟨op, h, right⟩], ?_⟩
    rw [hleft, grow, grow, List.foldl_append]
    rfl
  | tighter _ t => ⟨t, [], rfl⟩

/-! ## First lexemes -/

/-- The beginning of an operand. -/
inductive Start where
  | sign (op : UnaryOp)
  | constant (v : Literal)
  | path (raw : List RawSegment)
  | opening
  | calling (name : String)

/-- How an operand that starts with a lexeme begins. -/
def start? : Lexeme → Option Start
  | .plus => some (.sign .plus)
  | .minus => some (.sign .minus)
  | .not => some (.sign .not)
  | .null => some (.constant .null)
  | .true => some (.constant (.bool true))
  | .false => some (.constant (.bool false))
  | .number n => some (.constant (.number n))
  | .string s => some (.constant (.string s))
  | .path raw => some (.path raw)
  | .openParen => some .opening
  | .function name => some (.calling name)
  | _ => none

@[simp] theorem start?_unaryOp (op : UnaryOp) : start? op.lexeme = some (.sign op) := by
  cases op <;> rfl

@[simp] theorem start?_literal (v : Literal) : start? v.lexeme = some (.constant v) := by
  cases v with
  | bool b => cases b <;> rfl
  | _ => rfl

@[simp] theorem start?_path (raw : List RawSegment) : start? (.path raw) = some (.path raw) := rfl

@[simp] theorem start?_openParen : start? .openParen = some .opening := rfl

@[simp] theorem start?_function (name : String) :
    start? (.function name) = some (.calling name) := rfl

/-- A phrase begins like an operand. -/
theorem exists_start {c : Category} (t : Phrase c) :
    ∃ l after start, t.lexemes = l :: after ∧ start? l = some start := by
  induction t with
  | binary op _ left right ihl ihr =>
    obtain ⟨l, after, start, hl, hstart⟩ := ihl
    exact ⟨l, _, start, by rw [lexemes, hl]; rfl, hstart⟩
  | tighter _ t ih => exact ih
  | unary op operand => exact ⟨_, _, _, rfl, start?_unaryOp op⟩
  | literal v => exact ⟨_, _, _, rfl, start?_literal v⟩
  | path raw segments h => exact ⟨_, _, _, rfl, rfl⟩
  | paren t => exact ⟨_, _, _, rfl, rfl⟩
  | emptyCall name => exact ⟨_, _, _, rfl, rfl⟩
  | call name args => exact ⟨_, _, _, rfl, rfl⟩
  | last t ih => exact ih
  | more first rest ihf ihr =>
    obtain ⟨l, after, start, hl, hstart⟩ := ihf
    exact ⟨l, _, start, by rw [lexemes, hl]; rfl, hstart⟩

theorem length_lexemes_pos {c : Category} (t : Phrase c) : 0 < t.lexemes.length := by
  obtain ⟨l, after, _, hl, _⟩ := t.exists_start
  simp [hl]

/-! ## Where a phrase ends -/

/-- No operator of a level or of a higher one comes first. -/
def Stops (level : Nat) (rest : List Lexeme) : Prop :=
  ∀ op : BinaryOp, level ≤ op.level → ∀ after, rest ≠ op.lexeme :: after

theorem Stops.mono {level level' : Nat} {rest : List Lexeme} (h : Stops level rest)
    (hle : level ≤ level') : Stops level' rest :=
  fun op hop => h op (Nat.le_trans hle hop)

/-- What comes first is no operator. -/
theorem Stops.of_binaryOp? {level : Nat} {l : Lexeme} {after : List Lexeme}
    (h : binaryOp? l = none) : Stops level (l :: after) := by
  rintro op - after' heq
  have hl := (List.cons.inj heq).1
  rw [hl, binaryOp?_lexeme] at h
  cases h

theorem lexeme_inj {op op' : BinaryOp} (h : op.lexeme = op'.lexeme) : op = op' := by
  have hop := congrArg binaryOp? h
  rw [binaryOp?_lexeme, binaryOp?_lexeme] at hop
  exact Option.some.inj hop

/-- A phrase of a category cannot go on with what follows. -/
def Ends : Category → List Lexeme → Prop
  | .expression level, rest => Stops level rest
  | .arguments, rest => Stops 1 rest ∧ ∀ after, rest ≠ .comma :: after

/-- The lexemes determine where a phrase ends and how it is derived, if the phrase has at most `n`
lexemes. -/
def Determined (n : Nat) (c : Category) : Prop :=
  ∀ (t t' : Phrase c) (rest rest' : List Lexeme), t.lexemes.length ≤ n → Ends c rest →
    Ends c rest' → t.lexemes ++ rest = t'.lexemes ++ rest' → t = t' ∧ rest = rest'

/-- After a chain's head comes an operator of its level or what follows the chain. -/
theorem stops_links {level : Nat} {rest : List Lexeme} (h : Stops level rest)
    (links : List (Link level)) :
    Stops (level + 1) (links.flatMap Link.lexemes ++ rest) := by
  cases links with
  | nil => exact h.mono (Nat.le_succ level)
  | cons link links =>
    intro op hop after heq
    have hlexeme : link.op.lexeme = op.lexeme := (List.cons.inj heq).1
    have hlevel := level_eq_of_mem link.h
    rw [lexeme_inj hlexeme] at hlevel
    omega

theorem links_determined {n level : Nat} (h : Determined n (.expression (level + 1)))
    {links links' : List (Link level)} {rest rest' : List Lexeme}
    (hn : (links.flatMap Link.lexemes).length ≤ n) (hrest : Stops level rest)
    (hrest' : Stops level rest')
    (heq : links.flatMap Link.lexemes ++ rest = links'.flatMap Link.lexemes ++ rest') :
    links = links' ∧ rest = rest' := by
  induction links generalizing links' with
  | nil =>
    cases links' with
    | nil => exact ⟨rfl, heq⟩
    | cons link' links' =>
      exact absurd heq (hrest link'.op (Nat.le_of_eq (level_eq_of_mem link'.h).symm) _)
  | cons link links ih =>
    cases links' with
    | nil =>
      exact absurd heq.symm (hrest' link.op (Nat.le_of_eq (level_eq_of_mem link.h).symm) _)
    | cons link' links' =>
      obtain ⟨op, hop, right⟩ := link
      obtain ⟨op', hop', right'⟩ := link'
      simp only [List.flatMap_cons, Link.lexemes, List.cons_append, List.length_cons,
        List.length_append] at hn
      simp only [List.flatMap_cons, Link.lexemes, List.cons_append, List.append_assoc,
        List.cons.injEq] at heq
      obtain ⟨hlexeme, hafter⟩ := heq
      obtain ⟨rfl, hlinks⟩ := h right right' _ _ (by omega) (stops_links hrest links)
        (stops_links hrest' links') hafter
      obtain ⟨rfl, hrests⟩ := ih (by omega) hlinks
      cases lexeme_inj hlexeme
      exact ⟨rfl, hrests⟩

/-- One level from the next one. -/
theorem determined_level {n level : Nat} (h : Determined n (.expression (level + 1)))
    (hlevel : level ≤ 4) : Determined n (.expression level) := by
  intro t t' rest rest' hn hrest hrest' heq
  obtain ⟨head, links, rfl⟩ := exists_chain hlevel t
  obtain ⟨head', links', rfl⟩ := exists_chain hlevel t'
  rw [lexemes_grow, List.length_append] at hn
  rw [lexemes_grow, lexemes_grow, List.append_assoc, List.append_assoc] at heq
  obtain ⟨rfl, hlinks⟩ := h head head' _ _ (Nat.le_of_add_right_le hn) (stops_links hrest links)
    (stops_links hrest' links') heq
  obtain ⟨rfl, hrests⟩ := links_determined h (by omega) hrest hrest' hlinks
  exact ⟨rfl, hrests⟩

/-- A comma ends an argument. -/
theorem ends_comma (after : List Lexeme) : Ends (.expression 1) (.comma :: after) :=
  Stops.of_binaryOp? rfl

/-- A closing parenthesis begins no phrase. -/
theorem append_ne_closeParen {c : Category} (t : Phrase c) (rest after : List Lexeme) :
    t.lexemes ++ rest ≠ .closeParen :: after := by
  obtain ⟨l, _, start, hl, hstart⟩ := t.exists_start
  intro h
  rw [hl, List.cons_append] at h
  rw [(List.cons.inj h).1] at hstart
  cases hstart

/-- A closing parenthesis ends every phrase. -/
theorem ends_closeParen (c : Category) (after : List Lexeme) : Ends c (.closeParen :: after) := by
  cases c with
  | expression level => exact Stops.of_binaryOp? rfl
  | arguments => exact ⟨Stops.of_binaryOp? rfl, nofun⟩

theorem determined_arguments {n : Nat} (h : Determined n (.expression 1)) :
    Determined n .arguments
  | last t, last t', rest, rest', hn, hrest, hrest', heq => by
    obtain ⟨rfl, hrests⟩ := h t t' rest rest' hn hrest.1 hrest'.1 heq
    exact ⟨rfl, hrests⟩
  | last t, more first' others', rest, rest', hn, hrest, _, heq => by
    simp only [lexemes, List.append_assoc] at heq
    exact absurd (h t first' _ _ hn hrest.1 (ends_comma _) heq).2 (hrest.2 _)
  | more first others, last t', rest, rest', hn, _, hrest', heq => by
    rw [lexemes, List.length_append] at hn
    simp only [lexemes, List.append_assoc] at heq
    have hfirst := h first t' _ _ (Nat.le_of_add_right_le hn) (ends_comma _) hrest'.1 heq
    exact absurd hfirst.2.symm (hrest'.2 _)
  | more first others, more first' others', rest, rest', hn, hrest, hrest', heq => by
    rw [lexemes, List.length_append, List.length_cons] at hn
    rw [lexemes, lexemes, List.append_assoc, List.append_assoc] at heq
    obtain ⟨rfl, hothers⟩ := h first first' _ _ (by omega) (ends_comma _) (ends_comma _) heq
    obtain ⟨rfl, hrests⟩ := determined_arguments h others others' rest rest' (by omega) hrest
      hrest' (List.cons.inj hothers).2
    exact ⟨rfl, hrests⟩

/-! ## Operands and their first lexemes -/

theorem exists_eq_unary {t : Phrase (.expression 5)} {op : UnaryOp} {rest after : List Lexeme}
    (h : t.lexemes ++ rest = op.lexeme :: after) :
    ∃ operand, t = .unary op operand ∧ operand.lexemes ++ rest = after := by
  have hstart := congrArg (fun ls => ls.head?.bind start?) h
  cases t using operandCases with
  | unary op' operand =>
    simp [lexemes] at hstart
    subst hstart
    exact ⟨operand, rfl, (List.cons.inj h).2⟩
  | _ => simp [lexemes] at hstart

theorem eq_literal {t : Phrase (.expression 5)} {v : Literal} {rest after : List Lexeme}
    (h : t.lexemes ++ rest = v.lexeme :: after) : t = .literal v ∧ rest = after := by
  have hstart := congrArg (fun ls => ls.head?.bind start?) h
  cases t using operandCases with
  | literal v' =>
    simp [lexemes] at hstart
    subst hstart
    exact ⟨rfl, (List.cons.inj h).2⟩
  | _ => simp [lexemes] at hstart

theorem exists_eq_path {t : Phrase (.expression 5)} {raw : List RawSegment}
    {rest after : List Lexeme} (h : t.lexemes ++ rest = .path raw :: after) :
    (∃ segments hsegments, t = .path raw segments hsegments) ∧ rest = after := by
  have hstart := congrArg (fun ls => ls.head?.bind start?) h
  cases t using operandCases with
  | path raw' segments hsegments =>
    simp [lexemes] at hstart
    subst hstart
    exact ⟨⟨segments, hsegments, rfl⟩, (List.cons.inj h).2⟩
  | _ => simp [lexemes] at hstart

theorem exists_eq_paren {t : Phrase (.expression 5)} {rest after : List Lexeme}
    (h : t.lexemes ++ rest = .openParen :: after) :
    ∃ inner, t = .paren inner ∧ inner.lexemes ++ .closeParen :: rest = after := by
  have hstart := congrArg (fun ls => ls.head?.bind start?) h
  cases t using operandCases with
  | paren inner =>
    simp only [lexemes, List.cons_append, List.append_assoc, List.cons.injEq, true_and] at h
    exact ⟨inner, rfl, h⟩
  | _ => simp [lexemes] at hstart

theorem exists_eq_call {t : Phrase (.expression 5)} {name : String} {rest after : List Lexeme}
    (h : t.lexemes ++ rest = .function name :: after) :
    (t = .emptyCall name ∧ .closeParen :: rest = after) ∨
      ∃ args, t = .call name args ∧ args.lexemes ++ .closeParen :: rest = after := by
  have hstart := congrArg (fun ls => ls.head?.bind start?) h
  cases t using operandCases with
  | emptyCall name' =>
    simp [lexemes] at hstart
    subst hstart
    exact .inl ⟨rfl, (List.cons.inj h).2⟩
  | call name' args =>
    simp [lexemes] at hstart
    subst hstart
    simp only [lexemes, List.cons_append, List.append_assoc, List.cons.injEq, true_and] at h
    exact .inr ⟨args, rfl, h⟩
  | _ => simp [lexemes] at hstart

/-- Operands from the phrases within them. -/
theorem determined_operand {n : Nat} (hoperand : Determined n (.expression 5))
    (hwhole : Determined n (.expression 1)) : Determined (n + 1) (.expression 5) := by
  intro t t' rest rest' hn hrest hrest' heq
  cases t using operandCases with
  | unary op operand =>
    rw [lexemes, List.length_cons] at hn
    obtain ⟨operand', rfl, hafter⟩ := exists_eq_unary heq.symm
    obtain ⟨rfl, hrests⟩ :=
      hoperand operand operand' rest rest' (by omega) hrest hrest' hafter.symm
    exact ⟨rfl, hrests⟩
  | literal v =>
    obtain ⟨rfl, hrests⟩ := eq_literal heq.symm
    exact ⟨rfl, hrests.symm⟩
  | path raw segments h =>
    obtain ⟨⟨segments', h', rfl⟩, hrests⟩ := exists_eq_path heq.symm
    cases h.symm.trans h'
    exact ⟨rfl, hrests.symm⟩
  | paren t =>
    simp only [lexemes, List.length_cons, List.length_append] at hn
    obtain ⟨t', rfl, hafter⟩ := exists_eq_paren heq.symm
    rw [List.append_eq, List.append_assoc] at hafter
    obtain ⟨rfl, hrests⟩ := hwhole t t' _ _ (by omega) (ends_closeParen _ _)
      (ends_closeParen _ _) hafter.symm
    exact ⟨rfl, (List.cons.inj hrests).2⟩
  | emptyCall name =>
    rcases exists_eq_call heq.symm with ⟨rfl, hafter⟩ | ⟨args', rfl, hafter⟩
    · exact ⟨rfl, (List.cons.inj hafter).2.symm⟩
    · exact absurd hafter (args'.append_ne_closeParen _ _)
  | call name args =>
    simp only [lexemes, List.length_cons, List.length_append] at hn
    rcases exists_eq_call heq.symm with ⟨rfl, hafter⟩ | ⟨args', rfl, hafter⟩
    · rw [List.append_eq, List.append_assoc] at hafter
      exact absurd hafter.symm (args.append_ne_closeParen _ _)
    · rw [List.append_eq, List.append_assoc] at hafter
      obtain ⟨rfl, hrests⟩ := determined_arguments hwhole args args' _ _ (by omega)
        (ends_closeParen _ _) (ends_closeParen _ _) hafter.symm
      exact ⟨rfl, (List.cons.inj hrests).2⟩

/-! ## Unambiguity -/

/-- Whole expressions from operands. -/
theorem determined_whole {n : Nat} (h : Determined n (.expression 5)) :
    Determined n (.expression 1) := by
  have h4 := determined_level h (Nat.le_refl 4)
  have h3 := determined_level h4 (by decide)
  have h2 := determined_level h3 (by decide)
  exact determined_level h2 (by decide)

theorem determined (n : Nat) : Determined n (.expression 5) := by
  induction n with
  | zero =>
    intro t _ _ _ hn
    have := t.length_lexemes_pos
    omega
  | succ n ih => exact determined_operand ih (determined_whole ih)

/-- The grammar is unambiguous. -/
theorem eq_of_lexemes_eq {t t' : Phrase (.expression 1)} (h : t.lexemes = t'.lexemes) : t = t' :=
  (determined_whole (determined _) t t' [] [] (Nat.le_refl _) nofun nofun (by rw [h])).1

end Phrase

end Expr

end XmlTemplate
