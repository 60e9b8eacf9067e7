import XmlTemplate.Proofs.Expr.Grammar

/-!
# The parser and the grammar

The parser accepts the expressions of the grammar and gives the tree of the derivation. It never
refuses a lexeme of a phrase, whatever operators wait. What it has read always consists of phrases
that its stack waits to put together, so what it gives is the tree of some derivation. As there is
only one, this is the right one.
-/

namespace XmlTemplate

namespace Expr

open XmlTemplate.Expr.Parser (next? finish? complete reduce)

variable {frames outer : List Frame} {x value : Expr}

namespace Parser

/-! ## One lexeme -/

theorem next?_unary (op : UnaryOp) (frames : List Frame) (b : Bool) :
    next? ⟨frames, .awaiting b⟩ op.lexeme = some ⟨.unary op :: frames, .awaiting false⟩ := by
  cases op <;> rfl

theorem next?_literal (v : Literal) (frames : List Frame) (b : Bool) :
    next? ⟨frames, .awaiting b⟩ v.lexeme = some (complete (.literal v) frames) := by
  cases v with
  | bool v => cases v <;> rfl
  | _ => rfl

theorem next?_path (raw : List RawSegment) (frames : List Frame) (b : Bool) :
    next? ⟨frames, .awaiting b⟩ (.path raw) =
      (raw.mapM segment?).map fun segments => complete (.path segments) frames :=
  toOption_step_path (fun _ _ _ => rfl) frames b 0

theorem next?_openParen (frames : List Frame) (b : Bool) :
    next? ⟨frames, .awaiting b⟩ .openParen = some ⟨.paren :: frames, .awaiting false⟩ :=
  rfl

theorem next?_function (name : String) (frames : List Frame) (b : Bool) :
    next? ⟨frames, .awaiting b⟩ (.function name) =
      some ⟨.call name [] :: frames, .awaiting true⟩ :=
  rfl

theorem next?_emptyCall (name : String) (args : List Expr) (outer : List Frame) :
    next? ⟨.call name args :: outer, .awaiting true⟩ .closeParen =
      some (complete (.call name []) outer) :=
  rfl

theorem next?_binary (op : BinaryOp) (x : Expr) (frames : List Frame) :
    next? ⟨frames, .holding x⟩ op.lexeme =
      some ⟨.binary (reduce op.level x frames).1 op :: (reduce op.level x frames).2,
        .awaiting false⟩ := by
  cases op <;> rfl

theorem next?_paren (h : reduce 0 x frames = (value, .paren :: outer)) :
    next? ⟨frames, .holding x⟩ .closeParen = some (complete value outer) := by
  simp [next?, step, binaryOp?, h, Except.toOption]

theorem next?_call {name : String} {args : List Expr}
    (h : reduce 0 x frames = (value, .call name args :: outer)) :
    next? ⟨frames, .holding x⟩ .closeParen =
      some (complete (.call name (value :: args).reverse) outer) := by
  simp [next?, step, binaryOp?, h, Except.toOption]

theorem next?_comma {name : String} {args : List Expr}
    (h : reduce 0 x frames = (value, .call name args :: outer)) :
    next? ⟨frames, .holding x⟩ .comma =
      some ⟨.call name (value :: args) :: outer, .awaiting false⟩ := by
  simp [next?, step, binaryOp?, h, Except.toOption]

theorem finish?_holding (h : reduce 0 x frames = (value, [])) :
    finish? ⟨frames, .holding x⟩ = some value := by
  simp [finish?, finish, h, Except.toOption]

/-- What the parser can do with nothing in hand. -/
theorem next?_awaiting {b : Bool} {l : Lexeme} {p : Parser}
    (h : next? ⟨frames, .awaiting b⟩ l = some p) :
    (∃ op : UnaryOp, l = op.lexeme ∧ p = ⟨.unary op :: frames, .awaiting false⟩) ∨
      (∃ t : Phrase (.expression 5), t.lexemes = [l] ∧ p = complete t.tree frames) ∨
      (l = .openParen ∧ p = ⟨.paren :: frames, .awaiting false⟩) ∨
      (∃ name, l = .function name ∧ p = ⟨.call name [] :: frames, .awaiting true⟩) ∨
      ∃ name args outer, l = .closeParen ∧ b = true ∧ frames = .call name args :: outer ∧
        p = complete (.call name []) outer := by
  cases l with
  | plus => exact .inl ⟨.plus, rfl, (Option.some.inj h).symm⟩
  | minus => exact .inl ⟨.minus, rfl, (Option.some.inj h).symm⟩
  | not => exact .inl ⟨.not, rfl, (Option.some.inj h).symm⟩
  | null => exact .inr (.inl ⟨.literal .null, rfl, (Option.some.inj h).symm⟩)
  | true => exact .inr (.inl ⟨.literal (.bool true), rfl, (Option.some.inj h).symm⟩)
  | false => exact .inr (.inl ⟨.literal (.bool false), rfl, (Option.some.inj h).symm⟩)
  | number n => exact .inr (.inl ⟨.literal (.number n), rfl, (Option.some.inj h).symm⟩)
  | string s => exact .inr (.inl ⟨.literal (.string s), rfl, (Option.some.inj h).symm⟩)
  | path raw =>
    rw [next?_path] at h
    obtain ⟨segments, hsegments, rfl⟩ := Option.map_eq_some_iff.1 h
    exact .inr (.inl ⟨.path raw segments hsegments, rfl, rfl⟩)
  | openParen => exact .inr (.inr (.inl ⟨rfl, (Option.some.inj h).symm⟩))
  | function name => exact .inr (.inr (.inr (.inl ⟨name, rfl, (Option.some.inj h).symm⟩)))
  | closeParen =>
    rcases frames with _ | ⟨_ | _ | _ | ⟨name, args⟩, outer⟩ <;> cases b <;> cases h
    exact .inr (.inr (.inr (.inr ⟨name, args, outer, rfl, rfl, rfl, rfl⟩)))
  | _ => cases h

theorem lexeme_eq_of_binaryOp? {l : Lexeme} {op : BinaryOp} (h : binaryOp? l = some op) :
    l = op.lexeme := by
  cases l <;> cases h <;> rfl

/-- What the parser can do with an operand in hand. -/
theorem next?_holding {l : Lexeme} {p : Parser} (h : next? ⟨frames, .holding x⟩ l = some p) :
    (∃ op : BinaryOp, l = op.lexeme ∧
        p = ⟨.binary (reduce op.level x frames).1 op :: (reduce op.level x frames).2,
          .awaiting false⟩) ∨
      (∃ value outer, l = .closeParen ∧ reduce 0 x frames = (value, .paren :: outer) ∧
        p = complete value outer) ∨
      (∃ value name args outer, l = .closeParen ∧
        reduce 0 x frames = (value, .call name args :: outer) ∧
        p = complete (.call name (value :: args).reverse) outer) ∨
      ∃ value name args outer, l = .comma ∧
        reduce 0 x frames = (value, .call name args :: outer) ∧
        p = ⟨.call name (value :: args) :: outer, .awaiting false⟩ := by
  unfold next? step at h
  cases hop : binaryOp? l with
  | some op =>
    simp only [hop] at h
    exact .inl ⟨op, lexeme_eq_of_binaryOp? hop, (Option.some.inj h).symm⟩
  | none =>
    rcases hreduce : reduce 0 x frames with ⟨value, rest⟩
    simp only [hop, hreduce] at h
    split at h
    · exact .inr (.inl ⟨_, _, rfl, rfl, (Option.some.inj h).symm⟩)
    · exact .inr (.inr (.inl ⟨_, _, _, _, rfl, rfl, (Option.some.inj h).symm⟩))
    · exact .inr (.inr (.inr ⟨_, _, _, _, rfl, rfl, (Option.some.inj h).symm⟩))
    · cases h

/-! ## Every phrase is accepted -/

/-- What the parser holds an operand for, once the signs in front of it are applied. -/
def signed : List Frame → List Frame
  | .unary _ :: outer => signed outer
  | frames => frames

/-- The innermost open parenthesis or call, when all operators are applied. -/
def enclosing : List Frame → List Frame
  | .binary _ _ :: outer => enclosing outer
  | frames => frames

theorem exists_complete (x : Expr) (frames : List Frame) :
    ∃ y, complete x frames = ⟨signed frames, .holding y⟩ := by
  fun_induction complete x frames with
  | case1 x op outer ih => exact ih
  | case2 x frames hframes =>
    refine ⟨x, ?_⟩
    unfold signed
    split
    · exact absurd rfl (hframes _ _)
    · rfl

theorem enclosing_reduce (level : Nat) (x : Expr) (frames : List Frame) :
    enclosing (reduce level x frames).2 = enclosing frames := by
  fun_induction reduce level x frames with
  | case1 x left op outer hle ih => exact ih
  | case2 => rfl
  | case3 => rfl

theorem reduce_zero (x : Expr) (frames : List Frame) :
    (reduce 0 x frames).2 = enclosing frames := by
  fun_induction reduce 0 x frames with
  | case1 x left op outer hle ih => exact ih
  | case2 x left op outer hlt => exact absurd (Nat.zero_le _) hlt
  | case3 x frames hframes =>
    unfold enclosing
    split
    · exact absurd rfl (hframes _ _ _)
    · rfl

/-- The parser reads the lexemes. -/
def Runs (p : Parser) (ls : List Lexeme) (p' : Parser) : Prop := ls.foldlM next? p = some p'

theorem Runs.nil (p : Parser) : Runs p [] p := rfl

theorem Runs.cons {p p₁ p' : Parser} {l : Lexeme} {ls : List Lexeme} (h : next? p l = some p₁)
    (k : Runs p₁ ls p') : Runs p (l :: ls) p' := by
  rw [Runs, List.foldlM_cons, h]
  exact k

theorem Runs.append {p p₁ p' : Parser} {ls ls' : List Lexeme} (h : Runs p ls p₁)
    (k : Runs p₁ ls' p') : Runs p (ls ++ ls') p' := by
  rw [Runs, List.foldlM_append, h]
  exact k

/-- The parser reads the lexemes and then holds an operand for what it held none for before. -/
def Fills (frames : List Frame) (b : Bool) (ls : List Lexeme) : Prop :=
  ∃ frames' x, Runs ⟨frames, .awaiting b⟩ ls ⟨frames', .holding x⟩ ∧
    enclosing frames' = enclosing (signed frames)

theorem fills_of_complete {b : Bool} {ls : List Lexeme}
    (h : Runs ⟨frames, .awaiting b⟩ ls (complete x frames)) : Fills frames b ls := by
  obtain ⟨y, hy⟩ := exists_complete x frames
  rw [hy] at h
  exact ⟨_, y, h, rfl⟩

/-- The parser reads the phrase, wherever it is. -/
def Accepted : {c : Category} → Phrase c → Prop
  | .expression _, t => ∀ frames b, Fills frames b t.lexemes
  | .arguments, t => ∀ name args outer b, ∃ frames' x value args',
      Runs ⟨.call name args :: outer, .awaiting b⟩ t.lexemes ⟨frames', .holding x⟩ ∧
        reduce 0 x frames' = (value, .call name args' :: outer)

/-- In parentheses and calls, the parser goes back to them when the phrase ends. -/
theorem Fills.exists_reduce {frame : Frame} {b : Bool} {ls : List Lexeme}
    (h : Fills (frame :: outer) b ls)
    (hframe : enclosing (signed (frame :: outer)) = frame :: outer) :
    ∃ frames' x value, Runs ⟨frame :: outer, .awaiting b⟩ ls ⟨frames', .holding x⟩ ∧
      reduce 0 x frames' = (value, frame :: outer) := by
  obtain ⟨frames', x, hrun, henclose⟩ := h
  have hrest := (reduce_zero x frames').trans (henclose.trans hframe)
  exact ⟨frames', x, _, hrun, Prod.ext rfl hrest⟩

theorem accepted (c : Category) (t : Phrase c) : Accepted t := by
  induction t with
  | binary op _ left right ihl ihr =>
    intro frames b
    obtain ⟨framesl, x, hl, henclosel⟩ := ihl frames b
    obtain ⟨framesr, y, hr, hencloser⟩ :=
      ihr (.binary (reduce op.level x framesl).1 op :: (reduce op.level x framesl).2) false
    refine ⟨framesr, y, hl.append (.cons (next?_binary op x framesl) hr), ?_⟩
    rw [hencloser, ← henclosel]
    exact enclosing_reduce op.level x framesl
  | tighter _ t ih => exact ih
  | unary op operand ih =>
    intro frames b
    obtain ⟨frames', x, hrun, henclose⟩ := ih (.unary op :: frames) false
    exact ⟨frames', x, .cons (next?_unary op frames b) hrun, henclose⟩
  | literal v =>
    intro frames b
    exact fills_of_complete (.cons (next?_literal v frames b) (.nil _))
  | path raw segments h =>
    intro frames b
    have hpath := next?_path raw frames b
    rw [h, Option.map_some] at hpath
    exact fills_of_complete (.cons hpath (.nil _))
  | paren t ih =>
    intro frames b
    obtain ⟨frames', x, value, hrun, hreduce⟩ :=
      (ih (.paren :: frames) false).exists_reduce rfl
    have hclose := hrun.append (.cons (next?_paren hreduce) (.nil _))
    exact fills_of_complete (.cons (next?_openParen frames b) hclose)
  | emptyCall name =>
    intro frames b
    have hclose := Runs.cons (next?_emptyCall name [] frames) (.nil _)
    exact fills_of_complete (.cons (next?_function name frames b) hclose)
  | call name args ih =>
    intro frames b
    obtain ⟨frames', x, value, done, hrun, hreduce⟩ := ih name [] frames true
    have hclose := hrun.append (.cons (next?_call hreduce) (.nil _))
    exact fills_of_complete (.cons (next?_function name frames b) hclose)
  | last t ih =>
    intro name args outer b
    obtain ⟨frames', x, value, hrun, hreduce⟩ :=
      (ih (.call name args :: outer) b).exists_reduce rfl
    exact ⟨frames', x, value, args, hrun, hreduce⟩
  | more first rest ihf ihr =>
    intro name args outer b
    obtain ⟨framesf, x, value, hf, hreducef⟩ :=
      (ihf (.call name args :: outer) b).exists_reduce rfl
    obtain ⟨framesr, y, last, done, hr, hreducer⟩ := ihr name (value :: args) outer false
    exact ⟨framesr, y, last, done, hf.append (.cons (next?_comma hreducef) hr), hreducer⟩

/-- A phrase is an expression for the parser. -/
theorem exists_finish (t : Phrase (.expression 1)) :
    ∃ e, (t.lexemes.foldlM next? ⟨[], .awaiting false⟩).bind finish? = some e := by
  obtain ⟨frames, x, hrun, henclose⟩ := accepted _ t [] false
  have hreduce : reduce 0 x frames = (_, []) :=
    Prod.ext rfl ((reduce_zero x frames).trans henclose)
  exact ⟨_, by rw [hrun, Option.bind_some, finish?_holding hreduce]⟩

/-! ## What was read consists of phrases -/

theorem loosen {level level' : Nat} (t : Phrase (.expression level')) (hle : level ≤ level')
    (hlevel' : level' ≤ 5) :
    ∃ t' : Phrase (.expression level), t'.lexemes = t.lexemes ∧ t'.tree = t.tree := by
  induction hle with
  | refl => exact ⟨t, rfl, rfl⟩
  | step hle ih =>
    exact ih (.tighter (Nat.le_of_succ_le_succ hlevel') t) (Nat.le_of_succ_le hlevel')

/-- Arguments with one more. -/
theorem exists_snoc (args : Phrase .arguments) (t : Phrase (.expression 1)) :
    ∃ args' : Phrase .arguments, args'.lexemes = args.lexemes ++ .comma :: t.lexemes ∧
      args'.tree = args.tree ++ [t.tree] := by
  match args with
  | .last first => exact ⟨.more first (.last t), rfl, rfl⟩
  | .more first rest =>
    obtain ⟨args', hlexemes, htree⟩ := exists_snoc rest t
    refine ⟨.more first args', ?_, ?_⟩
    · simp [Phrase.lexemes, hlexemes]
    · simp [Phrase.tree, htree]

/-- No sign waits for the operand, nor does an operator that binds as tightly as `level`. -/
def Below (level : Nat) : List Frame → Prop
  | .unary _ :: _ => False
  | .binary _ op :: _ => op.level < level
  | _ => True

/-- The lexemes before an operand that the frames wait for. -/
inductive Waiting : List Frame → List Lexeme → Prop where
  | nil : Waiting [] []
  | unary {frames : List Frame} {before : List Lexeme} (op : UnaryOp)
      (h : Waiting frames before) : Waiting (.unary op :: frames) (before ++ [op.lexeme])
  | binary {frames : List Frame} {before : List Lexeme} (op : BinaryOp)
      (left : Phrase (.expression op.level)) (h : Waiting frames before)
      (hbelow : Below op.level frames) :
      Waiting (.binary left.tree op :: frames) (before ++ left.lexemes ++ [op.lexeme])
  | paren {frames : List Frame} {before : List Lexeme} (h : Waiting frames before) :
      Waiting (.paren :: frames) (before ++ [.openParen])
  | call {frames : List Frame} {before : List Lexeme} (name : String)
      (h : Waiting frames before) :
      Waiting (.call name [] :: frames) (before ++ [.function name])
  | argument {frames : List Frame} {before : List Lexeme} (name : String)
      (args : Phrase .arguments) (h : Waiting frames before) :
      Waiting (.call name args.tree.reverse :: frames)
        (before ++ .function name :: (args.lexemes ++ [.comma]))

/-- What the parser read before. -/
inductive Consistent : Parser → List Lexeme → Prop where
  | awaiting {frames : List Frame} {before : List Lexeme} (h : Waiting frames before) :
      Consistent ⟨frames, .awaiting false⟩ before
  | called {frames : List Frame} {before : List Lexeme} (name : String)
      (h : Waiting frames before) :
      Consistent ⟨.call name [] :: frames, .awaiting true⟩ (before ++ [.function name])
  | holding {frames : List Frame} {before : List Lexeme} (t : Phrase (.expression 5))
      (h : Waiting frames before) (hbelow : Below 5 frames) :
      Consistent ⟨frames, .holding t.tree⟩ (before ++ t.lexemes)

theorem consistent_complete {before : List Lexeme} (h : Waiting frames before)
    (t : Phrase (.expression 5)) :
    Consistent (complete t.tree frames) (before ++ t.lexemes) := by
  induction h generalizing t with
  | unary op h ih =>
    have hunary := ih (.unary op t)
    rw [List.append_assoc]
    exact hunary
  | binary op left h hbelow =>
    exact .holding t (.binary op left h hbelow) (Nat.lt_succ_of_le op.level_le)
  | nil => exact .holding t .nil trivial
  | paren h => exact .holding t (.paren h) trivial
  | call name h => exact .holding t (.call name h) trivial
  | argument name args h => exact .holding t (.argument name args h) trivial

/-- If no operator is applied, then the operand is also a phrase of a lower level. -/
theorem waiting_stays {level level' : Nat} {before : List Lexeme} (h : Waiting frames before)
    (t : Phrase (.expression level')) (hbelow : Below level frames) (hle : level ≤ level')
    (hlevel' : level' ≤ 5) (hreduce : ∀ x, reduce level x frames = (x, frames)) :
    ∃ (t' : Phrase (.expression level)) (rest : List Frame) (before' : List Lexeme),
      reduce level t.tree frames = (t'.tree, rest) ∧ Waiting rest before' ∧
        Below level rest ∧ before' ++ t'.lexemes = before ++ t.lexemes := by
  obtain ⟨t', hlexemes, htree⟩ := loosen t hle hlevel'
  exact ⟨t', frames, before, by rw [hreduce, htree], h, hbelow, by rw [hlexemes]⟩

/-- The operand that operators were applied to is a phrase of their level. -/
theorem waiting_reduce {level level' : Nat} {before : List Lexeme} (h : Waiting frames before)
    (t : Phrase (.expression level')) (hbelow : Below level' frames) (hle : level ≤ level')
    (hlevel' : level' ≤ 5) :
    ∃ (t' : Phrase (.expression level)) (rest : List Frame) (before' : List Lexeme),
      reduce level t.tree frames = (t'.tree, rest) ∧ Waiting rest before' ∧
        Below level rest ∧ before' ++ t'.lexemes = before ++ t.lexemes := by
  induction h generalizing level' t with
  | nil => exact waiting_stays .nil t trivial hle hlevel' fun _ => rfl
  | unary op h => exact hbelow.elim
  | binary op left h hbelow' ih =>
    by_cases hop : level ≤ op.level
    · -- the operator is applied, and is on the left of the next one
      obtain ⟨right, hlexemes, htree⟩ := loosen t (Nat.succ_le_of_lt hbelow) hlevel'
      obtain ⟨t', rest, before', hreduce, hwaiting, hrest, hbefore⟩ :=
        ih (.binary op (mem_operators op) left right) hbelow' hop
          (Nat.le_succ_of_le op.level_le)
      refine ⟨t', rest, before', ?_, hwaiting, hrest, ?_⟩
      · rw [reduce, if_pos hop, ← hreduce, Phrase.tree, htree]
      · rw [hbefore, Phrase.lexemes, hlexemes]
        simp
    · refine waiting_stays (.binary op left h hbelow') t (Nat.lt_of_not_le hop) hle hlevel' ?_
      intro x
      rw [reduce, if_neg hop]
  | paren h => exact waiting_stays (.paren h) t trivial hle hlevel' fun _ => rfl
  | call name h => exact waiting_stays (.call name h) t trivial hle hlevel' fun _ => rfl
  | argument name args h =>
    exact waiting_stays (.argument name args h) t trivial hle hlevel' fun _ => rfl

/-- The operand that all operators were applied to is a whole expression. -/
theorem waiting_reduce_zero {rest : List Frame} {before : List Lexeme} (h : Waiting frames before)
    (t : Phrase (.expression 5)) (hbelow : Below 5 frames)
    (hreduce : reduce 0 t.tree frames = (value, rest)) :
    ∃ (t' : Phrase (.expression 1)) (before' : List Lexeme), t'.tree = value ∧
      Waiting rest before' ∧ before' ++ t'.lexemes = before ++ t.lexemes := by
  obtain ⟨t', rest', before', hreduce', hwaiting, -, hbefore⟩ :=
    waiting_reduce h t hbelow (Nat.zero_le 5) (Nat.le_refl 5)
  rw [hreduce] at hreduce'
  cases hreduce'
  cases t' with
  | binary op hop => cases hop
  | tighter _ t' => exact ⟨t', before', rfl, hwaiting, hbefore⟩

/-- The argument that was read last belongs to the others of the call. -/
theorem waiting_call {name : String} {args : List Expr} {before : List Lexeme}
    (h : Waiting (.call name args :: outer) before) (t : Phrase (.expression 1)) :
    ∃ (args' : Phrase .arguments) (before' : List Lexeme),
      args'.tree = (t.tree :: args).reverse ∧ Waiting outer before' ∧
        before' ++ .function name :: args'.lexemes = before ++ t.lexemes := by
  cases h with
  | call _ h => exact ⟨.last t, _, rfl, h, by simp [Phrase.lexemes]⟩
  | argument _ done h =>
    obtain ⟨args', hlexemes, htree⟩ := exists_snoc done t
    refine ⟨args', _, ?_, h, ?_⟩
    · rw [htree, List.reverse_cons, List.reverse_reverse]
    · simp [hlexemes]

/-- Whatever comes next, but the end of a call without arguments, comes after what was read. -/
theorem consistent_awaiting {b : Bool} {p : Parser} {before : List Lexeme} {l : Lexeme}
    (h : Waiting frames before) (hnext : next? ⟨frames, .awaiting b⟩ l = some p) :
    Consistent p (before ++ [l]) ∨
      ∃ name args outer, l = .closeParen ∧ b = true ∧ frames = .call name args :: outer ∧
        p = complete (.call name []) outer := by
  obtain ⟨op, rfl, rfl⟩ | ⟨t, hl, rfl⟩ | ⟨rfl, rfl⟩ | ⟨name, rfl, rfl⟩ | hclose :=
    next?_awaiting hnext
  · exact .inl (.awaiting (.unary op h))
  · rw [← hl]
    exact .inl (consistent_complete h t)
  · exact .inl (.awaiting (.paren h))
  · exact .inl (.called name h)
  · exact .inr hclose

theorem consistent_next? {p p' : Parser} {before : List Lexeme} {l : Lexeme}
    (h : Consistent p before) (hnext : next? p l = some p') :
    Consistent p' (before ++ [l]) := by
  cases h with
  | awaiting h =>
    rcases consistent_awaiting h hnext with hnext | ⟨_, _, _, _, hb, _⟩
    · exact hnext
    · cases hb
  | called name h =>
    rcases consistent_awaiting (.call name h) hnext with hnext | ⟨_, _, outer, rfl, _, hframes, rfl⟩
    · exact hnext
    · cases hframes
      rw [List.append_assoc]
      exact consistent_complete h (.emptyCall name)
  | holding t h hbelow =>
    obtain ⟨op, rfl, rfl⟩ | ⟨value, outer, rfl, hreduce, rfl⟩ |
      ⟨value, name, args, outer, rfl, hreduce, rfl⟩ |
      ⟨value, name, args, outer, rfl, hreduce, rfl⟩ := next?_holding hnext
    · obtain ⟨left, rest, before', hreduce, hwaiting, hrest, hbefore⟩ :=
        waiting_reduce h t hbelow (Nat.le_succ_of_le op.level_le) (Nat.le_refl 5)
      rw [hreduce, ← hbefore]
      exact .awaiting (.binary op left hwaiting hrest)
    · obtain ⟨inner, before', rfl, hwaiting, hbefore⟩ := waiting_reduce_zero h t hbelow hreduce
      rw [← hbefore]
      cases hwaiting with
      | paren h =>
        have hparen := consistent_complete h (.paren inner)
        simpa [Phrase.lexemes, Phrase.tree] using hparen
    · obtain ⟨last, before', rfl, hwaiting, hbefore⟩ := waiting_reduce_zero h t hbelow hreduce
      obtain ⟨args', outside, htree, houter, houtside⟩ := waiting_call hwaiting last
      rw [← hbefore, ← houtside, ← htree]
      have hcall := consistent_complete houter (.call name args')
      simpa [Phrase.lexemes, Phrase.tree] using hcall
    · obtain ⟨last, before', rfl, hwaiting, hbefore⟩ := waiting_reduce_zero h t hbelow hreduce
      obtain ⟨args', outside, htree, houter, houtside⟩ := waiting_call hwaiting last
      have hargument := Waiting.argument name args' houter
      rw [htree, List.reverse_reverse] at hargument
      rw [← hbefore, ← houtside]
      simpa using Consistent.awaiting hargument

theorem Runs.consistent {p p' : Parser} {before ls : List Lexeme} (hrun : Runs p ls p')
    (h : Consistent p before) : Consistent p' (before ++ ls) := by
  induction ls generalizing p before with
  | nil =>
    cases hrun
    rw [List.append_nil]
    exact h
  | cons l ls ih =>
    rw [Runs, List.foldlM_cons] at hrun
    obtain ⟨next, hnext, hafter⟩ := Option.bind_eq_some_iff.1 hrun
    have hrest := ih hafter (consistent_next? h hnext)
    rw [List.append_assoc] at hrest
    exact hrest

/-- What the parser gives is the tree of a phrase. -/
theorem exists_phrase {ls : List Lexeme} {e : Expr}
    (h : (ls.foldlM next? ⟨[], .awaiting false⟩).bind finish? = some e) :
    ∃ t : Phrase (.expression 1), t.lexemes = ls ∧ t.tree = e := by
  obtain ⟨p, hrun, hfinish⟩ := Option.bind_eq_some_iff.1 h
  have hconsistent := Runs.consistent hrun (.awaiting .nil)
  rw [List.nil_append] at hconsistent
  cases hconsistent with
  | awaiting => cases hfinish
  | called => cases hfinish
  | holding t hwait hbelow =>
    rcases hreduce : reduce 0 t.tree _ with ⟨value, rest⟩
    obtain ⟨t', before', rfl, hwaiting, hbefore⟩ := waiting_reduce_zero hwait t hbelow hreduce
    cases rest with
    | nil =>
      rw [finish?_holding hreduce] at hfinish
      cases hfinish
      cases hwaiting
      exact ⟨t', hbefore, rfl⟩
    | cons frame rest =>
      simp [finish?, finish, hreduce, Except.toOption] at hfinish

end Parser

/-- The parser gives the tree of the derivation, if there is one. -/
theorem foldlM_next?_iff {ls : List Lexeme} {e : Expr} :
    (ls.foldlM next? ⟨[], .awaiting false⟩).bind finish? = some e ↔
      ∃ t : Phrase (.expression 1), t.lexemes = ls ∧ t.tree = e := by
  constructor
  · exact Parser.exists_phrase
  · rintro ⟨t, rfl, rfl⟩
    obtain ⟨e, he⟩ := Parser.exists_finish t
    obtain ⟨t', hlexemes, rfl⟩ := Parser.exists_phrase he
    rw [Phrase.eq_of_lexemes_eq hlexemes] at he
    exact he

/-! ## Whole texts -/

/-- A text that tokenizes is the empty expression, which is false, or is parsed to the tree of its
derivation, and it has only one. -/
theorem parse_eq_ok_iff {source : String} {tokens : List Token}
    (h : Token.scan source.toList = .ok tokens) :
    (∀ e, parse source = .ok e ↔
      (tokens = [] ∧ e = .literal (.bool false)) ∨
        ∃ t : Phrase (.expression 1), t.lexemes = tokens.map Token.lexeme ∧ t.tree = e) ∧
      ∀ t t' : Phrase (.expression 1), t.lexemes = tokens.map Token.lexeme →
        t'.lexemes = tokens.map Token.lexeme → t = t' := by
  constructor
  · intro e
    have hparse : parse source = .ok e ↔ whole? source.toList = some e := by
      rw [← toOption_parse]
      cases parse source <;> simp [Except.toOption]
    rw [hparse, whole?, h]
    cases tokens with
    | nil =>
      -- no phrase is empty
      have hempty (t : Phrase (.expression 1)) : t.lexemes ≠ [] :=
        List.ne_nil_of_length_pos t.length_lexemes_pos
      simp [hempty, eq_comm]
    | cons first rest =>
      simp only [reduceCtorEq, false_and, false_or]
      exact foldlM_next?_iff
  · intro t t' ht ht'
    exact Phrase.eq_of_lexemes_eq (ht.trans ht'.symm)

/-- A difference of three terms, the last one a product with a sign and a call in it. -/
theorem parse_eq_ok_iff_difference :
    parse "a - b - c * -f(d)" = .ok (.binary .sub
      (.binary .sub (.path [.name "a"]) (.path [.name "b"]))
      (.binary .mul (.path [.name "c"]) (.unary .minus (.call "f" [.path [.name "d"]])))) := by
  have hscan : Token.scan "a - b - c * -f(d)".toList = .ok
      [⟨.path [.name "a"], 0⟩, ⟨.minus, 2⟩, ⟨.path [.name "b"], 4⟩, ⟨.minus, 6⟩,
        ⟨.path [.name "c"], 8⟩, ⟨.star, 10⟩, ⟨.minus, 12⟩, ⟨.function "f", 13⟩,
        ⟨.path [.name "d"], 15⟩, ⟨.closeParen, 16⟩] := by
    with_unfolding_all rfl
  let a : Phrase (.expression 5) := .path [.name "a"] [.name "a"] rfl
  let b : Phrase (.expression 5) := .path [.name "b"] [.name "b"] rfl
  let c : Phrase (.expression 5) := .path [.name "c"] [.name "c"] rfl
  let d : Phrase (.expression 5) := .path [.name "d"] [.name "d"] rfl
  let argument : Phrase (.expression 1) := .tighter (by decide) (.tighter (by decide)
    (.tighter (by decide) (.tighter (by decide) d)))
  let product : Phrase (.expression 4) := .binary .mul (by decide) (.tighter (by decide) c)
    (.unary .minus (.call "f" (.last argument)))
  let difference : Phrase (.expression 3) := .binary .sub (by decide)
    (.binary .sub (by decide) (.tighter (by decide) (.tighter (by decide) a))
      (.tighter (by decide) b)) product
  exact ((parse_eq_ok_iff hscan).1 _).2
    (.inr ⟨.tighter (by decide) (.tighter (by decide) difference), rfl, rfl⟩)

end Expr

end XmlTemplate
