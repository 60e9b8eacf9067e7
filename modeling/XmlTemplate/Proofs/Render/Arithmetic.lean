import XmlTemplate.Proofs.Number.Arithmetic
import XmlTemplate.Render.Session

/-!
# Arithmetic in expressions

Trees of arithmetic operators over integers, evaluated where a render meets them. What an operand
leaves of the session and the memory is where the evaluation of the next one starts, so each part of
a tree has a state of its own. The value of a tree is a number in any case; as long as all parts are
integers it is the exact one.
-/

namespace XmlTemplate.Render

/-- What steps of a render start from. -/
abbrev State := Session × Memory

variable (e : Engine) (place : Place)

/-- The value of an expression and the state behind it; none if the evaluation stops. -/
def value? (x : Expr) (c : State) : Option (Value × State) :=
  match evaluate e place x c.1 c.2 with
  | (.ok (v, s), m) => some (v, s, m)
  | (.error _, _) => none

/-- Arithmetic operators over integers, written out or behind paths. -/
inductive OverIntegers : Expr → State → Prop
  | literal (i : Int64) (c : State) : OverIntegers (.literal (.number (.int i))) c
  | path {segments : List Segment} {i : Int64} {c c' : State}
      (h : value? e place (.path segments) c = some (.int i, c')) :
      OverIntegers (.path segments) c
  | unary {op : UnaryOp} {x : Expr} {c : State} (hop : op.IsArithmetic) (hx : OverIntegers x c) :
      OverIntegers (.unary op x) c
  | binary {op : BinaryOp} {l r : Expr} {c : State} (hop : op.IsArithmetic)
      (hl : OverIntegers l c)
      (hr : ∀ v c', value? e place l c = some (v, c') → OverIntegers r c') :
      OverIntegers (.binary op l r) c

/-- A node of a tree of operators, with the state in which it is evaluated. -/
inductive Part : Expr → State → Expr → State → Prop
  | self (x : Expr) (c : State) : Part x c x c
  | operand {op : UnaryOp} {x y : Expr} {c d : State} (h : Part x c y d) :
      Part (.unary op x) c y d
  | left {op : BinaryOp} {l r y : Expr} {c d : State} (h : Part l c y d) :
      Part (.binary op l r) c y d
  | right {op : BinaryOp} {l r y : Expr} {v : Value} {c c' d : State}
      (hl : value? e place l c = some (v, c')) (h : Part r c' y d) :
      Part (.binary op l r) c y d

/-- The exact value of a tree of operators over integers. -/
def exactValue? : Expr → State → Option ℚ
  | .literal (.number (.int i)), _ => some i.toInt
  | .path segments, c =>
    match value? e place (.path segments) c with
    | some (.int i, _) => some i.toInt
    | _ => none
  | .unary op x, c => (exactValue? x c).bind op.exactly?
  | .binary op l r, c => do
    let a ← exactValue? l c
    let (_, c') ← value? e place l c
    let b ← exactValue? r c'
    op.exactly? a b
  | _, _ => none

/-- The number that an operator makes of integers stands for the exact value of the operator. -/
def IsExactAt (x : Expr) (c : State) : Prop :=
  match x with
  | .unary op x => ∀ a c', value? e place x c = some (.int a, c') →
    ∃ n q, value? e place (.unary op x) c = some (.ofNumber n, c') ∧
      op.exactly? a.toInt = some q ∧ n.StandsFor q
  | .binary op l r => ∀ a b c' c'', value? e place l c = some (.int a, c') →
    value? e place r c' = some (.int b, c'') →
    ∃ n q, value? e place (.binary op l r) c = some (.ofNumber n, c'') ∧
      op.exactly? a.toInt b.toInt = some q ∧ n.StandsFor q
  | _ => True

variable {e : Engine} {place : Place} {c c' c'' : State}

/-! ## Values of trees -/

theorem value?_eq_some_iff {x : Expr} {v : Value} :
    value? e place x c = some (v, c') ↔ evaluate e place x c.1 c.2 = (.ok (v, c'.1), c'.2) := by
  unfold value?
  rcases evaluate e place x c.1 c.2 with ⟨_ | ⟨w, s⟩, m⟩
  · exact ⟨nofun, nofun⟩
  · constructor
    · rintro ⟨⟩
      rfl
    · rintro ⟨⟩
      rfl

theorem value?_literal (l : Literal) : value? e place (.literal l) c = some (l.toValue, c) := by
  simp [value?, evaluate, Expr.evaluate, pure_apply]

theorem value?_unary {op : UnaryOp} {x : Expr} {v : Value}
    (h : value? e place x c = some (v, c')) :
    value? e place (.unary op x) c = some (op.apply v, c') := by
  rw [value?_eq_some_iff, evaluate] at h ⊢
  simp only [Expr.evaluate, bind_apply, pure_apply, h]

theorem value?_binary {op : BinaryOp} {l r : Expr} {a b v : Value} (hop : op.IsArithmetic)
    (hl : value? e place l c = some (a, c')) (hr : value? e place r c' = some (b, c''))
    (hv : op.combine? a b = some v) : value? e place (.binary op l r) c = some (v, c'') := by
  rw [value?_eq_some_iff, evaluate] at hl hr ⊢
  cases op with
  | add | sub | mul | div | mod =>
    simp only [Expr.evaluate, bind_apply, pure_apply, hl, hr, hv]
  | _ => exact absurd hop (by decide)

/-- Every tree of operators over integers has a number for its value. -/
theorem OverIntegers.exists_value? {x : Expr} (h : OverIntegers e place x c) :
    ∃ n c', value? e place x c = some (.ofNumber n, c') := by
  induction h with
  | literal i c => exact ⟨.int i, c, value?_literal _⟩
  | path h => exact ⟨.int _, _, h⟩
  | unary hop _ ihx =>
    obtain ⟨n, c', hx⟩ := ihx
    obtain ⟨r, hr⟩ := UnaryOp.exists_apply_ofNumber hop n
    exact ⟨r, c', hr ▸ value?_unary hx⟩
  | binary hop _ _ ihl ihr =>
    obtain ⟨m, c', hl⟩ := ihl
    obtain ⟨n, c'', hr⟩ := ihr _ c' hl
    obtain ⟨r, hv⟩ := BinaryOp.exists_combine?_ofNumber hop m n
    exact ⟨r, c'', value?_binary hop hl hr hv⟩

theorem OverIntegers.isExactAt {x : Expr} (h : OverIntegers e place x c) :
    IsExactAt e place x c := by
  cases h with
  | literal i => trivial
  | path h => trivial
  | unary hop _ =>
    intro a c' hx
    obtain ⟨n, q, hn, hq, hfor⟩ := UnaryOp.apply_int hop a
    exact ⟨n, q, hn ▸ value?_unary hx, hq, hfor⟩
  | binary hop _ _ =>
    intro a b c' c'' hl hr
    obtain ⟨n, q, hn, hq, hfor⟩ := BinaryOp.combine?_int hop a b
    exact ⟨n, q, value?_binary hop hl hr hn, hq, hfor⟩

/-- The parts of a tree of operators over integers are such trees. -/
theorem OverIntegers.part {x y : Expr} {d : State} (hpart : Part e place x c y d)
    (h : OverIntegers e place x c) : OverIntegers e place y d := by
  induction hpart with
  | self => exact h
  | operand _ ih =>
    cases h with
    | unary _ hx => exact ih hx
  | left _ ih =>
    cases h with
    | binary _ hl _ => exact ih hl
  | right hvalue _ ih =>
    cases h with
    | binary _ _ hr => exact ih (hr _ _ hvalue)

/-- The node evaluates to an integer. -/
def IsIntegerAt (e : Engine) (place : Place) (x : Expr) (c : State) : Prop :=
  ∃ i c', value? e place x c = some (.int i, c')

theorem IsIntegerAt.ofNumber {x : Expr} {n : Number} (h : IsIntegerAt e place x c)
    (hn : value? e place x c = some (.ofNumber n, c')) : ∃ i, n = .int i := by
  obtain ⟨i, d, hi⟩ := h
  cases n with
  | int i => exact ⟨i, rfl⟩
  | float f =>
    rw [hi] at hn
    cases hn

/-- Over integers all the way, the value is the exact one. -/
theorem OverIntegers.exactValue?_eq {x : Expr} (h : OverIntegers e place x c)
    (hparts : ∀ y d, Part e place x c y d → IsIntegerAt e place y d) :
    ∃ i c', value? e place x c = some (.int i, c') ∧
      exactValue? e place x c = some (i.toInt : ℚ) := by
  induction h with
  | literal i c => exact ⟨i, c, value?_literal _, by simp [exactValue?]⟩
  | path h => exact ⟨_, _, h, by simp [exactValue?, h]⟩
  | @unary op x c hop hx ihx =>
    obtain ⟨a, c', ha, hexact⟩ := ihx fun y d hy => hparts y d (.operand hy)
    obtain ⟨n, q, hn, hq, hfor⟩ := (OverIntegers.unary hop hx).isExactAt a c' ha
    obtain ⟨i, rfl⟩ := (hparts _ _ (.self ..)).ofNumber hn
    have hvalue : (i.toInt : ℚ) = q := hfor
    exact ⟨i, c', hn, by simp only [exactValue?, hexact, Option.bind_some, hq, hvalue]⟩
  | @binary op l r c hop hl hr ihl ihr =>
    obtain ⟨a, c', ha, hexact⟩ := ihl fun y d hy => hparts y d (.left hy)
    obtain ⟨b, c'', hb, hexact'⟩ := ihr _ c' ha fun y d hy => hparts y d (.right ha hy)
    obtain ⟨n, q, hn, hq, hfor⟩ := (OverIntegers.binary hop hl hr).isExactAt a b c' c'' ha hb
    obtain ⟨i, rfl⟩ := (hparts _ _ (.self ..)).ofNumber hn
    have hvalue : (i.toInt : ℚ) = q := hfor
    exact ⟨i, c'', hn, by simp only [exactValue?, hexact, ha, hexact', Option.bind_eq_bind,
      Option.bind_some, hq, hvalue]⟩

/-- Integer arithmetic never wraps around. A tree of arithmetic operators over 64-bit integers has
a number for its value. If all of its parts are integers, this is the exact value of the tree.
Where operands are integers, the value of their operator stands for the exact one: it is a float
only if no 64-bit integer is. -/
theorem arithmetic_never_wraps {x : Expr} (h : OverIntegers e place x c) :
    (∃ n c', value? e place x c = some (.ofNumber n, c')) ∧
    ((∀ y d, Part e place x c y d → IsIntegerAt e place y d) →
      ∃ i c', value? e place x c = some (.int i, c') ∧
        exactValue? e place x c = some (i.toInt : ℚ)) ∧
    ∀ y d, Part e place x c y d → IsExactAt e place y d :=
  ⟨h.exists_value?, h.exactValue?_eq, fun _ _ hpart => (h.part hpart).isExactAt⟩

/-- A session on the smallest integer. -/
def smallest : State := (.start (.object [("n", .int Int64.minValue)]) none, .ofFiles ⟨[]⟩)

/-- `n mod -1` -/
def modMinusOne : Expr :=
  .binary .mod (.path [.name "n"]) (.unary .minus (.literal (.number (.int 1))))

/-- The one division of integers that has no room for its quotient leaves zero. -/
theorem arithmetic_never_wraps_smallest :
    OverIntegers .default ⟨0, 1⟩ modMinusOne smallest ∧
    (∀ y d, Part .default ⟨0, 1⟩ modMinusOne smallest y d → IsIntegerAt .default ⟨0, 1⟩ y d) ∧
    value? .default ⟨0, 1⟩ modMinusOne smallest = some (.int 0, smallest) ∧
    exactValue? .default ⟨0, 1⟩ modMinusOne smallest = some 0 := by
  have hpath : value? .default ⟨0, 1⟩ (.path [.name "n"]) smallest =
      some (.int Int64.minValue, smallest) := rfl
  have hone : value? .default ⟨0, 1⟩ (.literal (.number (.int 1))) smallest =
      some (.int 1, smallest) := value?_literal _
  have hminus : value? .default ⟨0, 1⟩ (.unary .minus (.literal (.number (.int 1)))) smallest =
      some (.int (-1), smallest) := value?_unary hone
  have hmod : value? .default ⟨0, 1⟩ modMinusOne smallest = some (.int 0, smallest) :=
    value?_binary (by decide) hpath hminus rfl
  have hover : OverIntegers .default ⟨0, 1⟩ modMinusOne smallest :=
    .binary (by decide) (.path hpath) fun _ _ _ => .unary (by decide) (.literal ..)
  have hparts : ∀ y d, Part .default ⟨0, 1⟩ modMinusOne smallest y d →
      IsIntegerAt .default ⟨0, 1⟩ y d := by
    intro y d hpart
    cases hpart with
    | self => exact ⟨_, _, hmod⟩
    | left h =>
      cases h
      exact ⟨_, _, hpath⟩
    | right hl h =>
      cases Option.some.inj (hpath.symm.trans hl)
      cases h with
      | self => exact ⟨_, _, hminus⟩
      | operand h =>
        cases h
        exact ⟨_, _, hone⟩
  obtain ⟨i, c', hi, hexact⟩ := (arithmetic_never_wraps hover).2.1 hparts
  cases Option.some.inj (hmod.symm.trans hi)
  exact ⟨hover, hparts, hmod, by simpa using hexact⟩

end XmlTemplate.Render
