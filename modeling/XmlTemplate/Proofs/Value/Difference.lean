import XmlTemplate.Proofs.Number.Text

/-!
# Equality against difference

Equality asks for the same truth and compares strings as texts; difference compares loosely, but a
float on its left as a text. So the two are not opposite to each other on all values. Where neither
a string nor a float on the left takes part they are, since what is loosely equal has the same
truth. The pairs for which both or neither of them hold are listed here by their kinds.
-/

namespace XmlTemplate

-- ---------------------------------------------------------------------------
-- Truth of what is loosely equal
-- ---------------------------------------------------------------------------

namespace Number

section

open Float.Model

variable {u v : UnpackedFloat}

theorem IsZero.of_compare (hu : IsZero u) (h : u.compare v = some .eq) : IsZero v := by
  obtain ⟨s, rfl⟩ := hu
  cases v with
  | zero t => exact ⟨t, rfl⟩
  | notANumber => cases h
  | infinity t | finite t => cases t <;> cases h

theorem isZero_iff_of_compare (h : u.compare v = some .eq) : IsZero u ↔ IsZero v := by
  have hswap : v.compare u = some .eq := by
    rw [unpacked_compare_swap, h]
    rfl
  exact ⟨(·.of_compare h), (·.of_compare hswap)⟩

end

/-- Numbers that compare as equal are zero both or none. -/
theorem isZero_eq_of_compare {m n : Number} (h : m.compare n = some .eq) :
    m.isZero = n.isZero := by
  have hfloats {f g : Float} (h : compareFloats f g = some .eq) : (f == 0.0) = (g == 0.0) := by
    rw [Bool.eq_iff_iff, beq_zero_iff, beq_zero_iff]
    exact isZero_iff_of_compare (compareFloats_eq f g ▸ h)
  match m, n with
  | int a, int b =>
    have hvalue : a = b := by simpa [compare, Int64.toInt_inj] using h
    rw [hvalue]
  | int a, float b | float a, int b | float a, float b => exact hfloats h

end Number

namespace Value

variable {a b : Value}

theorem isTruthy_ofNumber (n : Number) : (ofNumber n).isTruthy = !n.isZero := by
  cases n with
  | int i =>
    have hzero : (Number.int i).isZero = (i == 0) := by
      rw [Bool.eq_iff_iff, Number.isZero_int, beq_iff_eq]
    rw [hzero]
    rfl
  | float f => rfl

/-- What is loosely equal has the same truth, unless a string takes part. -/
theorem isTruthy_eq_of_looseEq (ha : a.isString = false) (hb : b.isString = false)
    (h : a.looseEq b = true) : a.isTruthy = b.isTruthy := by
  have hnumber {m n : Number} (h : (m.compare n == some .eq) = true) :
      (ofNumber m).isTruthy = (ofNumber n).isTruthy := by
    rw [isTruthy_ofNumber, isTruthy_ofNumber, Number.isZero_eq_of_compare (beq_iff_eq.1 h)]
  cases a with
  | null =>
    cases b with
    | string => cases hb
    | _ => simp_all [looseEq, agree, looseLeaf, isTruthy]
  | bool s =>
    rw [looseEq, agree_of_ne (by simp) (by simp), looseLeaf_bool_left, beq_iff_eq] at h
    exact h
  | string s => cases ha
  | int i =>
    cases b with
    | string => cases hb
    | int j => exact hnumber h
    | float g => exact hnumber h
    | _ => simp_all [looseEq, agree, looseLeaf, isTruthy]
  | float f =>
    cases b with
    | string => cases hb
    | int j => exact hnumber h
    | float g => exact hnumber h
    | _ => simp_all [looseEq, agree, looseLeaf, isTruthy]
  | array as =>
    cases b with
    | string => cases hb
    | array bs => cases as <;> cases bs <;> simp_all [looseEq, agree, isTruthy]
    | _ => simp_all [looseEq, agree, looseLeaf, isTruthy]
  | object as =>
    cases b with
    | string => cases hb
    | object bs => cases as <;> cases bs <;> simp_all [looseEq, agree, isTruthy]
    | _ => simp_all [looseEq, agree, looseLeaf, isTruthy]
  | host =>
    cases b with
    | string => cases hb
    | _ => simp_all [looseEq, agree, looseLeaf, isTruthy]

-- ---------------------------------------------------------------------------
-- The two tables
-- ---------------------------------------------------------------------------

/-- The number that a text reads as and the other one compare as equal. -/
def ReadsAs (s : String) (n : Number) : Prop :=
  ∃ m, Number.parse? s = some m ∧ n.compare m = some .eq

/-- Values of which both `==` and `!=` hold. -/
def EqualAndDifferent : Value → Value → Prop
  | float f, null => (float f).isTruthy = false
  | float f, bool t => (float f).isTruthy = t ∧ (t = true → Number.floatText f ≠ "1")
  | float f, int i =>
    (Number.float f).compare (.int i) = some .eq ∧ Number.floatText f ≠ (Number.int i).text
  | float f, float g =>
    (Number.float f).compare (.float g) = some .eq ∧ Number.floatText f ≠ Number.floatText g
  | string s, float f =>
    s = Number.floatText f ∧ (string s).isTruthy = (float f).isTruthy ∧
      (Number.parse? s).isSome ∧ ¬ ReadsAs s (.float f)
  | string s, host identity typeName properties shown
  | host identity typeName properties shown, string s =>
    (string s).isTruthy = true ∧ (host identity typeName properties shown).text? = some s
  | _, _ => False

/-- Values of which neither `==` nor `!=` holds. -/
def NeitherEqualNorDifferent : Value → Value → Prop
  | float f, int i =>
    (Number.float f).compare (.int i) ≠ some .eq ∧ Number.floatText f = (Number.int i).text
  | float f, float g =>
    (Number.float f).compare (.float g) ≠ some .eq ∧ Number.floatText f = Number.floatText g
  | float f, host identity typeName properties shown =>
    (host identity typeName properties shown).text? = some (Number.floatText f)
  | float f, string s =>
    Number.floatText f = s ∧ (float f).isTruthy ≠ (string s).isTruthy
  | string s, float f =>
    ReadsAs s (.float f) ∧
      (s = Number.floatText f → (string s).isTruthy ≠ (float f).isTruthy)
  | string s, string t => s ≠ t ∧ ∃ n, Number.parse? s = some n ∧ ReadsAs t n
  | int i, string s | string s, int i => s ≠ (Number.int i).text ∧ ReadsAs s (.int i)
  | bool t, string s | string s, bool t =>
    (string s).isTruthy = t ∧ some s ≠ (bool t).text?
  | _, _ => False

/-- The tables say of which values both hold, and of which neither. -/
def IsListed (a b : Value) : Prop :=
  (a.equal? b = some true ∧ a.differs b = true ↔ EqualAndDifferent a b) ∧
    (a.equal? b ≠ some true ∧ a.differs b ≠ true ↔ NeitherEqualNorDifferent a b)

/-- What the two operators come to on a pair decides whether the tables are right about it. -/
theorem IsListed.intro {p q : Prop} (hequal : a.equal? b = some true ↔ p)
    (hdiffers : a.differs b = true ↔ q) (hboth : EqualAndDifferent a b ↔ p ∧ q)
    (hneither : NeitherEqualNorDifferent a b ↔ ¬ p ∧ ¬ q) : IsListed a b := by
  rw [IsListed, ne_eq, ne_eq, hequal, hdiffers]
  exact ⟨hboth.symm, hneither.symm⟩

/-- Without strings, equality is loose equality. -/
theorem equal?_eq_looseEq (ha : a.isString = false) (hb : b.isString = false) :
    a.equal? b = some (a.looseEq b) := by
  unfold equal?
  split
  · rename_i htruth
    have hne : a.looseEq b ≠ true := fun h => by
      simp [isTruthy_eq_of_looseEq ha hb h] at htruth
    simpa using hne
  · simp [ha, hb]

theorem differs_of_ne_float (ha : ∀ f, a ≠ float f) (b : Value) :
    a.differs b = !a.looseEq b := by
  unfold differs
  split
  · exact absurd rfl (ha _)
  · rfl

theorem differs_float (f : Float) (b : Value) :
    (float f).differs b = (some (Number.floatText f) != b.text?) := rfl

/-- Neither a string nor a float on the left: equality and difference are opposite. -/
theorem isListed_of_plain (ha : a.isString = false) (hfloat : ∀ f, a ≠ float f)
    (hb : b.isString = false) : IsListed a b := by
  have hboth : ¬ EqualAndDifferent a b := by
    cases a <;> cases b <;> simp_all [EqualAndDifferent, isString]
  have hneither : ¬ NeitherEqualNorDifferent a b := by
    cases a <;> cases b <;> simp_all [NeitherEqualNorDifferent, isString]
  rw [IsListed, equal?_eq_looseEq ha hb, differs_of_ne_float hfloat]
  cases a.looseEq b <;> simp [hboth, hneither]

-- ---------------------------------------------------------------------------
-- A float on the left
-- ---------------------------------------------------------------------------

/-- A float that is false prints as neither `1` nor nothing. -/
theorem floatText_of_not_isTruthy {f : Float} (h : (float f).isTruthy = false) :
    Number.floatText f = "0" ∨ Number.floatText f = "-0" := by
  have hzero : (f == 0.0) = true := by simpa [isTruthy, bne] using h
  exact Number.floatText_of_isZero (Number.beq_zero_iff.1 hzero)

theorem isListed_float (f : Float) (hb : b.isString = false) : IsListed (float f) b := by
  have hempty := Number.floatText_ne_empty f
  rw [IsListed, equal?_eq_looseEq rfl hb, differs_float]
  cases b with
  | null => simp [looseEq, agree, looseLeaf, text?, EqualAndDifferent, NeitherEqualNorDifferent,
      hempty]
  | bool t =>
    have hone : (float f).isTruthy = false → Number.floatText f ≠ "1" := fun h => by
      rcases floatText_of_not_isTruthy h with h | h <;> simp [h]
    cases t <;> cases htruth : (float f).isTruthy <;>
      simp_all [looseEq, agree, looseLeaf, text?, EqualAndDifferent, NeitherEqualNorDifferent]
  | string s => cases hb
  | int i => simp [looseEq, agree, looseLeaf, text?, EqualAndDifferent, NeitherEqualNorDifferent]
  | float g => simp [looseEq, agree, looseLeaf, text?, EqualAndDifferent, NeitherEqualNorDifferent]
  | array items =>
    cases items <;>
      simp [looseEq, agree, looseLeaf, text?, EqualAndDifferent, NeitherEqualNorDifferent, hempty]
  | object fields =>
    cases fields <;>
      simp [looseEq, agree, looseLeaf, text?, EqualAndDifferent, NeitherEqualNorDifferent, hempty]
  | host identity typeName properties shown =>
    have hswap : (host identity typeName properties shown).text? = some (Number.floatText f) ↔
        some (Number.floatText f) = (host identity typeName properties shown).text? := eq_comm
    simp [looseEq, agree, looseLeaf, EqualAndDifferent, NeitherEqualNorDifferent, hswap]

-- ---------------------------------------------------------------------------
-- Strings
-- ---------------------------------------------------------------------------

variable {s : String}

theorem equal?_string_iff (ha : a.isCollection = false) (s : String) :
    a.equal? (string s) = some true ↔ a.isTruthy = (string s).isTruthy ∧ a.text? = some s := by
  have hstring : (string s).isString = true := rfl
  have hplain : (string s).isCollection = false := rfl
  have htext : (string s).text? = some s := rfl
  unfold equal?
  cases a.isTruthy <;> cases (string s).isTruthy <;> simp [ha, hstring, hplain, htext]

theorem looseEq_string (a : Value) (s : String) : a.looseEq (string s) = looseLeaf a (string s) :=
  agree_of_ne (by simp) (by simp)

/-- A string and a collection of the same truth cannot be compared. -/
theorem equal?_string_of_isCollection (ha : a.isCollection = true)
    (h : (a.equal? (string s)).isSome) : a.equal? (string s) = some false := by
  unfold equal? at h ⊢
  split
  · rfl
  · rename_i htruth
    rw [if_neg htruth] at h
    simp [ha, isString] at h

theorem looseLeaf_number_string_iff {n : Number} :
    looseLeaf (ofNumber n) (string s) = true ↔
      ReadsAs s n ∨ (Number.parse? s = none ∧ n.text = s) := by
  have hleaf : looseLeaf (ofNumber n) (string s) = numberEqText n s := by cases n <;> rfl
  rw [hleaf, numberEqText, ReadsAs]
  cases Number.parse? s <;> simp

/-- The text of an integer is true unless it is that of zero. -/
theorem isTruthy_text_int (i : Int64) :
    (string (Number.int i).text).isTruthy = (int i).isTruthy := by
  have hparse := Number.parse?_text_int i
  have hempty : (Number.int i).text ≠ "" := by
    intro h
    rw [h] at hparse
    cases hparse
  have hzero : (Number.int i).text = "0" ↔ i = 0 := by
    constructor
    · intro h
      rw [h] at hparse
      cases hparse
      rfl
    · rintro rfl
      rfl
  rw [Bool.eq_iff_iff]
  simp [isTruthy, hempty, hzero]

/-- Difference from a string, where no float is on the left. -/
theorem differs_string_iff (ha : ∀ f, a ≠ float f) :
    a.differs (string s) = true ↔ looseLeaf a (string s) = false := by
  rw [differs_of_ne_float ha, looseEq_string, Bool.not_eq_true']

theorem isListed_null_string (s : String) : IsListed null (string s) := by
  refine .intro (p := s = "") (q := s ≠ "") ?_ ?_ (by simp [EqualAndDifferent])
    (by simp [NeitherEqualNorDifferent])
  · rw [equal?_string_iff rfl]
    constructor
    · rintro ⟨-, htext⟩
      exact (Option.some.inj htext).symm
    · rintro rfl
      exact ⟨rfl, rfl⟩
  · rw [differs_string_iff (by simp)]
    simp [looseLeaf]

theorem isListed_bool_string (t : Bool) (s : String) : IsListed (bool t) (string s) := by
  refine .intro (equal?_string_iff rfl s) (q := (bool t).isTruthy ≠ (string s).isTruthy) ?_ ?_ ?_
  · rw [differs_string_iff (by simp), looseLeaf_bool_left, beq_eq_false_iff_ne]
    rfl
  · simp only [EqualAndDifferent]
    tauto
  · have ht : (bool t).isTruthy = t := rfl
    simp only [NeitherEqualNorDifferent, ht]
    grind

theorem isListed_int_string (i : Int64) (s : String) : IsListed (int i) (string s) := by
  have hreads : (Number.int i).text = s → ReadsAs s (.int i) := by
    rintro rfl
    exact ⟨_, Number.parse?_text_int i, by simp [Number.compare]⟩
  refine .intro (p := (Number.int i).text = s) (q := ¬ ReadsAs s (.int i)) ?_ ?_ ?_ ?_
  · rw [equal?_string_iff rfl]
    constructor
    · rintro ⟨-, htext⟩
      exact Option.some.inj htext
    · rintro rfl
      exact ⟨(isTruthy_text_int i).symm, rfl⟩
  · have hloose := looseLeaf_number_string_iff (n := .int i) (s := s)
    rw [differs_string_iff (by simp), ← Bool.not_eq_true]
    tauto
  · simp only [EqualAndDifferent]
    tauto
  · simp only [NeitherEqualNorDifferent]
    tauto

theorem looseLeaf_string_string_iff {s t : String} : looseLeaf (string s) (string t) = true ↔
    (∃ n, Number.parse? s = some n ∧ ReadsAs t n) ∨
      ((Number.parse? s = none ∨ Number.parse? t = none) ∧ s = t) := by
  simp only [looseLeaf, ReadsAs]
  cases Number.parse? s <;> cases Number.parse? t <;> simp

/-- Equal strings differ only if they read as a number that does not equal itself. -/
theorem isListed_string_string (s t : String) : IsListed (string s) (string t) := by
  have hself : s = t → looseLeaf (string s) (string t) = true := by
    rintro rfl
    rw [looseLeaf_string_string_iff]
    rcases hparse : Number.parse? s with _ | n
    · simp
    · exact .inl ⟨n, rfl, n, hparse, Number.compare_self_of_parse? hparse⟩
  refine .intro (p := s = t) (q := looseLeaf (string s) (string t) = false) ?_
    (differs_string_iff (by simp)) ?_ ?_
  · rw [equal?_string_iff rfl]
    constructor
    · rintro ⟨-, htext⟩
      exact Option.some.inj htext
    · rintro rfl
      exact ⟨rfl, rfl⟩
  · rw [← Bool.not_eq_true]
    simp only [EqualAndDifferent]
    tauto
  · rw [Bool.not_eq_false, looseLeaf_string_string_iff]
    simp only [NeitherEqualNorDifferent]
    by_cases hst : s = t <;> simp [hst]

theorem isListed_host_string (identity : Nat) (typeName : String)
    (properties : List (String × Value)) (shown : Option String) (s : String) :
    IsListed (host identity typeName properties shown) (string s) := by
  refine .intro (equal?_string_iff rfl s) (differs_string_iff (by simp)) ?_ ?_
  · have htrue : (host identity typeName properties shown).isTruthy = true := rfl
    simp [EqualAndDifferent, looseLeaf, htrue, eq_comm (a := true)]
  · simp [NeitherEqualNorDifferent, looseLeaf]

/-- A collection is comparable to a string of other truth only. -/
theorem isListed_collection_string (ha : a.isCollection = true)
    (h : (a.equal? (string s)).isSome) : IsListed a (string s) := by
  refine .intro (p := False) (q := True) ?_ ?_ ?_ ?_
  · simp [equal?_string_of_isCollection ha h]
  · cases a <;> simp_all [differs, isCollection, looseEq_string, looseLeaf]
  · cases a <;> simp_all [EqualAndDifferent, isCollection]
  · cases a <;> simp_all [NeitherEqualNorDifferent, isCollection]

/-- A string on the right of anything but a float. -/
theorem isListed_string (ha : ∀ f, a ≠ float f) (h : (a.equal? (string s)).isSome) :
    IsListed a (string s) := by
  cases a with
  | null => exact isListed_null_string s
  | bool t => exact isListed_bool_string t s
  | int i => exact isListed_int_string i s
  | float f => exact absurd rfl (ha f)
  | string t => exact isListed_string_string t s
  | array | object => exact isListed_collection_string rfl h
  | host => exact isListed_host_string ..

theorem equal?_string_comm (a : Value) (s : String) :
    (string s).equal? a = a.equal? (string s) := by
  have hstring : (string s).isString = true := rfl
  simp only [equal?, hstring, Bool.or_true, Bool.true_or, if_true, bne_comm (a := a.isTruthy),
    Bool.or_comm a.isCollection, BEq.comm (a := a.text?)]

/-- On the left of what is no float, a string is listed as on the right of it. -/
theorem isListed_string_left (ha : ∀ f, a ≠ float f) (hstring : a.isString = false)
    (h : IsListed a (string s)) : IsListed (string s) a := by
  have hdiffers : (string s).differs a = a.differs (string s) := by
    rw [differs_of_ne_float ha, differs_of_ne_float (by simp), looseEq_string, looseEq,
      agree_of_ne (by simp) (by simp), looseLeaf_comm]
  have hboth : EqualAndDifferent (string s) a ↔ EqualAndDifferent a (string s) := by
    cases a <;> simp_all [EqualAndDifferent, isString]
  have hneither : NeitherEqualNorDifferent (string s) a ↔
      NeitherEqualNorDifferent a (string s) := by
    cases a <;> simp_all [NeitherEqualNorDifferent, isString]
  rwa [IsListed, equal?_string_comm, hdiffers, hboth, hneither]

-- ---------------------------------------------------------------------------
-- Strings and floats
-- ---------------------------------------------------------------------------

theorem isListed_float_string (f : Float) (s : String) : IsListed (float f) (string s) := by
  have htext : (float f).text? = some s ↔ Number.floatText f = s := Option.some_inj
  refine .intro (q := Number.floatText f ≠ s) (equal?_string_iff rfl s) ?_ ?_ ?_
  · simp [differs_float, text?]
  · simp only [EqualAndDifferent]
    tauto
  · simp only [NeitherEqualNorDifferent]
    tauto

/-- A text that a float prints and that is no number is true, and so is the float. -/
theorem isTruthy_text_float {f : Float} (h : Number.parse? (Number.floatText f) = none) :
    (string (Number.floatText f)).isTruthy = (float f).isTruthy := by
  have hfloat : (float f).isTruthy = true := by
    rw [← Bool.not_eq_false]
    intro hfalse
    rcases floatText_of_not_isTruthy hfalse with htext | htext <;>
      (rw [htext] at h; cases h)
  have hempty := Number.floatText_ne_empty f
  have hzero : Number.floatText f ≠ "0" := by
    intro htext
    rw [htext] at h
    cases h
  rw [hfloat]
  simp [isTruthy, hempty, hzero]

theorem isListed_string_float (s : String) (f : Float) : IsListed (string s) (float f) := by
  have hloose : looseLeaf (float f) (string s) = true ↔
      ReadsAs s (.float f) ∨ (Number.parse? s = none ∧ Number.floatText f = s) :=
    looseLeaf_number_string_iff (n := .float f)
  have htruth : Number.parse? s = none → Number.floatText f = s →
      (string s).isTruthy = (float f).isTruthy := by
    rintro hparse rfl
    exact isTruthy_text_float hparse
  refine .intro (p := (string s).isTruthy = (float f).isTruthy ∧ s = Number.floatText f)
    (q := ¬ looseLeaf (float f) (string s) = true) ?_ ?_ ?_ ?_
  · rw [equal?_string_comm, equal?_string_iff rfl, eq_comm, eq_comm (a := s)]
    exact and_congr_right' Option.some_inj
  · rw [differs_of_ne_float (by simp), looseEq, agree_of_ne (by simp) (by simp), looseLeaf_comm]
    simp
  · rw [hloose]
    simp only [EqualAndDifferent, ← Option.ne_none_iff_isSome]
    grind
  · rw [hloose]
    simp only [NeitherEqualNorDifferent]
    grind

-- ---------------------------------------------------------------------------
-- All values
-- ---------------------------------------------------------------------------

/-- The tables list all pairs that can be compared. -/
theorem isListed (h : (a.equal? b).isSome) : IsListed a b := by
  by_cases hfloat : ∃ f, a = float f
  · obtain ⟨f, rfl⟩ := hfloat
    cases b with
    | string s => exact isListed_float_string f s
    | _ => exact isListed_float f rfl
  have ha : ∀ f, a ≠ float f := fun f heq => hfloat ⟨f, heq⟩
  cases b with
  | string s => exact isListed_string ha h
  | float g =>
    cases a with
    | string s => exact isListed_string_float s g
    | float f => exact absurd rfl (ha f)
    | _ => exact isListed_of_plain rfl ha rfl
  | _ =>
    cases a with
    | string s =>
      rw [equal?_string_comm] at h
      exact isListed_string_left (by simp) rfl (isListed_string (by simp) h)
    | float f => exact absurd rfl (ha f)
    | _ => exact isListed_of_plain rfl ha rfl

/-- `a == b` is true. -/
def IsEqual (a b : Value) : Prop := BinaryOp.eq.combine? a b = some (bool true)

/-- `a != b` is true. -/
def IsDifferent (a b : Value) : Prop := BinaryOp.ne.combine? a b = some (bool true)

theorem isEqual_iff : IsEqual a b ↔ a.equal? b = some true := by
  simp [IsEqual, BinaryOp.combine?]

theorem isDifferent_iff : IsDifferent a b ↔ a.differs b = true := by
  simp [IsDifferent, BinaryOp.combine?]

/-- Where values can be compared, exactly one of `==` and `!=` is true of them, unless the tables
list them as equal and different or as neither of it. -/
theorem exactly_one_of_eq_and_ne (h : (BinaryOp.eq.combine? a b).isSome) :
    (IsEqual a b ∧ IsDifferent a b ↔ EqualAndDifferent a b) ∧
    (¬ IsEqual a b ∧ ¬ IsDifferent a b ↔ NeitherEqualNorDifferent a b) ∧
    (Xor (IsEqual a b) (IsDifferent a b) ↔
      ¬ EqualAndDifferent a b ∧ ¬ NeitherEqualNorDifferent a b) := by
  have hcompared : (a.equal? b).isSome := by simpa [BinaryOp.combine?] using h
  obtain ⟨hboth, hneither⟩ := isListed hcompared
  rw [isEqual_iff, isDifferent_iff]
  refine ⟨hboth, hneither, ?_⟩
  rw [← hboth, ← hneither, Xor]
  tauto

/-- An integer and a text that reads as it without being its text. -/
theorem exactly_one_of_eq_and_ne_numeral :
    (BinaryOp.eq.combine? (int 1) (string "1.0")).isSome ∧
      NeitherEqualNorDifferent (int 1) (string "1.0") ∧
      ¬ Xor (IsEqual (int 1) (string "1.0")) (IsDifferent (int 1) (string "1.0")) := by
  obtain ⟨-, hneither, hxor⟩ := exactly_one_of_eq_and_ne (a := int 1) (b := string "1.0") rfl
  have hequal : ¬ IsEqual (int 1) (string "1.0") := by
    rw [isEqual_iff]
    decide
  have hdifferent : ¬ IsDifferent (int 1) (string "1.0") := by
    rw [isDifferent_iff]
    decide
  have hlisted : NeitherEqualNorDifferent (int 1) (string "1.0") := hneither.1 ⟨hequal, hdifferent⟩
  exact ⟨rfl, hlisted, fun h => (hxor.1 h).2 hlisted⟩

/-- A true string is loosely equal to `true` but has another text. -/
theorem neither_eq_nor_ne_true_text :
    BinaryOp.eq.combine? (bool true) (string "x") = some (bool false) ∧
      BinaryOp.ne.combine? (bool true) (string "x") = some (bool false) ∧
      ¬ Xor (IsEqual (bool true) (string "x")) (IsDifferent (bool true) (string "x")) := by
  refine ⟨rfl, rfl, ?_⟩
  rintro (⟨hequal, -⟩ | ⟨hdifferent, -⟩)
  · rw [isEqual_iff] at hequal
    revert hequal
    decide
  · rw [isDifferent_iff] at hdifferent
    revert hdifferent
    decide

end Value

end XmlTemplate
