import Mathlib.Data.List.Perm.Subperm
import XmlTemplate.Expr.Evaluation

/-!
# Comparisons from both sides

Equality and order convert before they compare, by tables of cases in which the first that fits
decides. Read from the right, each table decides the same: equality is symmetric and order
reverses. For objects this is a matter of counting, since only the keys on the left are looked
for on the right: both sides have as many fields, and no side has a key twice.

On scalars the two tables meet: what is ordered as equal is loosely equal, but for null and the
text `0`, which order compares by their truth and equality by whether the text is empty.
-/

namespace XmlTemplate

-- ---------------------------------------------------------------------------
-- Numbers
-- ---------------------------------------------------------------------------

namespace Number

/-- Two floats taken apart compare the other way round from the other side. -/
theorem unpacked_compare_swap (a b : Float.Model.UnpackedFloat) :
    b.compare a = (a.compare b).map Ordering.swap := by
  cases a with
  | notANumber => cases b <;> rfl
  | infinity s =>
    cases b with
    | infinity t => cases s <;> cases t <;> rfl
    | _ => cases s <;> rfl
  | zero s =>
    cases b with
    | infinity t => cases t <;> rfl
    | finite t => cases t <;> rfl
    | _ => rfl
  | finite s m e =>
    cases b with
    | infinity t => cases s <;> cases t <;> rfl
    | finite t n f =>
      have hmagnitudes : (Ord.compare f e).then (Ord.compare n m) =
          ((Ord.compare e f).then (Ord.compare m n)).swap := by
        rw [Ordering.swap_then, ← Std.OrientedOrd.eq_swap, ← Std.OrientedOrd.eq_swap]
      cases s <;> cases t
      case negative.negative => exact congrArg (fun o => some o.swap) hmagnitudes
      case positive.positive => exact congrArg some hmagnitudes
      all_goals rfl
    | _ => cases s <;> rfl

/-- The three tests of two floats are one comparison of what the floats stand for. -/
theorem compareFloats_eq (a b : Float) :
    compareFloats a b = a.toModel.unpack.compare b.toModel.unpack := by
  have hlt (a b : Float) :
      a < b ↔ a.toModel.unpack.compare b.toModel.unpack = some .lt := by
    change Float.lt a b = true ↔ _
    rw [Float.lt, decide_eq_true_iff]
    exact beq_iff_eq
  have heq : (a == b) = true ↔ a.toModel.unpack.compare b.toModel.unpack = some .eq := by
    change (a.toModel.unpack.compare b.toModel.unpack == some .eq) = true ↔ _
    exact beq_iff_eq
  simp only [compareFloats, hlt, heq, unpacked_compare_swap a.toModel.unpack]
  rcases a.toModel.unpack.compare b.toModel.unpack with _ | (_ | _ | _) <;> rfl

theorem compareFloats_swap (a b : Float) :
    compareFloats b a = (compareFloats a b).map Ordering.swap := by
  rw [compareFloats_eq, compareFloats_eq, unpacked_compare_swap]

theorem compare_swap (a b : Number) : b.compare a = (a.compare b).map Ordering.swap := by
  match a, b with
  | int a, int b =>
    exact congrArg some Std.OrientedOrd.eq_swap
  | int a, float b | float a, int b | float a, float b => exact compareFloats_swap ..

theorem compare_eq_comm (a b : Number) : (a.compare b == some .eq) = (b.compare a == some .eq) := by
  rw [compare_swap a b]
  rcases a.compare b with _ | (_ | _ | _) <;> rfl

end Number

-- ---------------------------------------------------------------------------
-- Tables
-- ---------------------------------------------------------------------------

namespace Table

variable {key : String} {a : α} {t u : Table α}

theorem mem_of_get?_eq_some (h : t.get? key = some a) : (key, a) ∈ t := by
  induction t with
  | nil => cases h
  | cons p t ih =>
    rw [get?] at h
    split at h
    · rename_i hk
      cases h
      exact hk ▸ List.mem_cons_self ..
    · exact List.mem_cons_of_mem _ (ih h)

/-- Where no key comes twice, every pair is found under its key. -/
theorem get?_eq_some_of_mem (hkeys : t.keys.Nodup) (h : (key, a) ∈ t) : t.get? key = some a := by
  induction t with
  | nil => cases h
  | cons p t ih =>
    obtain ⟨hnew, hrest⟩ := List.nodup_cons.1 hkeys
    rw [get?]
    rcases List.mem_cons.1 h with rfl | h
    · exact if_pos rfl
    · have hne : p.1 ≠ key := fun heq => hnew (List.mem_map.2 ⟨_, h, heq.symm⟩)
      rw [if_neg hne, ih hrest h]

/-- A table that has all keys of another one, and no more of them, has no others. -/
theorem keys_subset_of_length_le (hkeys : t.keys.Nodup) (h : t.keys ⊆ u.keys)
    (hlength : u.length ≤ t.length) : u.keys ⊆ t.keys := by
  have hlength : u.keys.length ≤ t.keys.length := by simpa only [keys, List.length_map]
  exact ((List.subperm_of_subset hkeys h).perm_of_length_le hlength).symm.subset

end Table

namespace Value

-- ---------------------------------------------------------------------------
-- Agreement
-- ---------------------------------------------------------------------------

/-- No object in the value has a key twice, which is so of all objects that are filled by
`Table.put`. Host objects are compared by their identity, so nothing is asked of their
properties. -/
inductive HasDistinctKeys : Value → Prop where
  | plain {v : Value} (h : v.isCollection = false) : HasDistinctKeys v
  | array {items : List Value} (h : ∀ v ∈ items, HasDistinctKeys v) : HasDistinctKeys (array items)
  | object {fields : List (String × Value)} (hkeys : (Table.keys fields).Nodup)
      (h : ∀ p ∈ fields, HasDistinctKeys p.2) : HasDistinctKeys (object fields)

section Agreement

variable {leaf : Value → Value → Bool}

theorem agree_array_array (a b : List Value) :
    agree leaf (array a) (array b) = (a.length == b.length && agreeItems leaf a b) := by
  rw [agree]

theorem agree_object_object (a b : List (String × Value)) :
    agree leaf (object a) (object b) = (a.length == b.length && agreeFields leaf a b) := by
  rw [agree]

/-- Two values that are not both arrays or both objects are left to the leaf. -/
theorem agree_of_ne {a b : Value} (harrays : ∀ as bs, a = array as → b ≠ array bs)
    (hobjects : ∀ as bs, a = object as → b ≠ object bs) : agree leaf a b = leaf a b := by
  rw [agree]
  · exact fun as bs ha hb => harrays as bs ha hb
  · exact fun as bs ha hb => hobjects as bs ha hb

theorem agreeItems_comm {as bs : List Value}
    (h : ∀ a ∈ as, ∀ b ∈ bs, agree leaf a b = agree leaf b a) :
    agreeItems leaf as bs = agreeItems leaf bs as := by
  induction as generalizing bs with
  | nil => cases bs <;> simp [agreeItems]
  | cons a as ih =>
    cases bs with
    | nil => simp [agreeItems]
    | cons b bs =>
      rw [agreeItems, agreeItems, h a (List.mem_cons_self ..) b (List.mem_cons_self ..),
        ih fun a ha b hb => h a (List.mem_cons_of_mem _ ha) b (List.mem_cons_of_mem _ hb)]

theorem agreeFields_iff {fields others : List (String × Value)} :
    agreeFields leaf fields others = true ↔
      ∀ p ∈ fields, ∃ b, Table.get? p.1 others = some b ∧ agree leaf p.2 b = true := by
  induction fields with
  | nil => simp [agreeFields]
  | cons p fields ih =>
    obtain ⟨key, a⟩ := p
    rw [agreeFields, Bool.and_eq_true, ih, List.forall_mem_cons]
    refine and_congr_left' ?_
    cases Table.get? key others <;> simp

/-- Every field on the left has its partner on the right. With as many fields on both sides, the
right has no others, and every field there has its partner on the left. -/
theorem agreeFields_swap {as bs : List (String × Value)} (has : (Table.keys as).Nodup)
    (hbs : (Table.keys bs).Nodup) (hlength : as.length = bs.length)
    (hcomm : ∀ p ∈ as, ∀ q ∈ bs, agree leaf p.2 q.2 = agree leaf q.2 p.2)
    (h : agreeFields leaf as bs = true) : agreeFields leaf bs as = true := by
  rw [agreeFields_iff] at h ⊢
  have hsubset : Table.keys as ⊆ Table.keys bs := by
    intro key hkey
    obtain ⟨p, hp, rfl⟩ := List.mem_map.1 hkey
    obtain ⟨b, hb, -⟩ := h p hp
    exact List.mem_map.2 ⟨_, Table.mem_of_get?_eq_some hb, rfl⟩
  intro q hq
  obtain ⟨p, hp, hkey⟩ := List.mem_map.1 (Table.keys_subset_of_length_le has hsubset
    (Nat.le_of_eq hlength.symm) (List.mem_map.2 ⟨q, hq, rfl⟩))
  obtain ⟨b, hb, hagree⟩ := h p hp
  have hpartner : b = q.2 := by
    have hget := Table.get?_eq_some_of_mem hbs (show (q.1, q.2) ∈ bs from hq)
    rw [← hkey, hb] at hget
    exact Option.some.inj hget
  refine ⟨p.2, hkey ▸ Table.get?_eq_some_of_mem has hp, ?_⟩
  rw [← hcomm p hp q hq, ← hpartner, hagree]

/-- Where the leaf compares the same from both sides, so does agreement. -/
theorem agree_comm (hleaf : ∀ a b, leaf a b = leaf b a) {a b : Value} (ha : a.HasDistinctKeys)
    (hb : b.HasDistinctKeys) : agree leaf a b = agree leaf b a := by
  have hplain {a b : Value} (h : a.isCollection = false) : agree leaf a b = agree leaf b a := by
    rw [agree_of_ne, agree_of_ne, hleaf] <;> rintro _ _ rfl rfl <;> exact Bool.noConfusion h
  induction ha generalizing b with
  | plain ha => exact hplain ha
  | array h ih =>
    cases hb with
    | plain hb => exact (hplain hb).symm
    | object => rw [agree_of_ne, agree_of_ne, hleaf] <;> rintro _ _ ⟨⟩ ⟨⟩
    | array hbs =>
      rw [agree_array_array, agree_array_array, BEq.comm,
        agreeItems_comm fun a ha b hb => ih a ha (hbs b hb)]
  | @object as has h ih =>
    cases hb with
    | plain hb => exact (hplain hb).symm
    | array => rw [agree_of_ne, agree_of_ne, hleaf] <;> rintro _ _ ⟨⟩ ⟨⟩
    | @object bs hbs h' =>
      have hcomm (p) (hp : p ∈ as) (q) (hq : q ∈ bs) : agree leaf p.2 q.2 = agree leaf q.2 p.2 :=
        ih p hp (h' q hq)
      rw [agree_object_object, agree_object_object, Bool.eq_iff_iff]
      simp only [Bool.and_eq_true, beq_iff_eq]
      exact ⟨fun ⟨hlength, hall⟩ => ⟨hlength.symm, agreeFields_swap has hbs hlength hcomm hall⟩,
        fun ⟨hlength, hall⟩ => ⟨hlength.symm, agreeFields_swap hbs has hlength
          (fun q hq p hp => (hcomm p hp q hq).symm) hall⟩⟩

end Agreement

-- ---------------------------------------------------------------------------
-- Loose equality
-- ---------------------------------------------------------------------------

theorem looseLeaf_bool_left (a : Bool) (b : Value) : looseLeaf (bool a) b = (a == b.isTruthy) := by
  cases b <;> rfl

theorem looseLeaf_bool_right (a : Value) (b : Bool) : looseLeaf a (bool b) = (a.isTruthy == b) := by
  cases a <;> rfl

theorem looseLeaf_string_string (s t : String) :
    looseLeaf (string s) (string t) = looseLeaf (string t) (string s) := by
  simp only [looseLeaf]
  rcases Number.parse? s with _ | m <;> rcases Number.parse? t with _ | n
  all_goals first | exact Number.compare_eq_comm m n | exact BEq.comm

/-- Each line of the table of loose equality has its mirror image in it. -/
theorem looseLeaf_comm (a b : Value) : looseLeaf a b = looseLeaf b a := by
  cases b with
  | bool t => rw [looseLeaf_bool_left, looseLeaf_bool_right, BEq.comm]
  | string t =>
    cases a with
    | bool s => rw [looseLeaf_bool_left, looseLeaf_bool_right, BEq.comm]
    | string s => exact looseLeaf_string_string s t
    | _ => rfl
  | int j | float j =>
    cases a with
    | bool s => rw [looseLeaf_bool_left, looseLeaf_bool_right, BEq.comm]
    | int i | float i => exact Number.compare_eq_comm ..
    | _ => rfl
  | host j =>
    cases a with
    | bool s => rw [looseLeaf_bool_left, looseLeaf_bool_right, BEq.comm]
    | host i => exact BEq.comm
    | _ => rfl
  | null | array | object =>
    cases a with
    | bool s => rw [looseLeaf_bool_left, looseLeaf_bool_right, BEq.comm]
    | _ => rfl

variable {a b : Value}

theorem looseEq_comm (ha : a.HasDistinctKeys) (hb : b.HasDistinctKeys) :
    a.looseEq b = b.looseEq a := agree_comm looseLeaf_comm ha hb

theorem equal?_comm (ha : a.HasDistinctKeys) (hb : b.HasDistinctKeys) :
    a.equal? b = b.equal? a := by
  rw [equal?, equal?, bne_comm, Bool.or_comm a.isString, Bool.or_comm a.isCollection,
    BEq.comm (a := a.text?), looseEq_comm ha hb]

-- ---------------------------------------------------------------------------
-- Order
-- ---------------------------------------------------------------------------

theorem compareTruth_swap (a b : Bool) : compareTruth b a = (compareTruth a b).swap := by
  cases a <;> cases b <;> rfl

theorem compareTexts_swap (s t : String) : compareTexts t s = (compareTexts s t).swap := by
  unfold compareTexts
  split <;> split
  · rename_i hts hst
    exact absurd hst (String.lt_asymm hts)
  all_goals rfl

theorem looseCompare_null_swap (a : Value) :
    a.looseCompare null = (null.looseCompare a).map Ordering.swap := by
  cases a <;> exact congrArg some (compareTruth_swap ..)

theorem looseCompare_bool_swap (a : Value) (t : Bool) :
    a.looseCompare (bool t) = ((bool t).looseCompare a).map Ordering.swap := by
  cases a <;> exact congrArg some (compareTruth_swap ..)

theorem looseCompare_string_swap (s t : String) :
    (string s).looseCompare (string t) =
      ((string t).looseCompare (string s)).map Ordering.swap := by
  simp only [looseCompare]
  rcases Number.parse? s with _ | m <;> rcases Number.parse? t with _ | n
  all_goals first | exact Number.compare_swap n m | exact congrArg some (compareTexts_swap t s)

/-- What is the reverse of the order from the other side is so from there as well. -/
theorem looseCompare_swap_symm
    (h : a.looseCompare b = (b.looseCompare a).map Ordering.swap) :
    b.looseCompare a = (a.looseCompare b).map Ordering.swap := by
  rw [h]
  rcases b.looseCompare a with _ | (_ | _ | _) <;> rfl

/-- Each line of the table of loose order has its mirror image in it. -/
theorem looseCompare_swap (a b : Value) :
    a.looseCompare b = (b.looseCompare a).map Ordering.swap := by
  cases b with
  | null => exact looseCompare_null_swap a
  | bool t => exact looseCompare_bool_swap a t
  | string t =>
    cases a with
    | null => exact looseCompare_swap_symm (looseCompare_null_swap _)
    | bool s => exact looseCompare_swap_symm (looseCompare_bool_swap _ s)
    | string s => exact looseCompare_string_swap s t
    | int | float => exact looseCompare_swap_symm rfl
    | _ => rfl
  | int j =>
    cases a with
    | null => exact looseCompare_swap_symm (looseCompare_null_swap _)
    | bool s => exact looseCompare_swap_symm (looseCompare_bool_swap _ s)
    | int i => exact Number.compare_swap (.int j) (.int i)
    | float f => exact Number.compare_swap (.int j) (.float f)
    | _ => rfl
  | float g =>
    cases a with
    | null => exact looseCompare_swap_symm (looseCompare_null_swap _)
    | bool s => exact looseCompare_swap_symm (looseCompare_bool_swap _ s)
    | int i => exact Number.compare_swap (.float g) (.int i)
    | float f => exact Number.compare_swap (.float g) (.float f)
    | _ => rfl
  | array bs | object bs =>
    cases a with
    | null => exact looseCompare_swap_symm (looseCompare_null_swap _)
    | bool s => exact looseCompare_swap_symm (looseCompare_bool_swap _ s)
    | array | object => first | rfl | exact congrArg some Std.OrientedOrd.eq_swap
    | _ => rfl
  | host =>
    cases a with
    | null => exact looseCompare_swap_symm (looseCompare_null_swap _)
    | bool s => exact looseCompare_swap_symm (looseCompare_bool_swap _ s)
    | _ => rfl

/-- Comparisons from both sides: equality as expressions write it, be it a failure or a truth
value, and loose equality are the same, loose order is the reverse or undefined for both, and so
`<` is `>` and `<=` is `>=` with the sides exchanged. -/
theorem comparisons_swap (ha : a.HasDistinctKeys) (hb : b.HasDistinctKeys) :
    a.equal? b = b.equal? a ∧
      a.looseEq b = b.looseEq a ∧
      a.looseCompare b = (b.looseCompare a).map Ordering.swap ∧
      BinaryOp.eq.combine? a b = BinaryOp.eq.combine? b a ∧
      BinaryOp.lt.combine? a b = BinaryOp.gt.combine? b a ∧
      BinaryOp.le.combine? a b = BinaryOp.ge.combine? b a := by
  have hequal := equal?_comm ha hb
  have horder := looseCompare_swap a b
  refine ⟨hequal, looseEq_comm ha hb, horder, congrArg (Option.map bool) hequal, ?_, ?_⟩
  · simp only [BinaryOp.combine?, horder, Option.any_map, Ordering.isLT_swap]
  · simp only [BinaryOp.combine?, horder, Option.any_map, Ordering.isLE_swap]

/-- An object with a list, a text that reads as a number and a null inside. -/
def fieldsAhead : Value := object [("n", array [int 1, string "2.0"]), ("k", null)]

/-- The same in another order, with other values that count as these. -/
def fieldsBehind : Value := object [("k", string ""), ("n", array [string "1", int 2])]

theorem comparisons_swap_fields :
    fieldsAhead.HasDistinctKeys ∧ fieldsBehind.HasDistinctKeys ∧
      fieldsAhead.looseEq fieldsBehind = fieldsBehind.looseEq fieldsAhead ∧
      BinaryOp.le.combine? fieldsAhead fieldsBehind =
        BinaryOp.ge.combine? fieldsBehind fieldsAhead := by
  have hahead : fieldsAhead.HasDistinctKeys := .object (by decide) (by
    simp only [List.forall_mem_cons]
    exact ⟨.array (by simpa using ⟨.plain rfl, .plain rfl⟩), .plain rfl, by simp⟩)
  have hbehind : fieldsBehind.HasDistinctKeys := .object (by decide) (by
    simp only [List.forall_mem_cons]
    exact ⟨.plain rfl, .array (by simpa using ⟨.plain rfl, .plain rfl⟩), by simp⟩)
  obtain ⟨-, hloose, -, -, -, hle⟩ := comparisons_swap hahead hbehind
  exact ⟨hahead, hbehind, hloose, hle⟩

-- ---------------------------------------------------------------------------
-- Equality and order on scalars
-- ---------------------------------------------------------------------------

/-- Null, truth values, numbers and texts. -/
def isScalar : Value → Bool
  | null | bool _ | int _ | float _ | string _ => true
  | array _ | object _ | host .. => false

/-- Null and the text `0`, on whatever side. Equality asks whether the text is empty, order whether
it is false. -/
def IsNullWithZero (a b : Value) : Prop :=
  (a = null ∧ b = string "0") ∨ (a = string "0" ∧ b = null)

theorem compareTruth_eq_iff {s t : Bool} : compareTruth s t = .eq ↔ s = t := by
  cases s <;> cases t <;> decide

theorem compareTexts_eq_iff {s t : String} : compareTexts s t = .eq ↔ s = t := by
  unfold compareTexts
  split
  · rename_i h
    simp only [reduceCtorEq, false_iff]
    rintro rfl
    exact String.lt_irrefl s h
  · split
    · rename_i h
      simp only [reduceCtorEq, false_iff]
      rintro rfl
      exact String.lt_irrefl s h
    · rename_i hst hts
      exact ⟨fun _ => String.le_antisymm hts hst, fun _ => rfl⟩

theorem numberEqText_iff {n : Number} {s : String} :
    numberEqText n s = true ↔ compareNumberText n s = some .eq := by
  unfold numberEqText compareNumberText
  cases Number.parse? s with
  | some m => exact beq_iff_eq
  | none => simp only [beq_iff_eq, Option.some.injEq, compareTexts_eq_iff]

theorem looseCompare_null_eq_iff {b : Value} :
    null.looseCompare b = some .eq ↔ b.isTruthy = false := by
  simp only [looseCompare, Option.some.injEq, compareTruth_eq_iff, Bool.false_eq]

theorem looseLeaf_null_iff {b : Value} (hb : b.isScalar) (hzero : b ≠ string "0") :
    looseLeaf null b = true ↔ null.looseCompare b = some .eq := by
  rw [looseCompare_null_eq_iff]
  cases b with
  | string s =>
    have hs : s ≠ "0" := fun heq => hzero (heq ▸ rfl)
    simp [looseLeaf, isTruthy, hs]
  | null | bool | int | float => simp [looseLeaf, isTruthy]
  | _ => cases hb

theorem looseLeaf_bool_iff {t : Bool} {b : Value} :
    looseLeaf (bool t) b = true ↔ (bool t).looseCompare b = some .eq := by
  rw [looseLeaf_bool_left, beq_iff_eq]
  simp only [looseCompare, Option.some.injEq, compareTruth_eq_iff]

/-- Order and equality have mirrored tables, so it is enough to compare them from one side. -/
theorem looseLeaf_iff_of_symm (h : looseLeaf b a = true ↔ b.looseCompare a = some .eq) :
    looseLeaf a b = true ↔ a.looseCompare b = some .eq := by
  rw [looseLeaf_comm, h, looseCompare_swap a b]
  rcases b.looseCompare a with _ | (_ | _ | _) <;> decide

/-- Line by line, the two tables say the same of scalars. -/
theorem looseLeaf_iff_looseCompare (ha : a.isScalar) (hb : b.isScalar) (h : ¬ a.IsNullWithZero b) :
    looseLeaf a b = true ↔ a.looseCompare b = some .eq := by
  cases a with
  | null => exact looseLeaf_null_iff hb fun hzero => h (.inl ⟨rfl, hzero⟩)
  | bool s => exact looseLeaf_bool_iff
  | string s =>
    cases b with
    | null => exact looseLeaf_iff_of_symm (looseLeaf_null_iff ha fun hzero => h (.inr ⟨hzero, rfl⟩))
    | bool t => exact looseLeaf_iff_of_symm looseLeaf_bool_iff
    | string t =>
      simp only [looseLeaf, looseCompare]
      split
      · exact beq_iff_eq
      · simp only [beq_iff_eq, Option.some.injEq, compareTexts_eq_iff]
    | int | float => exact looseLeaf_iff_of_symm numberEqText_iff
    | _ => cases hb
  | int i | float i =>
    cases b with
    | null => exact looseLeaf_iff_of_symm (looseLeaf_null_iff ha (by simp))
    | bool t => exact looseLeaf_iff_of_symm looseLeaf_bool_iff
    | string t => exact numberEqText_iff
    | int | float => exact beq_iff_eq
    | _ => cases hb
  | _ => cases ha

/-- What is neither greater nor less is ordered as equal. -/
theorem le_and_ge_iff (a b : Value) :
    BinaryOp.le.combine? a b = some (bool true) ∧ BinaryOp.ge.combine? a b = some (bool true) ↔
      a.looseCompare b = some .eq := by
  simp only [BinaryOp.combine?, Option.some.injEq, bool.injEq]
  rcases a.looseCompare b with _ | (_ | _ | _) <;> decide

/-- On scalars, loose equality holds where loose order finds both equal, which is where one is both
`<=` and `>=` the other. Null and the text `0` alone are ordered as equal without being equal. -/
theorem looseEq_iff_looseCompare (ha : a.isScalar) (hb : b.isScalar) :
    (¬ a.IsNullWithZero b →
      (a.looseEq b = true ↔ a.looseCompare b = some .eq) ∧
      (BinaryOp.le.combine? a b = some (bool true) ∧ BinaryOp.ge.combine? a b = some (bool true) ↔
        a.looseEq b = true)) ∧
    (a.IsNullWithZero b → a.looseCompare b = some .eq ∧ a.looseEq b = false) := by
  have hleaf : a.looseEq b = looseLeaf a b := by
    refine agree_of_ne ?_ ?_ <;> rintro _ _ rfl <;> cases ha
  refine ⟨fun h => ?_, ?_⟩
  · rw [le_and_ge_iff, hleaf]
    exact ⟨looseLeaf_iff_looseCompare ha hb h, (looseLeaf_iff_looseCompare ha hb h).symm⟩
  · rintro (⟨rfl, rfl⟩ | ⟨rfl, rfl⟩) <;> exact ⟨by decide, by decide⟩

theorem looseEq_iff_looseCompare_false_zero :
    (bool false).isScalar ∧ (string "0").isScalar ∧ ¬ (bool false).IsNullWithZero (string "0") ∧
      (bool false).looseEq (string "0") = true ∧
      (bool false).looseCompare (string "0") = some .eq := by
  have hplain : ¬ (bool false).IsNullWithZero (string "0") := by simp [IsNullWithZero]
  obtain ⟨h, -⟩ := looseEq_iff_looseCompare (a := bool false) (b := string "0") rfl rfl
  have heq : (bool false).looseEq (string "0") = true := by decide
  exact ⟨rfl, rfl, hplain, heq, (h hplain).1.1 heq⟩

/-- Null and the text `0` are both `<=` and `>=` each other and yet not loosely equal. -/
theorem not_looseEq_null_zero :
    null.isScalar ∧ (string "0").isScalar ∧
      null.looseCompare (string "0") = some .eq ∧
      BinaryOp.le.combine? null (string "0") = some (bool true) ∧
      BinaryOp.ge.combine? null (string "0") = some (bool true) ∧
      ¬ (null.looseEq (string "0") = true ↔ null.looseCompare (string "0") = some .eq) := by
  have horder : null.looseCompare (string "0") = some .eq := by decide
  obtain ⟨hle, hge⟩ := (le_and_ge_iff null (string "0")).2 horder
  exact ⟨rfl, rfl, horder, hle, hge, fun h => absurd (h.2 horder) (by decide)⟩

end Value

end XmlTemplate
