import XmlTemplate.Expr.Stored
import XmlTemplate.Proofs.Expr.Printer
import XmlTemplate.Proofs.Json.ReadBack

/-!
# Stored expressions are read back

Every constructor is written as a case of its name, so its reader finds the one it was written by.
The only values that may be lost are floats.
-/

namespace XmlTemplate

open Json (ReadsBack given bind_given)
open Json.Draft

/-- The float is finite and is read back from the text that it is written as. -/
def Json.Keeps (f : Float) : Prop :=
  f.isFinite ∧ Json.Draft.read? (Json.floatText f) = some (.float f)

/-! ## Constants and operators -/

/-- An integer constant. -/
def Literal.int64Of? : Json.Draft → Option Literal
  | .int n => (Number.int64? n).map fun i => .number (.int i)
  | _ => none

theorem Literal.readsBack_int64 (i : Int64) :
    ReadsBack Literal.int64Of? (.int i.toInt) (.number (.int i)) := by
  intro depth
  simp [ofJson, int64Of?, Number.int64?_toInt, Json.fits]

namespace Literal

theorem ofDraft?_of_case?_eq_none {d : Json.Draft} (h : d.case? = none) :
    Literal.ofDraft? d = none := by
  rw [Literal.ofDraft?, h]

theorem readsBack (v : Literal) (h : ∀ f ∈ (Expr.literal v).floats, Json.Keeps f) :
    ReadsBack Literal.ofDraft? v.toJson v := by
  have hnone := @ofDraft?_of_case?_eq_none
  cases v with
  | null =>
    intro depth
    rfl
  | bool b =>
    refine readsBack_case @hnone (fun d c hd => ?_) ((readsBack_bool b).map Literal.bool)
    simp [Literal.ofDraft?, hd]
  | number n =>
    cases n with
    | int i =>
      refine readsBack_case @hnone (fun d c hd => ?_) (readsBack_int64 i)
      rw [Literal.ofDraft?, hd]
      split <;> simp_all [int64Of?]
    | float f =>
      obtain ⟨hfinite, hread⟩ := h f (List.mem_singleton_self f)
      refine readsBack_case @hnone (fun d c hd => ?_)
        ((readsBack_float hfinite hread).map fun f => Literal.number (.float f))
      simp [Literal.ofDraft?, hd]
  | string s =>
    refine readsBack_case @hnone (fun d c hd => ?_) ((readsBack_string s).map Literal.string)
    simp [Literal.ofDraft?, hd]

end Literal

theorem UnaryOp.readsBack (op : UnaryOp) : ReadsBack UnaryOp.ofDraft? (.string op.name) op := by
  intro depth
  cases op <;> rfl

theorem BinaryOp.readsBack (op : BinaryOp) :
    ReadsBack BinaryOp.ofDraft? (.string op.name) op := by
  intro depth
  cases op <;> rfl

/-! ## Trees -/

namespace Expr

variable {d c : Json.Draft}

theorem ofDraft?_of_case?_eq_none (h : d.case? = none) : Expr.ofDraft? d = none := by
  rw [Expr.ofDraft?]
  split <;> simp_all

theorem ofDraft?_literal (h : d.case? = some ("Literal", c)) :
    Expr.ofDraft? d = (Literal.ofDraft? c).map .literal := by
  rw [Expr.ofDraft?]
  split <;> simp_all

theorem ofDraft?_path (h : d.case? = some ("Path", c)) :
    Expr.ofDraft? d = (c.items?.bind Segment.listOfDraft?).map .path := by
  rw [Expr.ofDraft?]
  split <;> simp_all
  split <;> simp_all

theorem ofDraft?_unary (h : d.case? = some ("Unary", c)) :
    Expr.ofDraft? d = (c.record? ["op", "operand"]).bind fun fields =>
      (required? fields "op" UnaryOp.ofDraft?).bind fun op =>
        (required? fields "operand" Expr.ofDraft?).bind fun operand =>
          some (.unary op operand) := by
  rw [Expr.ofDraft?]
  split
  case h_3 content heq =>
    cases h.symm.trans heq
    split
    · simp [*]
    · rename_i fields hfields
      simp only [hfields, Option.bind_some, required?]
      split
      · rename_i op operand hop hoperand
        simp only [hop, hoperand, Option.bind_some]
        cases Expr.ofDraft? operand <;> rfl
      · rename_i hmissing
        cases hop : (Table.get? "op" fields).bind UnaryOp.ofDraft? with
        | none => rfl
        | some op =>
          cases hoperand : Table.get? "operand" fields with
          | none => rfl
          | some operand => exact (hmissing op operand hop hoperand).elim
  all_goals simp_all

theorem ofDraft?_binary (h : d.case? = some ("Binary", c)) :
    Expr.ofDraft? d = (c.record? ["op", "left", "right"]).bind fun fields =>
      (required? fields "op" BinaryOp.ofDraft?).bind fun op =>
        (required? fields "left" Expr.ofDraft?).bind fun left =>
          (required? fields "right" Expr.ofDraft?).bind fun right =>
            some (.binary op left right) := by
  rw [Expr.ofDraft?]
  split
  case h_4 content heq =>
    cases h.symm.trans heq
    split
    · simp [*]
    · rename_i fields hfields
      simp only [hfields, Option.bind_some, required?]
      split
      · rename_i op left right hop hleft hright
        simp only [hop, hleft, hright, Option.bind_some]
        cases Expr.ofDraft? left <;> cases Expr.ofDraft? right <;> rfl
      · rename_i hmissing
        cases hop : (Table.get? "op" fields).bind BinaryOp.ofDraft? with
        | none => rfl
        | some op =>
          cases hleft : Table.get? "left" fields with
          | none => rfl
          | some left =>
            cases hright : Table.get? "right" fields with
            | none =>
              rw [Option.bind_some, Option.bind_some]
              cases Expr.ofDraft? left <;> rfl
            | some right => exact (hmissing op left right hop hleft hright).elim
  all_goals simp_all

theorem ofDraft?_call (h : d.case? = some ("Call", c)) :
    Expr.ofDraft? d = (c.record? ["name", "args"]).bind fun fields =>
      (required? fields "name" string?).bind fun name =>
        (required? fields "args" fun d => d.items?.bind Expr.listOfDraft?).bind fun args =>
          some (.call name args) := by
  rw [Expr.ofDraft?]
  split
  case h_5 content heq =>
    cases h.symm.trans heq
    split
    · simp [*]
    · rename_i fields hfields
      simp only [hfields, Option.bind_some, required?]
      split
      · rename_i hname hargs
        simp only [hname, hargs, Option.bind_some]
        split
        · rename_i items hitems
          rw [hitems, Option.bind_some]
          cases Expr.listOfDraft? items <;> rfl
        · rename_i hitems
          simp [hitems]
      · rename_i hmissing
        cases hname : (Table.get? "name" fields).bind string? with
        | none => rfl
        | some name =>
          cases hargs : Table.get? "args" fields with
          | none => rfl
          | some args => exact (hmissing name args hname hargs).elim
  all_goals simp_all

end Expr

theorem Segment.ofDraft?_of_case?_eq_none {d : Json.Draft} (h : d.case? = none) :
    Segment.ofDraft? d = none := by
  rw [Segment.ofDraft?]
  split <;> simp_all

theorem Segment.listFloats_cons (s : Segment) (rest : List Segment) :
    Segment.listFloats (s :: rest) = Segment.listFloats [s] ++ Segment.listFloats rest := by
  cases s <;> simp [Segment.listFloats]

mutual

/-- An expression is read back from the tree that it is written as, if its floats are. -/
theorem Expr.readsBack :
    ∀ e : Expr, (∀ f ∈ e.floats, Json.Keeps f) → ReadsBack Expr.ofDraft? e.toJson e
  | .literal v, h => by
    rw [Expr.toJson]
    exact readsBack_case @Expr.ofDraft?_of_case?_eq_none (fun d c => Expr.ofDraft?_literal)
      ((v.readsBack h).map Expr.literal)
  | .path segments, h => by
    rw [Expr.toJson]
    refine readsBack_case @Expr.ofDraft?_of_case?_eq_none (fun d c => Expr.ofDraft?_path)
      (ReadsBack.map (fun depth => ?_) Expr.path)
    simp only [items?_array]
    exact bind_given (Segment.listReadsBack segments h (depth + 1))
  | .unary op operand, h => by
    rw [Expr.toJson]
    exact readsBack_case @Expr.ofDraft?_of_case?_eq_none (fun d c => Expr.ofDraft?_unary)
      (readsBack_record _ rfl (by decide) fun depth =>
        bind_required? rfl op.readsBack (bind_required? rfl (operand.readsBack h) rfl))
  | .binary op left right, h => by
    rw [Expr.toJson]
    have hleft := left.readsBack fun f hf => h f (List.mem_append_left _ hf)
    have hright := right.readsBack fun f hf => h f (List.mem_append_right _ hf)
    exact readsBack_case @Expr.ofDraft?_of_case?_eq_none (fun d c => Expr.ofDraft?_binary)
      (readsBack_record _ rfl (by decide) fun depth =>
        bind_required? rfl op.readsBack
          (bind_required? rfl hleft (bind_required? rfl hright rfl)))
  | .call name args, h => by
    rw [Expr.toJson]
    have hargs : ReadsBack (fun d => d.items?.bind Expr.listOfDraft?)
        (.array (Expr.listToJson args)) args := by
      intro depth
      simp only [items?_array]
      exact bind_given (Expr.listReadsBack args h (depth + 1))
    exact readsBack_case @Expr.ofDraft?_of_case?_eq_none (fun d c => Expr.ofDraft?_call)
      (readsBack_record _ rfl (by decide) fun depth =>
        bind_required? rfl (readsBack_string name) (bind_required? rfl hargs rfl))

theorem Segment.readsBack :
    ∀ s : Segment, (∀ f ∈ Segment.listFloats [s], Json.Keeps f) →
      ReadsBack Segment.ofDraft? s.toJson s
  | .root, _ | .current, _ | .parent, _ => by
    intro depth
    simp [Segment.toJson, ofJson, Segment.ofDraft?, case?, Json.fits]
  | .name key, _ => by
    rw [Segment.toJson]
    refine readsBack_case @Segment.ofDraft?_of_case?_eq_none (fun d c hd => ?_)
      ((readsBack_string key).map Segment.name)
    rw [Segment.ofDraft?]
    split <;> simp_all
  | .dynamic key, h => by
    rw [Segment.toJson]
    have hkey := key.readsBack fun f hf => h f (List.mem_append_left _ hf)
    refine readsBack_case @Segment.ofDraft?_of_case?_eq_none (fun d c hd => ?_)
      (hkey.map Segment.dynamic)
    rw [Segment.ofDraft?]
    split <;> simp_all

theorem Expr.listReadsBack :
    ∀ es : List Expr, (∀ f ∈ Expr.listFloats es, Json.Keeps f) → ∀ depth,
      Expr.listOfDraft? (ofItems depth (Expr.listToJson es)) =
        given (Json.itemsFit depth (Expr.listToJson es)) es
  | [], _, _ => by rw [Expr.listToJson, ofItems, Expr.listOfDraft?]; rfl
  | e :: rest, h, depth => by
    have he := e.readsBack (fun f hf => h f (List.mem_append_left _ hf)) depth
    have hrest := Expr.listReadsBack rest (fun f hf => h f (List.mem_append_right _ hf)) depth
    rw [Expr.listToJson, ofItems, Expr.listOfDraft?, he, hrest, Json.itemsFit]
    cases e.toJson.fits depth <;> cases Json.itemsFit depth (Expr.listToJson rest) <;> rfl

theorem Segment.listReadsBack :
    ∀ segments : List Segment, (∀ f ∈ Segment.listFloats segments, Json.Keeps f) → ∀ depth,
      Segment.listOfDraft? (ofItems depth (Segment.listToJson segments)) =
        given (Json.itemsFit depth (Segment.listToJson segments)) segments
  | [], _, _ => by rw [Segment.listToJson, ofItems, Segment.listOfDraft?]; rfl
  | s :: rest, h, depth => by
    rw [Segment.listFloats_cons] at h
    have hs := s.readsBack (fun f hf => h f (List.mem_append_left _ hf)) depth
    have hrest := Segment.listReadsBack rest (fun f hf => h f (List.mem_append_right _ hf)) depth
    rw [Segment.listToJson, ofItems, Segment.listOfDraft?, hs, hrest, Json.itemsFit]
    cases s.toJson.fits depth <;> cases Json.itemsFit depth (Segment.listToJson rest) <;> rfl

end

end XmlTemplate
