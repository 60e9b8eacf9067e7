import XmlTemplate.Proofs.Path

/-!
# How deep paths lead

A path goes down with each of its names and up with each `..`. A counter of the depth tells whether
it ever goes up from its root; the segments are collected apart from that, and going up at the root
then has no effect. Both stay in step: a path that is never counted below zero leads to as many
segments as its depth, and a path that is made of such segments is normalized.
-/

namespace XmlTemplate.Path

variable {place path steps : List (List Char)} {segment : List Char} {depth : Nat}

-- ---------------------------------------------------------------------------
-- Depth
-- ---------------------------------------------------------------------------

/-- Number of segments that lead further down. -/
def descents (path : List (List Char)) : Nat := path.countP fun s => !isIdle s && !isClimb s

/-- Number of segments that lead up. -/
def climbs (path : List (List Char)) : Nat := path.countP isClimb

/-- From some depth on, no segment leads up from the root: before each that leads up, there are more
levels than segments that lead up. -/
def StaysBelow (depth : Nat) (path : List (List Char)) : Prop :=
  ∀ before segment rest, path = before ++ segment :: rest → isClimb segment →
    climbs before < depth + descents before

/-- Count the depth along some segments, none if one of them leads up from the root. -/
def depth? (depth : Nat) : List (List Char) → Option Nat
  | [] => some depth
  | segment :: rest =>
    if isIdle segment then depth? depth rest
    else if isClimb segment then if depth = 0 then none else depth? (depth - 1) rest
    else depth? (depth + 1) rest

/-- The counter and the segments that are collected stay in step. -/
theorem map_length_follow? : (follow? place path).map List.length = depth? place.length path := by
  fun_induction follow? place path with
  | case1 place => rfl
  | case2 place segment rest hidle ih => rw [ih, depth?, if_pos hidle]
  | case3 segment rest hidle hclimb =>
    rw [depth?, if_neg hidle, if_pos hclimb]
    rfl
  | case4 segment rest hidle hclimb top outer ih =>
    rw [ih, depth?, if_neg hidle, if_pos hclimb]
    rfl
  | case5 place segment rest hidle hclimb ih =>
    rw [ih, depth?, if_neg hidle, if_neg hclimb]
    rfl

theorem isClimb_eq_false_of_isIdle (h : isIdle segment) : isClimb segment = false := by
  simp only [isIdle, Bool.or_eq_true, beq_iff_eq] at h
  rcases h with rfl | rfl <;> rfl

theorem staysBelow_cons : StaysBelow depth (segment :: path) ↔ (isClimb segment → 0 < depth) ∧
    ∀ before next rest, path = before ++ next :: rest → isClimb next →
      climbs (segment :: before) < depth + descents (segment :: before) := by
  constructor
  · intro h
    refine ⟨fun hclimb => h [] segment path rfl hclimb, fun before next rest heq hclimb => ?_⟩
    exact h (segment :: before) next rest (by rw [heq, List.cons_append]) hclimb
  · rintro ⟨hhead, htail⟩ before next rest heq hclimb
    cases before with
    | nil =>
      cases heq
      exact hhead hclimb
    | cons first before =>
      obtain ⟨rfl, hrest⟩ := List.cons.inj heq
      exact htail before next rest hrest hclimb

theorem staysBelow_cons_of_isIdle (h : isIdle segment) :
    StaysBelow depth (segment :: path) ↔ StaysBelow depth path := by
  rw [staysBelow_cons]
  simp [StaysBelow, climbs, descents, h, isClimb_eq_false_of_isIdle h]

theorem staysBelow_succ_cons_of_isClimb (h : isClimb segment) :
    StaysBelow (depth + 1) (segment :: path) ↔ StaysBelow depth path := by
  have hlevel (up down : Nat) : up + 1 < depth + 1 + down ↔ up < depth + down := by omega
  rw [staysBelow_cons]
  simp [StaysBelow, climbs, descents, h, hlevel]

theorem staysBelow_cons_of_isDescent (hidle : isIdle segment = false)
    (hclimb : isClimb segment = false) :
    StaysBelow depth (segment :: path) ↔ StaysBelow (depth + 1) path := by
  have hlevel (up down : Nat) : up < depth + (down + 1) ↔ up < depth + 1 + down := by omega
  rw [staysBelow_cons]
  simp [StaysBelow, climbs, descents, hidle, hclimb, hlevel]

/-- The counter has a result just if no segment leads up from the root. -/
theorem isSome_depth?_iff : (depth? depth path).isSome ↔ StaysBelow depth path := by
  fun_induction depth? depth path with
  | case1 depth => simp [StaysBelow]
  | case2 depth segment rest hidle ih => rw [ih, staysBelow_cons_of_isIdle hidle]
  | case3 segment rest hidle hclimb => simp [staysBelow_cons, hclimb]
  | case4 depth segment rest hidle hclimb hdepth ih =>
    obtain ⟨outer, rfl⟩ := Nat.exists_eq_add_one_of_ne_zero hdepth
    rw [ih, staysBelow_succ_cons_of_isClimb hclimb, Nat.add_sub_cancel]
  | case5 depth segment rest hidle hclimb ih =>
    rw [ih, staysBelow_cons_of_isDescent (Bool.eq_false_iff.2 hidle) (Bool.eq_false_iff.2 hclimb)]

/-- The counter tells by how much the segments that lead down exceed those that lead up. -/
theorem depth?_add_climbs {result : Nat} (h : depth? depth path = some result) :
    result + climbs path = depth + descents path := by
  fun_induction depth? depth path with
  | case1 depth => exact Option.some.inj h ▸ rfl
  | case2 depth segment rest hidle ih =>
    simpa [climbs, descents, hidle, isClimb_eq_false_of_isIdle hidle] using ih h
  | case3 segment rest hidle hclimb => cases h
  | case4 depth segment rest hidle hclimb hdepth ih =>
    have hrest := ih h
    simp only [climbs, descents, List.countP_cons, hclimb] at hrest ⊢
    simp only [if_true, Bool.not_true, Bool.and_false, Bool.false_eq_true, if_false]
    omega
  | case5 depth segment rest hidle hclimb ih =>
    have hrest := ih h
    simp only [climbs, descents, List.countP_cons, hidle, hclimb] at hrest ⊢
    simp only [Bool.false_eq_true, if_false, Bool.not_false, Bool.and_true, if_true]
    omega

-- ---------------------------------------------------------------------------
-- Paths that lead down
-- ---------------------------------------------------------------------------

/-- The path consists of these segments, joined by slashes, and each of them leads further down. -/
structure IsMadeOf (steps : List (List Char)) (path : String) : Prop where
  isStep : ∀ s ∈ steps, IsStep s
  eq : path = String.ofList (List.intercalate ['/'] steps)

theorem isMadeOf_normalize (path : String) :
    IsMadeOf (follow [] (segments path)).reverse (normalize path) where
  isStep s hs :=
    isStep_of_mem_follow (List.forall_mem_nil _) (fun _ hx => Text.eq_false_of_mem_splitAt hx) s
      (List.mem_reverse.1 hs)
  eq := rfl

theorem exists_isMadeOf_resolve (base relative : String) :
    ∃ steps, IsMadeOf steps (resolve base relative) := by
  have hnormalize (path : String) : ∃ steps, IsMadeOf steps (normalize path) :=
    ⟨_, isMadeOf_normalize path⟩
  unfold resolve
  split
  · exact hnormalize _
  · split
    · exact hnormalize _
    · exact hnormalize _

variable {text : String}

/-- There is only one way to make a path. -/
theorem IsMadeOf.follow_segments (h : IsMadeOf steps text) :
    follow [] (segments text) = steps.reverse := by
  have hjoin : text = join steps.reverse := by rw [join, List.reverse_reverse, h.eq]
  rw [hjoin]
  exact follow_segments_join fun s hs => h.isStep s (List.mem_reverse.1 hs)

theorem IsMadeOf.normalize_eq (h : IsMadeOf steps text) : normalize text = text := by
  rw [normalize, h.follow_segments, join, List.reverse_reverse, h.eq]

/-- Confining a path counts its depth and normalizes it apart from that. -/
theorem confine?_eq (path : String) : confine? path =
    if isRooted path then none else (depth? 0 (segments path)).map fun _ => normalize path := by
  have hlength : (follow? [] (segments path)).map List.length = depth? 0 (segments path) :=
    map_length_follow?
  unfold confine?
  split
  · rfl
  · rw [← hlength, Option.map_map]
    cases hfollow : follow? [] (segments path) with
    | none => rfl
    | some place => rw [Option.map_some, Option.map_some, Function.comp, normalize,
        follow_eq_of_follow? hfollow]

/-- A path can be confined just if it does not start at the root and never leads up from it. -/
theorem confine?_eq_some_iff {path result : String} : confine? path = some result ↔
    isRooted path = false ∧ StaysBelow 0 (segments path) ∧ result = normalize path := by
  rw [confine?_eq, ← isSome_depth?_iff]
  cases isRooted path <;> cases depth? 0 (segments path) <;> simp [eq_comm]

/-- A path that is confined leads to as many segments as it is deep. -/
theorem isMadeOf_of_confine? {path result : String} (h : confine? path = some result) :
    ∃ steps, IsMadeOf steps result ∧ depth? 0 (segments path) = some steps.length := by
  obtain ⟨-, hbelow, rfl⟩ := confine?_eq_some_iff.1 h
  have hlength : (follow? [] (segments path)).map List.length = depth? 0 (segments path) :=
    map_length_follow?
  refine ⟨_, isMadeOf_normalize path, ?_⟩
  rw [← isSome_depth?_iff, ← hlength, Option.isSome_map] at hbelow
  obtain ⟨place, hplace⟩ := Option.isSome_iff_exists.1 hbelow
  rw [← hlength, hplace, follow_eq_of_follow? hplace, List.length_reverse]
  rfl

end XmlTemplate.Path
