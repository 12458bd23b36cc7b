import Mathlib.Data.List.Nodup
import ShaderLowering.Session.Aliases

/-!
# Paths to counter buffers

A path leads through the members of structures, of which a base structure is the first
(`Ty.memberAt?`).  Counters are created for the paths in `Ty.counterPaths`, in this order.  The
paths that begin with a member are those of the member (`filterMap_below?_singleton`), and this
decides all the rest: every path that leads to a buffer with a hidden counter is in the list once
(`mem_counterPaths_iff`, `nodup_counterPaths`), and the paths below a member, however deep, are the
paths of the member (`filterMap_below?_counterPaths`).
-/

namespace ShaderLowering

open Source (Ty OptionalTy Fields Field Record Resource)
open Counter (Path)

namespace Counter.Path

theorem below?_nil (p : Path) : p.below? [] = some p := below?_eq_some_iff.2 rfl

/-- A path leads below another one if it does so member by member. -/
theorem below?_cons (p : Path) (i : Nat) (above : Path) :
    p.below? (i :: above) = (p.below? [i]).bind (·.below? above) := by
  cases p with
  | nil => rfl
  | cons a p =>
    rw [below?, below?]
    split
    · rw [below?_nil]
      rfl
    · rfl

end Counter.Path

/-! ## Members -/

namespace Source.Ty

/-- A direct member of a structure. -/
def member? (ty : Ty) (i : Nat) : Option Ty := ty.record?.bind fun r => r.parts[i]?.map (·.ty)

/-- The member at the end of a path that leads through structures only. -/
def memberAt? : Ty → Path → Option Ty
  | ty, [] => some ty
  | ty, i :: path => (ty.member? i).bind fun part => part.memberAt? path

/-- Whether the type is a structured buffer with a hidden counter. -/
def isCounterBuffer (ty : Ty) : Bool := ty.resource?.any (·.1.hasCounter)

/-- A path leads to a buffer with a hidden counter. -/
def HasCounterAt (ty : Ty) (path : Path) : Prop :=
  ∃ part, ty.memberAt? path = some part ∧ part.isCounterBuffer = true

/-- The paths of the counters of a declaration, in the order in which they are created. -/
def counterPaths (ty : Ty) : List Path := (counterSites "" [] ty).map (·.path)

theorem memberAt?_append (ty : Ty) (p q : Path) :
    ty.memberAt? (p ++ q) = (ty.memberAt? p).bind (·.memberAt? q) := by
  induction p generalizing ty with
  | nil => rfl
  | cons i p ih =>
    rw [List.cons_append, memberAt?, memberAt?]
    cases ty.member? i with
    | none => rfl
    | some part => exact ih part

/-- What has a counter below a member has one. -/
theorem HasCounterAt.of_memberAt? {ty part : Ty} {p q : Path} (h : part.HasCounterAt q)
    (hpart : ty.memberAt? p = some part) : ty.HasCounterAt (p ++ q) := by
  obtain ⟨inner, hinner, hcounter⟩ := h
  exact ⟨inner, by rw [memberAt?_append, hpart, Option.bind_some, hinner], hcounter⟩

theorem counterPaths_shape (ty : Ty) : ty.shape.counterPaths = ty.counterPaths := by
  induction ty using shape.induct with
  | case1 name target ih => rw [shape, ih, counterPaths, counterPaths, counterSites]
  | case2 order target ih => rw [shape, ih, counterPaths, counterPaths, counterSites]
  | case3 ty halias horiented => rw [shape.eq_3 ty halias horiented]

end Source.Ty

/-! ## The paths of a structure -/

/-- The paths of the counters of members that are numbered from `first`. -/
def memberCounterPaths (first : Nat) (parts : List Field) : List Path :=
  (parts.zipIdx first).flatMap fun p => p.1.ty.counterPaths.map (p.2 :: ·)

theorem memberCounterPaths_cons (first : Nat) (part : Field) (parts : List Field) :
    memberCounterPaths first (part :: parts) =
      part.ty.counterPaths.map (first :: ·) ++ memberCounterPaths (first + 1) parts := rfl

theorem map_child_append (path : Path) (i : Nat) (paths : List Path) :
    paths.map (path.child i ++ ·) = (paths.map (i :: ·)).map (path ++ ·) := by
  rw [List.map_map]
  exact List.map_congr_left fun q _ => List.append_cons path i q ▸ rfl

mutual

/-- Neither the name nor the place of a declaration matters to the paths inside it. -/
theorem map_path_counterSites : (ty : Ty) → (name : String) → (path : Path) →
    (counterSites name path ty).map (·.path) = ty.counterPaths.map (path ++ ·)
  | .alias _ target, name, path => by
    rw [counterSites, map_path_counterSites target name path, Ty.counterPaths, Ty.counterPaths,
      counterSites]
  | .oriented _ target, name, path => by
    rw [counterSites, map_path_counterSites target name path, Ty.counterPaths, Ty.counterPaths,
      counterSites]
  | .resource kind _, name, path => by
    rw [Ty.counterPaths, counterSites, counterSites]
    split
    · rw [List.map_singleton, List.map_singleton, List.map_singleton, List.append_nil]
    · rfl
  | .struct _ base fields, name, path => by
    have hbase := map_path_baseCounterSites base
    have hfields := map_path_fieldCounterSites fields
    rw [Ty.counterPaths, counterSites, counterSites, List.map_append, List.map_append, hbase, hbase,
      hfields, hfields, List.map_append, map_child_append, map_child_append]
    simp only [List.map_map, Function.comp_def, List.nil_append]
  | .void, _, _ | .scalar _, _, _ | .vector _ _, _, _ | .matrix _ _ _, _, _ | .array _ _, _, _ => by
    simp only [Ty.counterPaths, counterSites, List.map_nil]

theorem map_path_baseCounterSites : (base : OptionalTy) → (name : String) → (path : Path) →
    (baseCounterSites name path base).map (·.path) =
      (base.toOption.elim [] (·.counterPaths)).map (path ++ ·)
  | .absent, _, _ => rfl
  | .present ty, name, path => map_path_counterSites ty name path

theorem map_path_fieldCounterSites : (fields : Fields) → (name : String) → (path : Path) →
    (first : Nat) → (fieldCounterSites name path first fields).map (·.path) =
      (memberCounterPaths first fields.toList).map (path ++ ·)
  | .nil, _, _, _ => rfl
  | .cons _ ty _ _ rest, name, path, first => by
    rw [fieldCounterSites, List.map_append, map_path_counterSites ty, Fields.toList,
      memberCounterPaths_cons, List.map_append, map_path_fieldCounterSites rest name path,
      map_child_append]

end

namespace Source.Ty

/-- The paths are the same under every name. -/
theorem map_path_counterSites_nil (ty : Ty) (name : String) :
    (counterSites name [] ty).map (·.path) = ty.counterPaths := by
  rw [map_path_counterSites]
  exact List.map_id _

variable {ty part : Ty} {r : Record} {p q : Path}

/-- The paths of a structure are those of its members, one member after the other. -/
theorem counterPaths_of_record? (h : ty.record? = some r) :
    ty.counterPaths = memberCounterPaths 0 r.parts := by
  rw [record?] at h
  split at h
  · rename_i name base fields hshape
    cases h
    rw [← counterPaths_shape, hshape, counterPaths, counterSites, List.map_append,
      map_path_baseCounterSites, map_path_fieldCounterSites, Record.parts]
    cases base with
    | absent => simp [OptionalTy.memberCount, OptionalTy.toOption]
    | present base =>
      rw [memberCounterPaths_cons]
      simp [OptionalTy.memberCount, OptionalTy.toOption, Path.child]
  · cases h

/-- Where there are no members, there may be a buffer. -/
theorem counterPaths_of_record?_eq_none (h : ty.record? = none) :
    ty.counterPaths = if ty.isCounterBuffer then [[]] else [] := by
  induction ty using shape.induct with
  | case1 name target ih | case2 order target ih =>
    rw [counterPaths, counterSites]
    exact ih h
  | case3 ty halias horiented =>
    rw [isCounterBuffer, resource?, shape.eq_3 ty halias horiented]
    rw [record?, shape.eq_3 ty halias horiented] at h
    cases ty with
    | struct name base fields => cases h
    | resource kind elem =>
      rw [counterPaths, counterSites, Option.any_some]
      cases kind.hasCounter <;> rfl
    | «alias» name target => exact absurd rfl (halias name target)
    | oriented order target => exact absurd rfl (horiented order target)
    | _ => simp [counterPaths, counterSites]

theorem not_isCounterBuffer_of_record? (h : ty.record? = some r) : ty.isCounterBuffer = false := by
  rw [record?] at h
  split at h
  · rename_i hshape
    rw [isCounterBuffer, resource?, hshape]
    rfl
  · cases h

end Source.Ty

/-! ## Paths below a member -/

theorem filterMap_below?_map_cons (i j : Nat) (paths : List Path) :
    (paths.map (j :: ·) : List Path).filterMap (·.below? [i]) = if j = i then paths else [] := by
  rw [List.filterMap_map]
  split
  · rename_i h
    rw [List.filterMap_congr (g := some) fun q _ => by simp [Path.below?, h], List.filterMap_some]
  · rename_i h
    exact List.filterMap_eq_nil_iff.2 fun q _ => by simp [Path.below?, h]

theorem filterMap_below?_memberCounterPaths_of_lt (parts : List Field) {first i : Nat}
    (h : i < first) : (memberCounterPaths first parts).filterMap (·.below? [i]) = [] := by
  induction parts generalizing first with
  | nil => rfl
  | cons part parts ih =>
    rw [memberCounterPaths_cons, List.filterMap_append, filterMap_below?_map_cons,
      if_neg (Nat.ne_of_gt h), ih (Nat.lt_succ_of_lt h), List.append_nil]

theorem filterMap_below?_memberCounterPaths (parts : List Field) (first i : Nat) :
    (memberCounterPaths first parts).filterMap (·.below? [first + i]) =
      parts[i]?.elim [] (·.ty.counterPaths) := by
  induction parts generalizing first i with
  | nil => rfl
  | cons part parts ih =>
    rw [memberCounterPaths_cons, List.filterMap_append, filterMap_below?_map_cons]
    -- the first member has the number `first`, all others have greater ones
    cases i with
    | zero =>
      have hrest := filterMap_below?_memberCounterPaths_of_lt parts (Nat.lt_succ_self first)
      rw [Nat.add_zero, if_pos rfl, hrest, List.append_nil, List.getElem?_cons_zero,
        Option.elim_some]
    | succ i =>
      rw [if_neg (by omega), List.nil_append, show first + (i + 1) = first + 1 + i by omega, ih,
        List.getElem?_cons_succ]

namespace Source.Ty

variable {ty part : Ty} {p q : Path}

/-- The paths that begin with a member are those of the member. -/
theorem filterMap_below?_singleton (ty : Ty) (i : Nat) :
    ty.counterPaths.filterMap (·.below? [i]) = (ty.member? i).elim [] (·.counterPaths) := by
  rw [member?]
  cases h : ty.record? with
  | none =>
    rw [counterPaths_of_record?_eq_none h]
    cases ty.isCounterBuffer <;> rfl
  | some r =>
    have hbelow := filterMap_below?_memberCounterPaths r.parts 0 i
    rw [Nat.zero_add] at hbelow
    rw [counterPaths_of_record? h, hbelow, Option.bind_some]
    cases r.parts[i]? <;> rfl

/-- **The paths below a member are the paths of the member, in the same order.** -/
theorem filterMap_below?_counterPaths (ty : Ty) (p : Path) :
    ty.counterPaths.filterMap (·.below? p) = (ty.memberAt? p).elim [] (·.counterPaths) := by
  -- one member of the path at a time; what is left of it is asked of the member
  induction p generalizing ty with
  | nil =>
    rw [memberAt?, Option.elim_some]
    exact (List.filterMap_congr fun q _ => Path.below?_nil q).trans List.filterMap_some
  | cons i p ih =>
    rw [List.filterMap_congr fun q _ => Path.below?_cons q i p, ← List.filterMap_filterMap,
      filterMap_below?_singleton, memberAt?]
    cases ty.member? i with
    | none => rfl
    | some part => exact ih part

theorem count_nil_counterPaths (ty : Ty) :
    ty.counterPaths.count [] = if ty.isCounterBuffer then 1 else 0 := by
  cases h : ty.record? with
  | none =>
    rw [counterPaths_of_record?_eq_none h]
    cases ty.isCounterBuffer <;> rfl
  | some r =>
    rw [counterPaths_of_record? h, not_isCounterBuffer_of_record? h, memberCounterPaths]
    refine List.count_eq_zero.2 fun hmem => ?_
    obtain ⟨_, -, hmem⟩ := List.mem_flatMap.1 hmem
    obtain ⟨_, -, hq⟩ := List.mem_map.1 hmem
    cases hq

/-- A path is listed once if it leads to a buffer with a hidden counter, else it is not. -/
theorem count_counterPaths (ty : Ty) (p : Path) :
    ty.counterPaths.count p = if (ty.memberAt? p).any (·.isCounterBuffer) then 1 else 0 := by
  -- a path is listed as often as the member at its end lists the empty path
  have hcount : ty.counterPaths.count p = (ty.counterPaths.filterMap (·.below? p)).count [] := by
    rw [List.count_filterMap, List.count]
    refine List.countP_congr fun q _ => ?_
    rw [beq_iff_eq, beq_iff_eq, Path.below?_eq_some_iff, List.append_nil]
  rw [hcount, filterMap_below?_counterPaths]
  cases ty.memberAt? p with
  | none => rfl
  | some part => exact count_nil_counterPaths part

theorem any_isCounterBuffer_iff :
    (ty.memberAt? p).any (·.isCounterBuffer) = true ↔ ty.HasCounterAt p := by
  rw [Option.any_eq_true, HasCounterAt]

/-- **The paths are those that lead to a buffer with a hidden counter.** -/
theorem mem_counterPaths_iff : p ∈ ty.counterPaths ↔ ty.HasCounterAt p := by
  rw [← List.count_pos_iff, count_counterPaths, ← any_isCounterBuffer_iff]
  split <;> simp [*]

/-- **No path is listed twice.** -/
theorem nodup_counterPaths (ty : Ty) : ty.counterPaths.Nodup := by
  refine List.nodup_iff_count_le_one.2 fun p => ?_
  rw [count_counterPaths]
  split <;> omega

end Source.Ty

/-! ## Types that hold a counter -/

theorem holdAliasable_of_mem {part : Field} (hpart : part.ty.holdsAliasable = true) :
    (fields : Fields) → part ∈ fields.toList → fields.holdAliasable = true
  | .nil, hmem => nomatch hmem
  | .cons _ ty _ _ rest, hmem => by
    rw [Fields.holdAliasable, Bool.or_eq_true]
    rcases List.mem_cons.1 hmem with rfl | hmem
    · exact .inl hpart
    · exact .inr (holdAliasable_of_mem hpart rest hmem)

namespace Source.Ty

variable {ty : Ty} {r : Record} {p : Path}

theorem holdsAliasable_shape (ty : Ty) : ty.shape.holdsAliasable = ty.holdsAliasable := by
  induction ty using shape.induct with
  | case1 name target ih | case2 order target ih => rw [shape, ih, holdsAliasable]
  | case3 ty halias horiented => rw [shape.eq_3 ty halias horiented]

theorem holdsAliasable_of_record? (h : ty.record? = some r) {part : Field}
    (hmem : part ∈ r.parts) (hpart : part.ty.holdsAliasable = true) : ty.holdsAliasable = true := by
  rw [record?] at h
  split at h
  · rename_i name base fields hshape
    cases h
    rw [← holdsAliasable_shape, hshape, holdsAliasable, Bool.or_eq_true]
    cases base with
    | absent => exact .inr (holdAliasable_of_mem hpart fields hmem)
    | present base =>
      rcases List.mem_cons.1 hmem with rfl | hmem
      · exact .inl hpart
      · exact .inr (holdAliasable_of_mem hpart fields hmem)
  · cases h

theorem holdsAliasable_of_isCounterBuffer (h : ty.isCounterBuffer = true) :
    ty.holdsAliasable = true := by
  rw [isCounterBuffer, resource?] at h
  split at h
  · rename_i kind elem hshape
    rw [← holdsAliasable_shape, hshape, holdsAliasable]
    rw [Option.any_some] at h
    cases kind with
    | structured access => rfl
    | _ => cases h
  · cases h

/-- A path to a counter is a path to something that can be aliased. -/
theorem HasCounterAt.holdsAliasable (h : ty.HasCounterAt p) : ty.holdsAliasable = true := by
  obtain ⟨part, hpart, hcounter⟩ := h
  induction p generalizing ty with
  | nil =>
    cases hpart
    exact holdsAliasable_of_isCounterBuffer hcounter
  | cons i p ih =>
    obtain ⟨member, hmember, hpart⟩ := Option.bind_eq_some_iff.1 hpart
    obtain ⟨r, hr, hmember⟩ := Option.bind_eq_some_iff.1 hmember
    obtain ⟨field, hfield, rfl⟩ := Option.map_eq_some_iff.1 hmember
    exact holdsAliasable_of_record? hr (List.mem_of_getElem? hfield) (ih hpart)

/-- Where nothing can be aliased, there are no counters. -/
theorem counterPaths_eq_nil (h : ty.holdsAliasable = false) : ty.counterPaths = [] := by
  refine List.eq_nil_iff_forall_not_mem.2 fun p hp => ?_
  have halias := (mem_counterPaths_iff.1 hp).holdsAliasable
  rw [h] at halias
  cases halias

end Source.Ty

end ShaderLowering
