import ShaderLowering.Proofs.Interface.Renumbering

/-!
# Variables of one direction

A plan for the variables of one direction is a plan for them alone: what else is on the interface,
and in which order, only changes their numbers.  So the variables of one direction are put where
they would be put without the others (`LocationPlan.map_place_congr`).
-/

namespace ShaderLowering

variable {vs ws : List InterfaceVariable} {direction : Direction} {order : LocationOrder}

/-- The variables of one direction, with their numbers among all. -/
def variablesIn (direction : Direction) (vs : List InterfaceVariable) :
    List (InterfaceVariable × Nat) :=
  vs.zipIdx.filter (·.1.direction = direction)

/-- The number among all variables of a variable that is numbered within its direction.  Beyond the
last variable numbers go on so that different ones stay different. -/
def numberIn (direction : Direction) (vs : List InterfaceVariable) (j : Nat) : Nat :=
  (((variablesIn direction vs).map (·.2))[j]?).getD (vs.length + j)

theorem map_fst_variablesIn (direction : Direction) (vs : List InterfaceVariable) :
    (variablesIn direction vs).map (·.1) = vs.filter (·.direction = direction) := by
  conv => rhs; rw [← List.zipIdx_map_fst 0 vs]
  rw [List.filter_map]
  rfl

theorem numberIn_of_getElem? {p : InterfaceVariable × Nat} {j : Nat}
    (h : (variablesIn direction vs)[j]? = some p) : numberIn direction vs j = p.2 := by
  rw [numberIn, List.getElem?_map, h]
  rfl

theorem numberIn_injective (direction : Direction) (vs : List InterfaceVariable) :
    Function.Injective (numberIn direction vs) := by
  have hnodup : ((variablesIn direction vs).map (·.2)).Nodup := by
    have hnumbers : (vs.zipIdx.map (·.2)).Nodup := by
      rw [List.zipIdx_map_snd]
      exact List.nodup_range' ..
    exact hnumbers.sublist (List.filter_sublist.map _)
  have hlt : ∀ {j n : Nat}, ((variablesIn direction vs).map (·.2))[j]? = some n →
      n < vs.length := by
    intro j n h
    obtain ⟨p, hp, rfl⟩ := List.mem_map.1 (List.mem_of_getElem? h)
    have hget := List.mem_zipIdx_iff_getElem?.1 (List.mem_of_mem_filter hp)
    exact (List.getElem?_eq_some_iff.1 hget).1
  -- a position that is held goes to a number in the list, any other beyond its end
  intro j k hjk
  rw [numberIn, numberIn] at hjk
  cases hj : ((variablesIn direction vs).map (·.2))[j]? with
  | none =>
    cases hk : ((variablesIn direction vs).map (·.2))[k]? with
    | none =>
      rw [hj, hk] at hjk
      exact Nat.add_left_cancel hjk
    | some n =>
      have hn := hlt hk
      simp only [hj, hk, Option.getD_none, Option.getD_some] at hjk
      omega
  | some m =>
    cases hk : ((variablesIn direction vs).map (·.2))[k]? with
    | none =>
      have hm := hlt hj
      simp only [hj, hk, Option.getD_none, Option.getD_some] at hjk
      omega
    | some n =>
      rw [hj, hk] at hjk
      have hlength := (List.getElem?_eq_some_iff.1 hj).1
      exact (List.getElem?_inj hlength hnodup).1 (hj.trans ((congrArg some hjk).trans hk.symm))

/-- Numbered within their direction, variables are the same but for their numbers. -/
theorem map_renumbered_zipIdx (direction : Direction) (vs : List InterfaceVariable) :
    (vs.filter (·.direction = direction)).zipIdx.map (renumbered (numberIn direction vs)) =
      (variablesIn direction vs).map (renumbered id) := by
  refine List.ext_getElem? fun j => ?_
  rw [← map_fst_variablesIn, List.getElem?_map, List.getElem?_zipIdx, List.getElem?_map,
    List.getElem?_map]
  cases hp : (variablesIn direction vs)[j]? with
  | none => rfl
  | some p =>
    have hnumber := numberIn_of_getElem? hp
    simp only [Option.map_some, renumbered, Nat.zero_add, hnumber, id]

theorem map_renumbered_locatedVariables (direction : Direction) (vs : List InterfaceVariable) :
    (locatedVariables direction vs).map (renumbered id) =
      (locatedVariables direction (vs.filter (·.direction = direction))).map
        (renumbered (numberIn direction vs)) := by
  have hlocated : locatedVariables direction vs =
      (variablesIn direction vs).filter (·.1.isLocated) := by
    rw [locatedVariables, variablesIn, List.filter_filter]
    exact List.filter_congr fun p _ => Bool.and_comm _ _
  have hlocated' : locatedVariables direction (vs.filter (·.direction = direction)) =
      (vs.filter (·.direction = direction)).zipIdx.filter (·.1.isLocated) := by
    refine List.filter_congr fun p hp => ?_
    have hdirection := List.of_mem_filter (List.fst_mem_of_mem_zipIdx hp)
    rw [hdirection, Bool.true_and]
  have hcomm : ∀ (f : Nat → Nat) (l : List (InterfaceVariable × Nat)),
      (l.filter (·.1.isLocated)).map (renumbered f) =
        (l.map (renumbered f)).filter (·.1.isLocated) := by
    intro f l
    rw [List.filter_map]
    rfl
  rw [hlocated, hlocated', hcomm, hcomm, map_renumbered_zipIdx]

/-! ## Plans for one direction -/

/-- Keys that stay different may be changed. -/
theorem lookup_map_fst {α : Type} {f : Nat → Nat} (hf : Function.Injective f) (j : Nat)
    (l : List (Nat × α)) : (l.map fun p => (f p.1, p.2)).lookup (f j) = l.lookup j := by
  induction l with
  | nil => rfl
  | cons p rest ih =>
    rw [List.map_cons, List.lookup_cons, List.lookup_cons, ih]
    by_cases hj : j = p.1
    · subst hj
      simp only [beq_self_eq_true]
    · rw [beq_false_of_ne hj, beq_false_of_ne fun heq => hj (hf heq)]

namespace LocationPlan

/-- A numbered variable where a plan puts it. -/
def place (plan : LocationPlan) (p : InterfaceVariable × Nat) : InterfaceVariable :=
  match plan.placed.lookup p.2 with
  | some location => p.1.placedAt location
  | none => p.1

theorem unnumbered_place (plan : LocationPlan) (p : InterfaceVariable × Nat) :
    (plan.place p).unnumbered = plan.place (p.1.unnumbered, p.2) := by
  rw [place, place]
  cases plan.placed.lookup p.2 <;> rfl

/-- A plan for a direction is one for its variables alone. -/
theorem of_filter (order : LocationOrder) (direction : Direction) (vs : List InterfaceVariable) :
    LocationPlan.of order direction vs =
      (LocationPlan.of order direction (vs.filter (·.direction = direction))).map
        (·.renumbered (numberIn direction vs)) :=
  of_renumbered (map_renumbered_locatedVariables direction vs)

/-- Variables are put where they are put without those of the other direction. -/
theorem map_place_renumbered (plan : LocationPlan) (direction : Direction)
    (vs : List InterfaceVariable) :
    (variablesIn direction vs).map (plan.renumbered (numberIn direction vs)).place =
      (vs.filter (·.direction = direction)).zipIdx.map plan.place := by
  refine List.ext_getElem? fun j => ?_
  rw [← map_fst_variablesIn, List.getElem?_map, List.getElem?_map, List.getElem?_zipIdx,
    List.getElem?_map]
  cases hp : (variablesIn direction vs)[j]? with
  | none => rfl
  | some p =>
    have hlookup : (plan.placed.map fun p => (numberIn direction vs p.1, p.2)).lookup p.2 =
        plan.placed.lookup j := by
      rw [← numberIn_of_getElem? hp]
      exact lookup_map_fst (numberIn_injective direction vs) j _
    simp only [Option.map_some, place, renumbered, hlookup, Nat.zero_add]

/-- Where the variables of a direction are put depends on these variables only, and not on their
numbers in the module. -/
theorem map_place_congr {plan plan' : LocationPlan}
    (h : (vs.filter (·.direction = direction)).map (·.unnumbered) =
      (ws.filter (·.direction = direction)).map (·.unnumbered))
    (hplan : LocationPlan.of order direction vs = .ok plan)
    (hplan' : LocationPlan.of order direction ws = .ok plan') :
    ((variablesIn direction vs).map plan.place).map (·.unnumbered) =
      ((variablesIn direction ws).map plan'.place).map (·.unnumbered) := by
  have halone : ∀ {vs : List InterfaceVariable} {plan : LocationPlan},
      LocationPlan.of order direction vs = .ok plan →
      ∃ alone, LocationPlan.of order direction (vs.filter (·.direction = direction)) = .ok alone ∧
        ((variablesIn direction vs).map plan.place).map (·.unnumbered) =
          ((vs.filter (·.direction = direction)).map (·.unnumbered)).zipIdx.map alone.place := by
    intro vs plan hplan
    rw [of_filter] at hplan
    cases halone : LocationPlan.of order direction (vs.filter (·.direction = direction)) with
    | error fault => rw [halone] at hplan; cases hplan
    | ok alone =>
      rw [halone] at hplan
      cases hplan
      refine ⟨alone, rfl, ?_⟩
      rw [map_place_renumbered, List.map_map, List.zipIdx_map, List.map_map]
      exact List.map_congr_left fun p _ => alone.unnumbered_place p
  obtain ⟨alone, hleft, hplaces⟩ := halone hplan
  obtain ⟨alone', hright, hplaces'⟩ := halone hplan'
  rw [of_unnumbered h, hright] at hleft
  cases hleft
  rw [hplaces, hplaces', h]

end LocationPlan

end ShaderLowering
