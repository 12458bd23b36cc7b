import ShaderLowering.Proofs.Interface.Listed
import ShaderLowering.Proofs.Session.Locations

/-!
# Linkages of a session

A session whose interface flows in one direction gives out locations by one plan.  What becomes of its
linkages is what the plan makes of them, in order of creation (`Session.linkages_settled_congr`) and
in any order (`Session.linkages_settled_perm`).
-/

namespace ShaderLowering

open Source (Position)

namespace Session

/-- The linkages of the variables at locations, in order of creation. -/
def linkages (s : Session) : List Linkage := s.interface.filterMap (·.linkage?)

/-- All interface variables are of one direction. -/
def Flows (s : Session) (direction : Direction) : Prop :=
  ∀ v ∈ s.interface, v.direction = direction

variable {s s' : Session} {direction : Direction}

/-- The variables of leaves of one direction flow in it. -/
theorem Lists.flows {options : Options} {stage : Stage} {leaves : List InterfaceLeaf}
    (hs : s.Lists options stage leaves) (h : ∀ l ∈ leaves, l.direction = direction) :
    s.Flows direction := by
  intro v hv
  obtain ⟨l, hl, hentry⟩ := hs.exists_leaf hv
  have hpoint := congrArg (·.point.direction) hentry
  exact hpoint.symm.trans (h l (List.mem_of_mem_filter hl))

/-- What a session is after leaves of one direction were created in a new one. -/
theorem Lowers.of_start {options : Options} {stage : Stage} {leaves : List InterfaceLeaf}
    (h : (Session.start stage options).Lowers leaves s)
    (hdirection : ∀ l ∈ leaves, l.direction = direction) :
    s.Flows direction ∧ s.Lists options stage leaves ∧
      ∀ l ∈ leaves, (l.site? stage).isSome = true := by
  have hblank := blank_start stage options
  have hlists := h.lists_of_blank hblank
  exact ⟨hlists.flows hdirection, hlists, (h.creates hblank.ready).placed⟩

/-- The linkages are those of the listed leaves. -/
theorem Lists.map_linkage? {options : Options} {stage : Stage} {leaves : List InterfaceLeaf}
    (hs : s.Lists options stage leaves) : s.interface.map (·.linkage?) =
      (InterfaceLeaf.listed stage leaves).map (·.linkage? options stage) := by
  have hlinkages := congrArg (List.map InterfaceEntry.linkage) hs.entries
  rw [List.map_map, List.map_map] at hlinkages
  exact hlinkages

theorem Lists.linkages_listed {options : Options} {stage : Stage} {leaves : List InterfaceLeaf}
    (hs : s.Lists options stage leaves) : s.linkages =
      (InterfaceLeaf.listed stage leaves).filterMap (·.linkage? options stage) := by
  have hlinkages := congrArg (List.filterMap id) hs.map_linkage?
  rw [List.filterMap_map, List.filterMap_map] at hlinkages
  exact hlinkages

/-- The linkages are those of all leaves at locations. -/
theorem Lists.linkages {options : Options} {stage : Stage} {leaves : List InterfaceLeaf}
    (hs : s.Lists options stage leaves) :
    s.linkages = leaves.filterMap (·.linkage? options stage) := by
  rw [hs.linkages_listed, InterfaceLeaf.listed, List.filterMap_filter]
  refine List.filterMap_congr fun l _ => ?_
  split
  · rfl
  · rename_i hlisted
    -- a leaf at a location is listed, so one that is not has no linkage
    refine (InterfaceLeaf.linkage?_of_ne fun hsite => ?_).symm
    exact hlisted (InterfaceLeaf.isListed_of_location hsite)

/-- The numbered linkages of a list of variables, of which some have none. -/
theorem map_numberedLinkage_locatedVariables (h : s.Flows direction) :
    (locatedVariables direction s.interface).map numberedLinkage =
      (s.interface.map (·.linkage?)).zipIdx.filterMap fun k => k.1.map (·, k.2) := by
  rw [locatedVariables, List.zipIdx_map, List.filterMap_map, ← List.filterMap_eq_filter,
    List.map_filterMap]
  refine List.filterMap_congr fun v hv => ?_
  have hdirection := h v.1 (List.fst_mem_of_mem_zipIdx hv)
  cases hlocated : v.1.isLocated <;>
    simp [Option.guard, hdirection, hlocated, InterfaceVariable.linkage?, numberedLinkage]

theorem map_linkage_locatedVariables (h : s.Flows direction) :
    (locatedVariables direction s.interface).map (·.1.linkage) = s.linkages := by
  have hzip : s.interface = s.interface.zipIdx.map Prod.fst := (List.zipIdx_map_fst 0 _).symm
  rw [linkages, hzip, List.filterMap_map, ← hzip, locatedVariables, ← List.filterMap_eq_filter,
    List.map_filterMap]
  refine List.filterMap_congr fun v hv => ?_
  have hdirection := h v.1 (List.fst_mem_of_mem_zipIdx hv)
  cases hlocated : v.1.isLocated <;>
    simp [Option.guard, hdirection, hlocated, InterfaceVariable.linkage?]

/-- In the other direction there is nothing. -/
theorem locatedVariables_of_ne (h : s.Flows direction) {other : Direction}
    (hne : direction ≠ other) : locatedVariables other s.interface = [] := by
  rw [locatedVariables, List.filter_eq_nil_iff]
  intro v hv
  have hdirection := h v.1 (List.fst_mem_of_mem_zipIdx hv)
  simp [hdirection, hne]

theorem repeatedIn_of_ne (h : s.Flows direction) {other : Direction} (hne : direction ≠ other) :
    Lower.repeatedIn other s = [] := by
  have hnone : s.interface.filter (·.direction = other) = [] := by
    rw [List.filter_eq_nil_iff]
    intro v hv
    simp [h v hv, hne]
  rw [Lower.repeatedIn, hnone, repeatedSemantics]

end Session

/-- The plan for no variables. -/
theorem LocationPlan.of_nil {order : LocationOrder} {direction : Direction}
    {vs : List InterfaceVariable} (h : locatedVariables direction vs = []) :
    LocationPlan.of order direction vs = .ok ⟨[], []⟩ := by
  have hnone : fillOrder order [] = [] := List.perm_nil.1 (fillOrder_perm order [])
  rw [LocationPlan.of, h, List.map_nil, List.filter_nil, hnone]
  rfl

theorem LocationPlan.serves_nil {direction : Direction} {vs : List InterfaceVariable}
    (h : locatedVariables direction vs = []) :
    LocationPlan.Serves ⟨[], []⟩ direction vs [] where
  placed := rfl
  numbered := by rw [h, List.map_nil]
  explicit _ hp := absurd hp List.not_mem_nil
  taken _ hf := absurd hf List.not_mem_nil
  findings := by simp [h]
  apart _ := .nil

namespace Lower

variable {s s' : Session} {direction : Direction}

/-- With a plan for the only direction locations are given out. -/
theorem runOn_decorateLocations_of_flows (hs : s.Sound) (h : s.Flows direction)
    {plan : LocationPlan} {ps : List Placing}
    (hplan : LocationPlan.of s.emitter.options.order direction s.interface = .ok plan)
    (hps : plan.Serves direction s.interface ps) :
    ∃ s', decorateLocations.runOn s =
        (.ok ((repeatedIn direction s).isEmpty && plan.findings.isEmpty), s') ∧
      s'.interface = (ps.foldl Session.settled s).interface := by
  cases direction with
  | input =>
    have hnone : locatedVariables .output s.interface = [] :=
      Session.locatedVariables_of_ne h (by decide)
    have hrun := runOn_decorateLocations_of_plans hs hplan (LocationPlan.of_nil hnone) hps
      (LocationPlan.serves_nil hnone)
    rw [Session.repeatedIn_of_ne h (by decide : Direction.input ≠ .output)] at hrun
    refine ⟨_, by simpa using hrun, ?_⟩
    rfl
  | output =>
    have hnone : locatedVariables .input s.interface = [] :=
      Session.locatedVariables_of_ne h (by decide)
    have hrun := runOn_decorateLocations_of_plans hs (LocationPlan.of_nil hnone) hplan
      (LocationPlan.serves_nil hnone) hps
    rw [Session.repeatedIn_of_ne h (by decide : Direction.output ≠ .input)] at hrun
    refine ⟨_, by simpa using hrun, ?_⟩
    rfl

/-- Locations that were given out are those of a plan. -/
theorem exists_plan_of_runOn (hs : s.Sound) (h : s.Flows direction) {b : Bool}
    (hrun : decorateLocations.runOn s = (.ok b, s')) :
    ∃ plan ps, LocationPlan.of s.emitter.options.order direction s.interface = .ok plan ∧
      plan.Serves direction s.interface ps ∧
      b = ((repeatedIn direction s).isEmpty && plan.findings.isEmpty) ∧
      s'.interface = (ps.foldl Session.settled s).interface := by
  have hplan : ∃ plan, LocationPlan.of s.emitter.options.order direction s.interface = .ok plan := by
    obtain ⟨inputs, outputs, hinputs, houtputs⟩ := exists_plans hs (by simp [hrun])
    cases direction
    · exact ⟨inputs, hinputs⟩
    · exact ⟨outputs, houtputs⟩
  obtain ⟨plan, hplan⟩ := hplan
  obtain ⟨ps, hps⟩ := LocationPlan.serves_of hplan
  obtain ⟨s₁, hrun₁, hinterface⟩ := runOn_decorateLocations_of_flows hs h hplan hps
  obtain ⟨hb, rfl⟩ := Prod.mk.inj (hrun.symm.trans hrun₁)
  exact ⟨plan, ps, hplan, hps, Except.ok.inj hb, hinterface⟩

end Lower

namespace Session

variable {s s' : Session} {direction : Direction} {plan : LocationPlan} {ps : List Placing}

theorem flows_settled_foldl (h : s.Flows direction) (ps : List Placing) :
    (ps.foldl settled s).Flows direction := by
  induction ps generalizing s with
  | nil => exact h
  | cons p rest ih =>
    refine ih fun v hv => ?_
    obtain ⟨i, hi⟩ := List.getElem?_of_mem hv
    rw [interface_settled] at hi
    split at hi
    · obtain ⟨u, hu, rfl⟩ := Option.map_eq_some_iff.1 hi
      exact h u (List.mem_of_getElem? hu)
    · exact h v (List.mem_of_getElem? hi)

/-- The linkages after giving out locations depend on those before and on the plan. -/
theorem map_linkage?_settled_foldl (ps : List Placing) (s : Session) :
    (ps.foldl settled s).interface.map (·.linkage?) =
      (ps.map fun p => (p.1.2, p.2)).foldl
        (fun ks p => ks.modify p.1 fun k : Option Linkage => k.map (·.placedAt p.2))
        (s.interface.map (·.linkage?)) := by
  induction ps generalizing s with
  | nil => rfl
  | cons p rest ih =>
    rw [List.foldl_cons, ih, List.map_cons, List.foldl_cons]
    congr 1
    show (s.interface.modify p.1.2 (.placedAt p.2)).map _ = _
    refine List.ext_getElem? fun i => ?_
    rw [List.getElem?_map, List.getElem?_modify, List.getElem?_modify, List.getElem?_map]
    split
    · simp only [Option.map_eq_map, Option.map_map, Function.comp_def,
        InterfaceVariable.linkage?_placedAt]
    · simp

/-- Every variable of the direction is placed, and no other. -/
theorem linkages_settled_perm (h : s.Flows direction) (hps : plan.Serves direction s.interface ps) :
    (ps.foldl settled s).linkages.Perm (ps.map placedLinkage) := by
  have hlocated : (locatedVariables direction (ps.foldl settled s).interface).Perm
      (ps.map fun p => (p.1.1.placedAt p.2, p.1.2)) := by
    have hnodup : ((ps.map fun p => (p.1.1.placedAt p.2, p.1.2)).map Prod.snd).Nodup := by
      rw [List.map_map]
      exact hps.nodup
    rw [List.perm_ext_iff_of_nodup (.of_map _ (nodup_locatedVariables direction _))
      (.of_map _ hnodup)]
    rintro ⟨w, i⟩
    rw [mem_locatedVariables_iff, List.mem_map]
    constructor
    · rintro ⟨hw, hdirection, hlocated⟩
      by_cases hi : ∃ p ∈ ps, p.1.2 = i
      · obtain ⟨p, hp, rfl⟩ := hi
        rw [interface_settled_foldl_of_mem hps.nodup hp, (hps.getElem?_of_mem hp).1] at hw
        exact ⟨p, hp, congrArg (·, p.1.2) (Option.some.inj hw)⟩
      · -- a variable without a turn would be one at a location, which has a turn
        rw [interface_settled_foldl_of_not_mem fun p hp heq => hi ⟨p, hp, heq⟩] at hw
        obtain ⟨location, hp⟩ := hps.exists_mem hw hdirection hlocated
        exact absurd ⟨_, hp, rfl⟩ hi
    · rintro ⟨p, hp, heq⟩
      cases heq
      obtain ⟨hv, hdirection, hlocated⟩ := hps.getElem?_of_mem hp
      rw [interface_settled_foldl_of_mem hps.nodup hp, hv]
      exact ⟨rfl, hdirection, hlocated⟩
  rw [← map_linkage_locatedVariables (flows_settled_foldl h ps)]
  have hmap := hlocated.map (·.1.linkage)
  rw [List.map_map] at hmap
  exact hmap

end Session

end ShaderLowering
