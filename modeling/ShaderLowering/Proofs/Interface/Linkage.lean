import Mathlib.Data.List.Nodup
import ShaderLowering.Proofs.Interface.Plan

/-!
# Linkages

What another stage has to agree on about a variable at locations is its linkage: the semantic
string, the location, the blend source and the number of locations.  A plan of locations depends on
nothing else.  Equal linkages of numbered variables lead to the same plan
(`LocationPlan.placed_congr`).  In alphabetical order the numbers do not matter either, as long as
explicit locations keep apart and strings are different (`LocationPlan.exists_of_perm`).
-/

namespace ShaderLowering

/-- What two stages that meet at an interface agree on about a variable at locations. -/
structure Linkage where
  semantic : Option String
  location : Option Nat
  index : Option Nat
  count : Nat
deriving DecidableEq, Repr, Inhabited

namespace Linkage

variable (k : Linkage)

/-- The number of locations that are set aside. -/
def room : Nat := max k.count 1

/-- The slots at an explicit location. -/
def slots? : Option SlotRange :=
  k.location.map fun start => ⟨start, start + k.room, k.index.getD 0⟩

/-- The string by which variables are put in alphabetical order. -/
def key : String := k.semantic.getD ""

/-- The linkage at a location. -/
def placedAt (location : Nat) : Linkage := { k with location := some location }

/-- Whether one linkage may come before another in alphabetical order. -/
def le (k l : Linkage) : Bool := decide (k.key ≤ l.key)

variable {k}

theorem le_trans {l m : Linkage} (h : k.le l = true) (h' : l.le m = true) : k.le m = true :=
  decide_eq_true (String.le_trans (of_decide_eq_true h) (of_decide_eq_true h'))

theorem le_total (k l : Linkage) : (k.le l || l.le k) = true := by
  simpa [le] using String.le_total k.key l.key

end Linkage

namespace InterfaceVariable

variable (v : InterfaceVariable)

/-- The linkage of a variable at locations. -/
def linkage : Linkage := ⟨v.semantic.map (·.string), v.location, v.index, v.locationCount⟩

/-- The linkage of a variable, if it is at locations. -/
def linkage? : Option Linkage := if v.isLocated then some v.linkage else none

theorem linkage?_placedAt (location : Nat) :
    (v.placedAt location).linkage? = v.linkage?.map (·.placedAt location) := by
  rw [linkage?, linkage?]
  show (if v.isLocated = true then _ else _) = _
  split <;> rfl

end InterfaceVariable

/-! ## Explicit locations -/

namespace ExplicitLocations

variable {e e' f f' : ExplicitLocations} {vs vs' : List InterfaceVariable}

/-- What is set aside depends on the explicit slots only. -/
theorem taken_congr (hslots : vs.map (·.slots?) = vs'.map (·.slots?)) (htaken : e.taken = e'.taken)
    (h : setAside e vs = .ok f) (h' : setAside e' vs' = .ok f') : f.taken = f'.taken := by
  induction vs generalizing vs' e e' with
  | nil =>
    cases vs' with
    | nil =>
      cases h
      cases h'
      exact htaken
    | cons u rest' => cases hslots
  | cons v rest ih =>
    cases vs' with
    | nil => cases hslots
    | cons u rest' =>
      obtain ⟨hhead, htail⟩ := List.cons.inj hslots
      change v.location.map v.slotsAt = u.location.map u.slotsAt at hhead
      cases hv : v.location with
      | none =>
        have hu : u.location = none := by
          rw [hv] at hhead
          exact Option.map_eq_none_iff.1 hhead.symm
        rw [setAside, hv] at h
        rw [setAside, hu] at h'
        exact ih htail htaken h h'
      | some start =>
        rw [hv] at hhead
        obtain ⟨start', hu, hrange⟩ := Option.map_eq_some_iff.1 hhead.symm
        refine ih htail ?_ (setAside_claim hv h) (setAside_claim hu h')
        rw [claim, claim, htaken, hrange]

/-- Explicit locations can be set aside exactly if all of them are words. -/
theorem exists_setAside_iff : (∃ f, setAside e vs = .ok f) ↔
    ∀ r ∈ vs.filterMap (·.slots?), r.stop < Word.bound := by
  induction vs generalizing e with
  | nil => simp [setAside]
  | cons v rest ih =>
    cases hlocation : v.location with
    | none =>
      have hslots : v.slots? = none := by rw [InterfaceVariable.slots?, hlocation, Option.map_none]
      rw [setAside, hlocation, List.filterMap_cons_none hslots]
      exact ih
    | some start =>
      have hslots : v.slots? = some (v.slotsAt start) := by
        rw [InterfaceVariable.slots?, hlocation, Option.map_some]
      rw [List.filterMap_cons_some hslots, List.forall_mem_cons, ← ih (e := e.claim v start)]
      constructor
      · rintro ⟨f, h⟩
        refine ⟨?_, f, setAside_claim hlocation h⟩
        rw [setAside, hlocation] at h
        obtain ⟨stop, hstop, -⟩ := bind_eq_ok_iff.1 h
        exact (Word.add_eq_ok_iff.1 hstop).2
      · rintro ⟨hlt, f, h⟩
        refine ⟨f, ?_⟩
        rw [setAside, hlocation]
        exact bind_eq_ok_iff.2 ⟨_, Word.add_eq_ok_iff.2 ⟨rfl, hlt⟩, h⟩

/-- Explicit slots that keep apart are set aside whatever their order is. -/
theorem exists_setAside_of_perm
    (hperm : (vs.filterMap (·.slots?)).Perm (vs'.filterMap (·.slots?)))
    (h : setAside {} vs = .ok f) (hnil : f.findings = []) :
    ∃ f', setAside {} vs' = .ok f' ∧ f'.findings = [] ∧ ∀ r, r ∈ f.taken ↔ r ∈ f'.taken := by
  obtain ⟨hcheck, htaken⟩ := setAside_spec h
  obtain ⟨f', h'⟩ : ∃ f', setAside {} vs' = .ok f' := by
    rw [exists_setAside_iff]
    intro r hr
    exact exists_setAside_iff.1 ⟨f, h⟩ r (hperm.mem_iff.2 hr)
  obtain ⟨hcheck', htaken'⟩ := setAside_spec h'
  have hnil' : f'.findings = [] := by
    have hsymm : ∀ {t r : SlotRange}, t.isApart r = true → r.isApart t = true :=
      fun {t r} htr => by rw [SlotRange.isApart_comm]; exact htr
    have hapart := (hperm.pairwise_iff hsymm).1 (hcheck.1 hnil).2.1
    exact hcheck'.2 ⟨rfl, hapart, fun _ _ _ ht => nomatch ht⟩
  refine ⟨f', h', hnil', fun r => ?_⟩
  rw [htaken hnil, htaken' hnil', List.nil_append, List.nil_append, hperm.mem_iff]

end ExplicitLocations

/-! ## Automatic locations -/

section Fill

variable {taken taken' : List SlotRange}

/-- Which range is the lowest free one depends on which ranges are taken, in any order. -/
theorem lowestFree_congr (h : ∀ r, r ∈ taken ↔ r ∈ taken') (next count : Nat) :
    lowestFree taken next count = lowestFree taken' next count := by
  have hfree : ∀ r, isFree taken r = isFree taken' r := by
    intro r
    rw [Bool.eq_iff_iff, isFree, isFree, List.all_eq_true, List.all_eq_true]
    exact ⟨fun hall t ht => hall t ((h t).2 ht), fun hall t ht => hall t ((h t).1 ht)⟩
  have hstarts : ∀ start, start ∈ (next :: taken.map (·.stop)).filter (fun start =>
        next ≤ start && isFree taken ⟨start, start + count, 0⟩) ↔
      start ∈ (next :: taken'.map (·.stop)).filter fun start =>
        next ≤ start && isFree taken' ⟨start, start + count, 0⟩ := by
    intro start
    simp only [List.mem_filter, List.mem_cons, List.mem_map, hfree, h]
  rw [lowestFree, lowestFree]
  congr 1
  refine Option.ext fun start => ?_
  rw [List.min?_eq_some_iff, List.min?_eq_some_iff]
  simp only [hstarts]

theorem fill_congr {counts : List Nat} (h : ∀ r, r ∈ taken ↔ r ∈ taken') (next : Nat) :
    fill taken next counts = fill taken' next counts := by
  induction counts generalizing taken taken' next with
  | nil => rfl
  | cons count rest ih =>
    have hrest : ∀ stop r, r ∈ taken ++ [⟨lowestFree taken' next count, stop, 0⟩] ↔
        r ∈ taken' ++ [⟨lowestFree taken' next count, stop, 0⟩] := by
      intro stop r
      rw [List.mem_append, List.mem_append, h]
    rw [fill, fill, lowestFree_congr h]
    simp only [ih (hrest _)]

end Fill

/-! ## Plans -/

/-- A variable's linkage with its number. -/
def numberedLinkage (v : InterfaceVariable × Nat) : Linkage × Nat := (v.1.linkage, v.2)

/-- The linkage of a variable at the location that it is given. -/
def placedLinkage (p : Placing) : Linkage := p.1.1.linkage.placedAt p.2

theorem map_fillOrder_alphabetical (vs : List (InterfaceVariable × Nat)) :
    (fillOrder .alphabetical vs).map (·.1.linkage) = (vs.map (·.1.linkage)).mergeSort Linkage.le :=
  List.map_mergeSort fun _ _ _ _ => rfl

/-- The order in which locations are given out depends on the linkages only. -/
theorem map_fillOrder_congr {vs vs' : List (InterfaceVariable × Nat)}
    (h : vs.map numberedLinkage = vs'.map numberedLinkage) (order : LocationOrder) :
    (fillOrder order vs).map numberedLinkage = (fillOrder order vs').map numberedLinkage := by
  cases order with
  | declaration => exact h
  | alphabetical =>
    have hsort : ∀ vs : List (InterfaceVariable × Nat),
        (fillOrder .alphabetical vs).map numberedLinkage =
          (vs.map numberedLinkage).mergeSort fun a b => a.1.le b.1 :=
      fun vs => List.map_mergeSort fun _ _ _ _ => rfl
    rw [hsort, hsort, h]

/-- In alphabetical order linkages with different strings have one order. -/
theorem mergeSort_eq_of_perm {ks ks' : List Linkage} (hperm : ks.Perm ks')
    (hkeys : (ks.map (·.key)).Nodup) : ks.mergeSort Linkage.le = ks'.mergeSort Linkage.le := by
  have hsorted : ∀ ks : List Linkage, (ks.mergeSort Linkage.le).Pairwise (·.le · = true) :=
    List.pairwise_mergeSort (fun _ _ _ => Linkage.le_trans) Linkage.le_total
  have hall := (List.mergeSort_perm ks Linkage.le).trans
    (hperm.trans (List.mergeSort_perm ks' Linkage.le).symm)
  refine List.Perm.eq_of_pairwise (fun k l hk hl hle hge => ?_) (hsorted ks) (hsorted ks') hall
  have hk' : k ∈ ks := (List.mergeSort_perm ks _).mem_iff.1 hk
  have hl' : l ∈ ks := (hperm.trans (List.mergeSort_perm ks' _).symm).mem_iff.2 hl
  exact List.inj_on_of_nodup_map hkeys hk' hl'
    (String.le_antisymm (of_decide_eq_true hle) (of_decide_eq_true hge))

namespace LocationPlan

variable {order : LocationOrder} {direction direction' : Direction}
  {vs vs' : List InterfaceVariable} {plan plan' : LocationPlan}

/-- Equal linkages are given the same locations. -/
theorem placed_congr
    (hsame : (locatedVariables direction vs).map numberedLinkage =
      (locatedVariables direction' vs').map numberedLinkage)
    (h : LocationPlan.of order direction vs = .ok plan)
    (h' : LocationPlan.of order direction' vs' = .ok plan') : plan.placed = plan'.placed := by
  obtain ⟨e, starts, haside, hstarts, -, hplaced⟩ := of_eq_ok_iff.1 h
  obtain ⟨e', starts', haside', hstarts', -, hplaced'⟩ := of_eq_ok_iff.1 h'
  -- linkages decide what is pending, which ranges are taken, and where the rest starts
  have hpending : (pendingVariables order direction vs).map numberedLinkage =
      (pendingVariables order direction' vs').map numberedLinkage := by
    have hfilter : ∀ vs : List (InterfaceVariable × Nat),
        (vs.filter fun v => v.1.location.isNone).map numberedLinkage =
          (vs.map numberedLinkage).filter (·.1.location.isNone) := by
      intro vs
      rw [List.filter_map]
      rfl
    refine map_fillOrder_congr ?_ order
    rw [hfilter, hfilter, hsame]
  have htaken : e.taken = e'.taken := by
    refine ExplicitLocations.taken_congr ?_ rfl haside haside'
    have hslots := congrArg (List.map fun k : Linkage × Nat => k.1.slots?) hsame
    rw [List.map_map, List.map_map] at hslots ⊢
    exact hslots
  have hstarts : starts = starts' := by
    have hrooms := congrArg (List.map fun k : Linkage × Nat => k.1.room) hpending
    rw [List.map_map, List.map_map] at hrooms
    change (pendingVariables order direction vs).map (·.1.room) = _ at hrooms
    rw [hrooms, htaken] at hstarts
    exact Except.ok.inj (hstarts.symm.trans hstarts')
  -- and what is placed is read off linkages and starts
  have hplacings : ∀ (located pending : List (InterfaceVariable × Nat)) (starts : List Nat),
      (placings located pending starts).map (fun p => (p.1.2, p.2)) =
        ((located.map numberedLinkage).filterMap fun k => k.1.location.map (k.2, ·)) ++
          List.zipWith (fun k start => (k.2, start)) (pending.map numberedLinkage) starts := by
    intro located pending starts
    rw [placings, List.map_append, List.zip_eq_zipWith, List.map_zipWith, List.map_filterMap,
      List.filterMap_map, List.zipWith_map_left]
    simp only [Option.map_map, Function.comp_def]
    rfl
  rw [hplaced, hplaced', hplacings, hplacings, hsame, hpending, hstarts]

/-- The linkages of all variables at the locations that they are given. -/
theorem map_placedLinkage_placings (located pending : List (InterfaceVariable × Nat))
    (starts : List Nat) : (placings located pending starts).map placedLinkage =
      (located.map (·.1.linkage)).filter (·.location.isSome) ++
        List.zipWith (fun k start => k.placedAt start) (pending.map (·.1.linkage)) starts := by
  rw [placings, List.map_append, List.zip_eq_zipWith, List.map_zipWith, List.map_filterMap,
    List.zipWith_map_left, ← List.filterMap_eq_filter, List.filterMap_map]
  congr 1
  refine List.filterMap_congr fun v _ => ?_
  obtain ⟨v, i⟩ := v
  cases h : v.location with
  | none => simp [InterfaceVariable.linkage, Option.guard, h]
  | some location =>
    simp [placedLinkage, InterfaceVariable.linkage, Linkage.placedAt, Option.guard, h]

/-- In alphabetical order, variables whose strings are different get their turns whatever their
order is. -/
theorem map_pendingVariables_of_perm
    (hperm : ((locatedVariables direction vs).map (·.1.linkage)).Perm
      ((locatedVariables direction vs').map (·.1.linkage)))
    (hkeys : (((locatedVariables direction vs).map (·.1.linkage)).map (·.key)).Nodup) :
    (pendingVariables .alphabetical direction vs).map (·.1.linkage) =
      (pendingVariables .alphabetical direction vs').map (·.1.linkage) := by
  have hfilter : ∀ vs : List (InterfaceVariable × Nat),
      (vs.filter fun v => v.1.location.isNone).map (·.1.linkage) =
        (vs.map (·.1.linkage)).filter (·.location.isNone) := by
    intro vs
    rw [List.filter_map]
    rfl
  rw [pendingVariables, pendingVariables, map_fillOrder_alphabetical, map_fillOrder_alphabetical,
    hfilter, hfilter]
  exact mergeSort_eq_of_perm (hperm.filter _) ((List.filter_sublist.map _).nodup hkeys)

/-- In alphabetical order, variables whose strings are different and whose explicit locations keep
apart are given the same locations whatever their order is. -/
theorem exists_of_perm
    (hperm : ((locatedVariables direction vs).map (·.1.linkage)).Perm
      ((locatedVariables direction vs').map (·.1.linkage)))
    (hkeys : (((locatedVariables direction vs).map (·.1.linkage)).map (·.key)).Nodup)
    (h : LocationPlan.of .alphabetical direction vs = .ok plan) (hnil : plan.findings = []) :
    ∃ plan' ps ps', LocationPlan.of .alphabetical direction vs' = .ok plan' ∧
      plan'.findings = [] ∧ plan.Serves direction vs ps ∧ plan'.Serves direction vs' ps' ∧
      (ps.map placedLinkage).Perm (ps'.map placedLinkage) := by
  obtain ⟨e, starts, haside, hstarts, hfindings, hplaced⟩ := of_eq_ok_iff.1 h
  have hslots : (((locatedVariables direction vs).map (·.1)).filterMap (·.slots?)).Perm
      (((locatedVariables direction vs').map (·.1)).filterMap (·.slots?)) := by
    have hlinkages := hperm.filterMap (·.slots?)
    rw [List.filterMap_map, List.filterMap_map] at hlinkages ⊢
    exact hlinkages
  -- explicit ranges that keep apart do so in any order, and take the same slots
  obtain ⟨e', haside', hnil', hmem⟩ :=
    ExplicitLocations.exists_setAside_of_perm hslots haside (hfindings ▸ hnil)
  -- different strings are sorted the same way, so the rest comes in the same order
  have hpending := map_pendingVariables_of_perm hperm hkeys
  have hstarts' : fill e'.taken 0
      ((pendingVariables .alphabetical direction vs').map (·.1.room)) = .ok starts := by
    have hrooms := congrArg (List.map Linkage.room) hpending
    rw [List.map_map, List.map_map] at hrooms
    change (pendingVariables .alphabetical direction vs).map (·.1.room) = _ at hrooms
    rw [← fill_congr hmem, ← hstarts, hrooms]
    rfl
  let plan' : LocationPlan := {
    findings := e'.findings
    placed := (placings (locatedVariables direction vs')
      (pendingVariables .alphabetical direction vs') starts).map fun p => (p.1.2, p.2) }
  refine ⟨plan', _, _, of_eq_ok_iff.2 ⟨e', starts, haside', hstarts', rfl, rfl⟩, hnil',
    serves_placings haside hstarts hfindings hplaced,
    serves_placings haside' hstarts' rfl rfl, ?_⟩
  rw [map_placedLinkage_placings, map_placedLinkage_placings, hpending]
  exact (hperm.filter _).append_right _

end LocationPlan

end ShaderLowering
