import Mathlib.Data.List.Basic
import Mathlib.Data.List.Pairwise
import ShaderLowering.Interface.Plan
import ShaderLowering.Proofs.Checked

/-!
# The plan of locations

`LocationPlan.Serves` says what the locations of the variables of one direction are: one for each of
them, an explicit one where there is one, and ranges that keep apart where nothing is reported.  What
keeps apart are the slots that the plan sets aside: those of the variable's own blend source if its
location is explicit, else those of source 0 (`InterfaceVariable.reserved`).
-/

namespace ShaderLowering

open Source (Position)

namespace SlotRange

theorem isApart_comm {r t : SlotRange} : r.isApart t = t.isApart r := by
  rw [Bool.eq_iff_iff, isApart_iff, isApart_iff]
  simp only [and_comm]

theorem isApart_of_index_ne {r t : SlotRange} (h : r.index ≠ t.index) : r.isApart t = true :=
  isApart_iff.2 fun _ _ hholds => h (hholds.1.1.trans hholds.2.1.symm)

/-- Whether ranges are apart depends on their blend sources by no more than whether they differ. -/
theorem isApart_of_starts {r t : SlotRange}
    (h : (⟨r.start, r.stop, 0⟩ : SlotRange).isApart ⟨t.start, t.stop, 0⟩ = true) :
    r.isApart t = true := by
  rw [isApart_iff] at h ⊢
  rintro l i ⟨⟨-, hr⟩, -, ht⟩
  exact h l 0 ⟨⟨rfl, hr⟩, rfl, ht⟩

/-- A range that starts at or after the end of another is apart from it. -/
theorem isApart_of_stop_le {r t : SlotRange} (h : t.stop ≤ r.start) : r.isApart t = true := by
  rw [isApart_iff]
  rintro l i ⟨⟨-, hr, -⟩, -, -, ht⟩
  exact absurd (Nat.lt_of_lt_of_le ht h) (Nat.not_lt.2 hr)

end SlotRange

variable {taken : List SlotRange} {r : SlotRange}

theorem firstTaken?_eq_none_iff :
    firstTaken? taken r = none ↔ ∀ t ∈ taken, r.isApart t = true := by
  simp [firstTaken?, List.min?_eq_none_iff, List.filterMap_eq_nil_iff, SlotRange.isApart]

theorem claimable_of_firstTaken?_eq_none (h : firstTaken? taken r = none) :
    claimable taken r = r := by
  rw [claimable, h]
  rfl

/-! ## Explicit locations -/

namespace InterfaceVariable

theorem room_pos (v : InterfaceVariable) : 0 < v.room :=
  Nat.lt_of_lt_of_le Nat.zero_lt_one (Nat.le_max_right _ _)

/-- The slots of a variable at a location. -/
def slotsAt (v : InterfaceVariable) (location : Nat) : SlotRange :=
  ⟨location, location + v.room, v.index.getD 0⟩

/-- The slots of a variable that has a location. -/
def slots? (v : InterfaceVariable) : Option SlotRange := v.location.map v.slotsAt

/-- The variable at a location. -/
def placedAt (location : Nat) (v : InterfaceVariable) : InterfaceVariable :=
  { v with location := some location }

theorem slots?_placedAt (v : InterfaceVariable) (location : Nat) :
    (v.placedAt location).slots? = some (v.slotsAt location) := rfl

/-- The slots that the plan sets aside for a variable at a location. -/
def reserved (v : InterfaceVariable) (location : Nat) : SlotRange :=
  if v.location.isSome then v.slotsAt location else ⟨location, location + v.room, 0⟩

/-- An explicit location is set aside with the variable's own slots, as is one of blend source 0. -/
theorem reserved_eq_slotsAt {v : InterfaceVariable} (location : Nat)
    (h : v.location.isSome = true ∨ v.index.getD 0 = 0) :
    v.reserved location = v.slotsAt location := by
  rw [reserved, slotsAt]
  split
  · rfl
  · rename_i hnone
    rw [h.resolve_left hnone]

end InterfaceVariable

namespace ExplicitLocations

variable {e e' : ExplicitLocations} {v : InterfaceVariable} {start : Nat}
  {rest vs : List InterfaceVariable}

/-- What is set aside and reported with one more variable at an explicit location. -/
def claim (e : ExplicitLocations) (v : InterfaceVariable) (start : Nat) : ExplicitLocations where
  taken := e.taken ++ [claimable e.taken (v.slotsAt start)]
  findings := e.findings ++ match firstTaken? e.taken (v.slotsAt start) with
    | none => []
    | some location => [(.locationTaken location, v.position)]

theorem setAside_claim (hlocation : v.location = some start)
    (h : setAside e (v :: rest) = .ok e') : setAside (e.claim v start) rest = .ok e' := by
  rw [setAside, hlocation] at h
  obtain ⟨stop, hstop, h⟩ := bind_eq_ok_iff.1 h
  obtain ⟨rfl, -⟩ := Word.add_eq_ok_iff.1 hstop
  exact h

theorem claim_of_free (h : ∀ t ∈ e.taken, (v.slotsAt start).isApart t = true) :
    e.claim v start = ⟨e.taken ++ [v.slotsAt start], e.findings⟩ := by
  have hfirst := firstTaken?_eq_none_iff.2 h
  rw [claim, claimable_of_firstTaken?_eq_none hfirst, hfirst, List.append_nil]

theorem findings_claim_ne_nil (h : ¬∀ t ∈ e.taken, (v.slotsAt start).isApart t = true) :
    (e.claim v start).findings ≠ [] := by
  cases hfirst : firstTaken? e.taken (v.slotsAt start) with
  | none => exact absurd (firstTaken?_eq_none_iff.1 hfirst) h
  | some location => simp [claim, hfirst]

/-- Every finding is about a taken location. -/
theorem locationTaken_of_setAside (h : setAside e vs = .ok e') :
    ∀ f ∈ e'.findings, f ∈ e.findings ∨ ∃ location, f.1 = .locationTaken location := by
  induction vs generalizing e with
  | nil =>
    cases h
    exact fun f hf => .inl hf
  | cons v rest ih =>
    cases hlocation : v.location with
    | none =>
      rw [setAside, hlocation] at h
      exact ih h
    | some start =>
      intro f hf
      rcases ih (setAside_claim hlocation h) f hf with hf | hf
      · rcases List.mem_append.1 hf with hf | hf
        · exact .inl hf
        · split at hf
          · cases hf
          · cases List.mem_singleton.1 hf
            exact .inr ⟨_, rfl⟩
      · exact .inr hf

/-- Setting explicit locations aside reports something exactly if a range is not apart from one
before it; if nothing is reported, whole ranges are set aside. -/
theorem setAside_spec (h : setAside e vs = .ok e') :
    (e'.findings = [] ↔ e.findings = [] ∧
      (vs.filterMap (·.slots?)).Pairwise (fun t r => t.isApart r = true) ∧
      ∀ r ∈ vs.filterMap (·.slots?), ∀ t ∈ e.taken, r.isApart t = true) ∧
    (e'.findings = [] → e'.taken = e.taken ++ vs.filterMap (·.slots?)) := by
  -- on the variables, for any ranges that were taken before them
  induction vs generalizing e with
  | nil =>
    cases h
    simp
  | cons v rest ih =>
    cases hlocation : v.location with
    | none =>
      have hslots : v.slots? = none := by
        rw [InterfaceVariable.slots?, hlocation]
        rfl
      rw [setAside, hlocation] at h
      rw [List.filterMap_cons_none hslots]
      exact ih h
    | some start =>
      have hslots : v.slots? = some (v.slotsAt start) := by
        rw [InterfaceVariable.slots?, hlocation]
        rfl
      obtain ⟨hfindings, htaken⟩ := ih (setAside_claim hlocation h)
      rw [List.filterMap_cons_some hslots]
      by_cases hfree : ∀ t ∈ e.taken, (v.slotsAt start).isApart t = true
      · -- the range is taken, and the rest has to keep apart from it as well
        rw [claim_of_free hfree] at hfindings htaken
        rw [List.append_assoc, List.singleton_append] at htaken
        refine ⟨?_, htaken⟩
        rw [hfindings, List.pairwise_cons]
        constructor
        · rintro ⟨hnil, hpairwise, hall⟩
          refine ⟨hnil, ⟨fun r hr => ?_, hpairwise⟩, fun r hr t ht => ?_⟩
          · rw [SlotRange.isApart_comm]
            exact hall r hr _ (List.mem_append_right _ (List.mem_singleton_self _))
          · rcases List.mem_cons.1 hr with rfl | hr
            · exact hfree t ht
            · exact hall r hr t (List.mem_append_left _ ht)
        · rintro ⟨hnil, ⟨hfirst, hpairwise⟩, hall⟩
          refine ⟨hnil, hpairwise, fun r hr t ht => ?_⟩
          rcases List.mem_append.1 ht with ht | ht
          · exact hall r (List.mem_cons_of_mem _ hr) t ht
          · cases List.mem_singleton.1 ht
            rw [SlotRange.isApart_comm]
            exact hfirst r hr
      · -- the finding about this variable stays
        have hsome : e'.findings ≠ [] := fun hnil =>
          findings_claim_ne_nil hfree (hfindings.1 hnil).1
        refine ⟨iff_of_false hsome ?_, fun hnil => absurd hnil hsome⟩
        rintro ⟨-, -, hall⟩
        exact hfree (hall _ List.mem_cons_self)

theorem eq_overflow_of_setAside {f : Fault} (h : setAside e vs = .error f) : f = .overflow := by
  induction vs generalizing e with
  | nil => cases h
  | cons v rest ih =>
    rw [setAside] at h
    split at h
    · exact ih h
    · rcases bind_eq_error_iff.1 h with h | ⟨stop, -, h⟩
      · exact Word.eq_overflow_of_add h
      · exact ih h

end ExplicitLocations

/-! ## Automatic locations -/

/-- The lowest free range starts at or after the place from which it is searched, and it is free:
there is one that starts where everything else has ended. -/
theorem lowestFree_spec (taken : List SlotRange) (next count : Nat) :
    next ≤ lowestFree taken next count ∧
      ∀ t ∈ taken, (⟨lowestFree taken next count, lowestFree taken next count + count, 0⟩ :
        SlotRange).isApart t = true := by
  obtain ⟨last, hlast⟩ : ∃ last, (next :: taken.map (·.stop)).max? = some last :=
    Option.isSome_iff_exists.1 (by simp)
  obtain ⟨hmem, hle⟩ := List.max?_eq_some_iff.1 hlast
  have hfree : isFree taken ⟨last, last + count, 0⟩ = true :=
    List.all_eq_true.2 fun t ht => SlotRange.isApart_of_stop_le
      (hle _ (List.mem_cons_of_mem _ (List.mem_map_of_mem ht)))
  rw [lowestFree]
  cases hmin : ((next :: taken.map (·.stop)).filter fun start =>
      next ≤ start && isFree taken ⟨start, start + count, 0⟩).min? with
  | none =>
    rw [List.min?_eq_none_iff, List.filter_eq_nil_iff] at hmin
    exact absurd (by simpa [hfree] using hle next List.mem_cons_self) (hmin last hmem)
  | some start =>
    have hstart := (List.mem_filter.1 (List.min?_eq_some_iff.1 hmin).1).2
    rw [Bool.and_eq_true, decide_eq_true_eq] at hstart
    exact ⟨hstart.1, List.all_eq_true.1 hstart.2⟩

/-- Slots of another blend source are not looked at. -/
example : lowestFree [⟨1, 2, 0⟩, ⟨0, 4, 1⟩] 0 2 = 2 := by decide

/-- The ranges of variables that take their locations themselves. -/
def filledRanges (counts starts : List Nat) : List SlotRange :=
  List.zipWith (fun count start => ⟨start, start + count, 0⟩) counts starts

/-- Filling gives every variable a range, and all of them are apart from each other and from what is
taken. -/
theorem fill_spec {counts : List Nat} {taken : List SlotRange} {next : Nat} {starts : List Nat}
    (h : fill taken next counts = .ok starts) :
    starts.length = counts.length ∧
    (filledRanges counts starts).Pairwise (fun t r => t.isApart r = true) ∧
    ∀ r ∈ filledRanges counts starts, ∀ t ∈ taken, r.isApart t = true := by
  induction counts generalizing taken next starts with
  | nil =>
    cases h
    simp [filledRanges]
  | cons count rest ih =>
    obtain ⟨stop, hstop, h⟩ := bind_eq_ok_iff.1 h
    obtain ⟨rfl, -⟩ := Word.add_eq_ok_iff.1 hstop
    obtain ⟨others, hothers, h⟩ := bind_eq_ok_iff.1 h
    cases h
    obtain ⟨hlength, hpairwise, hall⟩ := ih hothers
    have hfree := (lowestFree_spec taken next count).2
    refine ⟨congrArg Nat.succ hlength, List.pairwise_cons.2 ⟨fun r hr => ?_, hpairwise⟩,
      fun r hr t ht => ?_⟩
    · rw [SlotRange.isApart_comm]
      exact hall r hr _ (List.mem_append_right _ (List.mem_singleton_self _))
    · rcases List.mem_cons.1 hr with rfl | hr
      · exact hfree t ht
      · exact hall r hr t (List.mem_append_left _ ht)

theorem eq_overflow_of_fill {counts : List Nat} {taken : List SlotRange} {next : Nat} {f : Fault}
    (h : fill taken next counts = .error f) : f = .overflow := by
  induction counts generalizing taken next with
  | nil => cases h
  | cons count rest ih =>
    rcases bind_eq_error_iff.1 h with h | ⟨stop, -, h⟩
    · exact Word.eq_overflow_of_add h
    · rcases bind_eq_error_iff.1 h with h | ⟨starts, -, h⟩
      · exact ih h
      · cases h

/-! ## The plan -/

/-- Which variables of a direction there are. -/
theorem mem_locatedVariables_iff {direction : Direction} {vs : List InterfaceVariable}
    {v : InterfaceVariable} {i : Nat} : (v, i) ∈ locatedVariables direction vs ↔
      vs[i]? = some v ∧ v.direction = direction ∧ v.isLocated = true := by
  simp [locatedVariables, List.mem_zipIdx_iff_getElem?]

/-- The order in which locations are given out is one of all variables that need one. -/
theorem fillOrder_perm (order : LocationOrder) (vs : List (InterfaceVariable × Nat)) :
    (fillOrder order vs).Perm vs := by
  cases order
  · exact .refl vs
  · exact List.mergeSort_perm _ _

/-- A variable with its number among the interface variables, and its location. -/
abbrev Placing := (InterfaceVariable × Nat) × Nat

/-- What a plan says about the variables of a direction. -/
structure LocationPlan.Serves (plan : LocationPlan) (direction : Direction)
    (vs : List InterfaceVariable) (ps : List Placing) : Prop where
  placed : plan.placed = ps.map fun p => (p.1.2, p.2)
  numbered : (ps.map (·.1)).Perm (locatedVariables direction vs)
  explicit : ∀ p ∈ ps, ∀ location, p.1.1.location = some location → p.2 = location
  taken : ∀ f ∈ plan.findings, ∃ location, f.1 = .locationTaken location
  findings : plan.findings = [] ↔
    ((locatedVariables direction vs).filterMap (·.1.slots?)).Pairwise
      fun t r => t.isApart r = true
  apart : plan.findings = [] →
    ps.Pairwise fun p q => (p.1.1.reserved p.2).isApart (q.1.1.reserved q.2) = true

/-- Variables with explicit locations, and others that were filled in. -/
def placings (located pending : List (InterfaceVariable × Nat)) (starts : List Nat) :
    List Placing :=
  (located.filterMap fun v => v.1.location.map (v, ·)) ++ pending.zip starts

section Placings

variable {located pending : List (InterfaceVariable × Nat)} {starts : List Nat}

theorem mem_placings_iff {p : Placing} :
    p ∈ placings located pending starts ↔
      p.1 ∈ located ∧ p.1.1.location = some p.2 ∨ p ∈ pending.zip starts := by
  obtain ⟨v, location⟩ := p
  rw [placings, List.mem_append]
  refine or_congr_left ?_
  simp [List.mem_filterMap]

/-- All variables are placed. -/
theorem placings_perm (hlength : starts.length = pending.length)
    (hperm : pending.Perm (located.filter fun v => v.1.location.isNone)) :
    ((placings located pending starts).map (·.1)).Perm located := by
  have hexplicit : (located.filterMap fun v => v.1.location.map (v, ·)).map Prod.fst =
      located.filter fun v => v.1.location.isSome := by
    rw [List.map_filterMap, ← List.filterMap_eq_filter]
    refine List.filterMap_congr fun v _ => ?_
    cases h : v.1.location <;> simp [Option.guard, h]
  rw [placings, List.map_append, hexplicit, List.map_fst_zip (Nat.le_of_eq hlength.symm)]
  refine (hperm.append_left _).trans ?_
  simpa using
    List.filter_append_perm (fun v : InterfaceVariable × Nat => v.1.location.isSome) located

/-- What is set aside for them are the explicit slots and the ranges that were filled in. -/
theorem reserved_placings (hpending : ∀ v ∈ pending, v.1.location = none) :
    (placings located pending starts).map (fun p => p.1.1.reserved p.2) =
      (located.map (·.1)).filterMap (·.slots?) ++
        filledRanges (pending.map (·.1.room)) starts := by
  rw [placings, List.map_append]
  congr 1
  · rw [List.map_filterMap, List.filterMap_map]
    refine List.filterMap_congr fun v _ => ?_
    cases h : v.1.location <;> simp [InterfaceVariable.slots?, InterfaceVariable.reserved, h]
  · have hreserved : (pending.zip starts).map (fun p => p.1.1.reserved p.2) =
        (pending.zip starts).map fun p => ⟨p.2, p.2 + p.1.1.room, 0⟩ := by
      refine List.map_congr_left fun p hp => ?_
      simp [InterfaceVariable.reserved, hpending p.1 (List.of_mem_zip hp).1]
    rw [hreserved, filledRanges, List.zipWith_map_left, List.zip_eq_zipWith, List.map_zipWith]

end Placings

/-- The variables of one direction without a location, in the order in which they get one. -/
def pendingVariables (order : LocationOrder) (direction : Direction)
    (vs : List InterfaceVariable) : List (InterfaceVariable × Nat) :=
  fillOrder order ((locatedVariables direction vs).filter fun v => v.1.location.isNone)

theorem location_of_mem_pendingVariables {order : LocationOrder} {direction : Direction}
    {vs : List InterfaceVariable} {v : InterfaceVariable × Nat}
    (h : v ∈ pendingVariables order direction vs) : v.1.location = none := by
  simpa using (List.mem_filter.1 ((fillOrder_perm order _).mem_iff.1 h)).2

/-- A plan sets explicit locations aside and fills the others in. -/
theorem LocationPlan.of_eq_ok_iff {order : LocationOrder} {direction : Direction}
    {vs : List InterfaceVariable} {plan : LocationPlan} :
    LocationPlan.of order direction vs = .ok plan ↔
      ∃ e starts, setAside {} ((locatedVariables direction vs).map (·.1)) = .ok e ∧
        fill e.taken 0 ((pendingVariables order direction vs).map (·.1.room)) = .ok starts ∧
        plan.findings = e.findings ∧
        plan.placed = (placings (locatedVariables direction vs)
          (pendingVariables order direction vs) starts).map fun p => (p.1.2, p.2) := by
  -- the plan lists positions and starts; the variables are put in for later proofs
  have hplaced : ∀ starts, ((locatedVariables direction vs).filterMap fun v =>
      v.1.location.map (v.2, ·)) ++
        List.zipWith (fun v start => (v.2, start)) (pendingVariables order direction vs) starts =
      (placings (locatedVariables direction vs) (pendingVariables order direction vs) starts).map
        fun p => (p.1.2, p.2) := by
    intro starts
    rw [placings, List.map_append, List.zip_eq_zipWith, List.map_zipWith, List.map_filterMap]
    simp only [Option.map_map, Function.comp_def]
  rw [LocationPlan.of, bind_eq_ok_iff]
  refine exists_congr fun e => ?_
  rw [bind_eq_ok_iff, ← exists_and_left]
  refine exists_congr fun starts => and_congr_right fun _ => and_congr_right fun _ => ?_
  rw [← hplaced]
  constructor
  · rintro ⟨⟩
    exact ⟨rfl, rfl⟩
  · rintro ⟨hfindings, hplaced⟩
    cases plan
    cases hfindings
    cases hplaced
    rfl

/-- What a plan says, with the variables that it places. -/
theorem LocationPlan.serves_placings {order : LocationOrder} {direction : Direction}
    {vs : List InterfaceVariable} {plan : LocationPlan} {e : ExplicitLocations} {starts : List Nat}
    (haside : setAside {} ((locatedVariables direction vs).map (·.1)) = .ok e)
    (hstarts : fill e.taken 0 ((pendingVariables order direction vs).map (·.1.room)) = .ok starts)
    (hplanned : plan.findings = e.findings)
    (hplaced : plan.placed = (placings (locatedVariables direction vs)
      (pendingVariables order direction vs) starts).map fun p => (p.1.2, p.2)) :
    plan.Serves direction vs
      (placings (locatedVariables direction vs) (pendingVariables order direction vs) starts) := by
  have hpending : ∀ v ∈ pendingVariables order direction vs, v.1.location = none :=
    fun _ => location_of_mem_pendingVariables
  obtain ⟨hfindings, htaken⟩ := ExplicitLocations.setAside_spec haside
  obtain ⟨hlength, hpairwise, hfree⟩ := fill_spec hstarts
  rw [List.length_map] at hlength
  refine ⟨hplaced, placings_perm hlength (fillOrder_perm order _), ?_, ?_, ?_, ?_⟩
  · intro p hp location hlocation
    rcases mem_placings_iff.1 hp with ⟨-, hp⟩ | hp
    · exact Option.some.inj (hp.symm.trans hlocation)
    · cases (hpending p.1 (List.of_mem_zip hp).1).symm.trans hlocation
  · intro f hf
    rw [hplanned] at hf
    exact (ExplicitLocations.locationTaken_of_setAside haside f hf).resolve_left (by simp)
  · rw [List.filterMap_map] at hfindings
    rw [hplanned]
    simpa [Function.comp_def] using hfindings
  · intro hnil
    rw [hplanned] at hnil
    have htaken := htaken hnil
    rw [List.nil_append] at htaken
    -- it is enough to look at the ranges, explicit ones first
    suffices hall : ((placings (locatedVariables direction vs)
        (pendingVariables order direction vs) starts).map
          fun p => p.1.1.reserved p.2).Pairwise fun t r => t.isApart r = true from
      List.pairwise_map.1 hall
    rw [reserved_placings hpending, List.pairwise_append]
    refine ⟨(hfindings.1 hnil).2.1, hpairwise, fun t ht r hr => ?_⟩
    rw [SlotRange.isApart_comm]
    exact hfree r hr t (htaken ▸ ht)

theorem LocationPlan.serves_of {order : LocationOrder} {direction : Direction}
    {vs : List InterfaceVariable} {plan : LocationPlan}
    (h : LocationPlan.of order direction vs = .ok plan) : ∃ ps, plan.Serves direction vs ps := by
  obtain ⟨e, starts, haside, hstarts, hfindings, hplaced⟩ := LocationPlan.of_eq_ok_iff.1 h
  exact ⟨_, LocationPlan.serves_placings haside hstarts hfindings hplaced⟩

/-- A plan fails only if a location is no word. -/
theorem LocationPlan.eq_overflow_of {order : LocationOrder} {direction : Direction}
    {vs : List InterfaceVariable} {f : Fault}
    (h : LocationPlan.of order direction vs = .error f) : f = .overflow := by
  rw [LocationPlan.of] at h
  rcases bind_eq_error_iff.1 h with h | ⟨e, -, h⟩
  · exact ExplicitLocations.eq_overflow_of_setAside h
  · rcases bind_eq_error_iff.1 h with h | ⟨starts, -, h⟩
    · exact eq_overflow_of_fill h
    · cases h

/-- A plan depends on the variables of its direction only. -/
theorem LocationPlan.of_congr {order : LocationOrder} {direction : Direction}
    {vs vs' : List InterfaceVariable}
    (hsame : locatedVariables direction vs = locatedVariables direction vs') :
    LocationPlan.of order direction vs = LocationPlan.of order direction vs' := by
  rw [LocationPlan.of, LocationPlan.of, hsame]

/-! ## Numbers and ranges -/

theorem nodup_locatedVariables (direction : Direction) (vs : List InterfaceVariable) :
    ((locatedVariables direction vs).map (·.2)).Nodup := by
  have hnumbers : (vs.zipIdx.map (·.2)).Nodup := by
    rw [List.zipIdx_map_snd]
    exact List.nodup_range' ..
  exact hnumbers.sublist (List.filter_sublist.map _)

/-- A variable of another direction may be moved. -/
theorem locatedVariables_modify {direction : Direction} {vs : List InterfaceVariable} {i : Nat}
    {f : InterfaceVariable → InterfaceVariable} (hf : ∀ v, (f v).direction = v.direction)
    (hi : ∀ v, vs[i]? = some v → v.direction ≠ direction) :
    locatedVariables direction (vs.modify i f) = locatedVariables direction vs := by
  have hfilter : ∀ (vs : List InterfaceVariable) (i k : Nat),
      (∀ v, vs[i]? = some v → v.direction ≠ direction) →
      ((vs.modify i f).zipIdx k).filter (fun v => v.1.direction = direction && v.1.isLocated) =
        (vs.zipIdx k).filter fun v => v.1.direction = direction && v.1.isLocated := by
    intro vs
    induction vs with
    | nil => intro i k _; rw [List.modify_nil]
    | cons v rest ih =>
      intro i k hi
      cases i with
      | zero =>
        have hv := hi v rfl
        simp [List.zipIdx_cons, hf, hv]
      | succ i =>
        rw [List.modify_succ_cons, List.zipIdx_cons, List.zipIdx_cons, List.filter_cons,
          List.filter_cons, ih i (k + 1) hi]
  exact hfilter vs i 0 hi

/-- Explicit slots of one direction, pair by pair. -/
theorem pairwise_slots?_iff {direction : Direction} {vs : List InterfaceVariable} :
    ((locatedVariables direction vs).filterMap (·.1.slots?)).Pairwise
      (fun t r => t.isApart r = true) ↔
    vs.Pairwise fun v u => v.direction = direction ∧ v.isLocated = true →
      u.direction = direction ∧ u.isLocated = true →
        ∀ t, v.slots? = some t → ∀ r, u.slots? = some r → t.isApart r = true := by
  rw [locatedVariables, List.pairwise_filterMap, List.pairwise_filter]
  simp only [Bool.and_eq_true, decide_eq_true_eq]
  conv => rhs; rw [← List.zipIdx_map_fst 0 vs]
  rw [List.pairwise_map]

namespace LocationPlan.Serves

variable {plan : LocationPlan} {direction : Direction} {vs : List InterfaceVariable}
  {ps : List Placing}

/-- What a plan says depends on the variables of its direction only. -/
theorem congr {vs' : List InterfaceVariable} (h : plan.Serves direction vs ps)
    (hsame : locatedVariables direction vs = locatedVariables direction vs') :
    plan.Serves direction vs' ps :=
  ⟨h.placed, hsame ▸ h.numbered, h.explicit, h.taken, hsame ▸ h.findings, h.apart⟩

theorem nodup (h : plan.Serves direction vs ps) : (ps.map (·.1.2)).Nodup := by
  have hnumbers := (h.numbered.map (·.2)).nodup_iff.2 (nodup_locatedVariables direction vs)
  rwa [List.map_map] at hnumbers

/-- Every variable of the direction has a location. -/
theorem exists_mem (h : plan.Serves direction vs ps) {v : InterfaceVariable} {i : Nat}
    (hv : vs[i]? = some v) (hdirection : v.direction = direction) (hlocated : v.isLocated = true) :
    ∃ location, ((v, i), location) ∈ ps := by
  have hmem := h.numbered.mem_iff.2 (mem_locatedVariables_iff.2 ⟨hv, hdirection, hlocated⟩)
  obtain ⟨⟨_, location⟩, hp, rfl⟩ := List.mem_map.1 hmem
  exact ⟨location, hp⟩

/-- Only variables of the direction have a location. -/
theorem getElem?_of_mem (h : plan.Serves direction vs ps) {p : Placing}
    (hp : p ∈ ps) :
    vs[p.1.2]? = some p.1.1 ∧ p.1.1.direction = direction ∧ p.1.1.isLocated = true :=
  mem_locatedVariables_iff.1 (h.numbered.mem_iff.1 (List.mem_map_of_mem hp))

/-- The ranges of different variables are apart if nothing is reported. -/
theorem isApart (h : plan.Serves direction vs ps) (hnil : plan.findings = [])
    {p q : Placing} (hp : p ∈ ps) (hq : q ∈ ps) (hne : p.1.2 ≠ q.1.2) :
    (p.1.1.reserved p.2).isApart (q.1.1.reserved q.2) = true := by
  have hsymm : Std.Symm fun p q : Placing =>
      (p.1.1.reserved p.2).isApart (q.1.1.reserved q.2) = true :=
    ⟨fun p q hpq => by rw [SlotRange.isApart_comm]; exact hpq⟩
  exact (h.apart hnil).forall hp hq fun hpq => hne (hpq ▸ rfl)

end LocationPlan.Serves

end ShaderLowering
