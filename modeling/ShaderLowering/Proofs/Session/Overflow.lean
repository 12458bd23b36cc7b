import ShaderLowering.Proofs.Distance.Recording
import ShaderLowering.Proofs.Emission.Locations
import ShaderLowering.Proofs.Interface.FirstFit
import ShaderLowering.Proofs.Session.EntryOutcome

/-!
# Overflow in entry points

A fresh session breaks off with an overflow for three reasons: an array of distances is too long to
be counted, a type of the interface is too large to be measured, or there is no plan for the
locations of one direction.  The first two are about sizes.  In the last one explicit locations and
the indices of render targets come in, which nothing limits but that they are words themselves: the
range of a variable may begin at a word and not end at one, or leave no room behind it.
-/

namespace ShaderLowering

open Source (Ty EntryPoint)

/-! ## Leaves that can be created -/

namespace Source

theorem Scalar.isSized_onInterface {s : Scalar} (h : s.isSized = true) :
    s.onInterface.isSized = true := by
  by_cases hs : s = .bool
  · subst hs
    rfl
  · rwa [Scalar.onInterface_of_ne hs]

theorem Ty.isPlainData_onInterface : (ty : Ty) → ty.isPlainData = true →
    ty.onInterface.isPlainData = true
  | .scalar _, h => Scalar.isSized_onInterface h
  | .vector elem count, h => by
    rw [Ty.isPlainData, Bool.and_eq_true] at h
    rw [Ty.onInterface, Ty.isPlainData, Scalar.isSized_onInterface h.1, h.2]
    rfl
  | .matrix elem rows cols, h => by
    rw [Ty.isPlainData, Bool.and_eq_true, Bool.and_eq_true] at h
    rw [Ty.onInterface, Ty.isPlainData, Scalar.isSized_onInterface h.1.1, h.1.2, h.2]
    rfl
  | .array elem (some _), h => elem.isPlainData_onInterface h
  | .alias _ target, h => target.isPlainData_onInterface h
  | .oriented _ target, h => target.isPlainData_onInterface h
  | .struct _ _ _, h => h

end Source

namespace InterfaceLeaf

variable {options : Options} {stage : Stage} {l : InterfaceLeaf}

theorem exists_ofTy_builtinType (b : Spirv.Builtin) {ty : Ty} (hplain : ty.isPlainData = true)
    {n : Nat} (hn : Layout.locations options ty = .ok n) :
    ∃ tree, Written.ofTy options (builtinType b ty) .unlaid {} none = .ok tree := by
  rw [builtinType.eq_def]
  split
  · exact ⟨_, rfl⟩
  · exact ⟨_, rfl⟩
  · exact ⟨_, rfl⟩
  · obtain ⟨tree, htree, -⟩ := Written.exists_ofTy_locations ty.onInterface {}
      (ty.isPlainData_onInterface hplain) ((Layout.locations_onInterface ty).trans hn)
    exact ⟨tree, htree⟩

/-- A leaf of plain data can be created if its locations can be counted. -/
theorem creation_of_plainData (hplain : l.decl.ty.isPlainData = true) {n : Nat}
    (hn : Layout.locations options l.decl.ty = .ok n) (before : List InterfaceLeaf) :
    l.creation options stage before = .ok () := by
  rw [creation.eq_def]
  split
  · obtain ⟨tree, htree, -⟩ := Written.exists_ofTy_locations l.decl.ty.onInterface {}
      (l.decl.ty.isPlainData_onInterface hplain) ((Layout.locations_onInterface _).trans hn)
    rw [locationCount, htree, hn]
    rfl
  · rename_i b _
    obtain ⟨tree, htree⟩ := exists_ofTy_builtinType b hplain hn
    rw [htree]
    exact ite_self _
  · rfl
  · rfl

end InterfaceLeaf

theorem creations_eq_ok {options : Options} {stage : Stage} {leaves : List InterfaceLeaf}
    (h : ∀ l ∈ leaves, ∀ before, l.creation options stage before = .ok ())
    (before : List InterfaceLeaf) : creations options stage before leaves = .ok () := by
  induction leaves generalizing before with
  | nil => rfl
  | cons l rest ih =>
    obtain ⟨hl, hrest⟩ := List.forall_mem_cons.1 h
    rw [creations, hl before]
    exact ih hrest _

/-! ## Entry points -/

section

variable {order : LocationOrder} {vs : List InterfaceVariable}

theorem Written.plans_eq_ok_iff :
    plans order vs = .ok () ↔ ∀ direction, ∃ p, FirstFit.plan order direction vs = .ok p := by
  rw [plans, ← FirstFit.plan_eq, ← FirstFit.plan_eq]
  constructor
  · intro h
    obtain ⟨inputs, hinputs, h⟩ := bind_eq_ok_iff.1 h
    obtain ⟨outputs, houtputs, -⟩ := bind_eq_ok_iff.1 h
    rintro (_ | _)
    · exact ⟨inputs, ofChecked_eq_ok_iff.1 hinputs⟩
    · exact ⟨outputs, ofChecked_eq_ok_iff.1 houtputs⟩
  · intro h
    obtain ⟨inputs, hinputs⟩ := h .input
    obtain ⟨outputs, houtputs⟩ := h .output
    rw [hinputs, houtputs]
    rfl

theorem Written.plans_eq_overflow_iff :
    plans order vs = .error (.fault .overflow) ↔
      ∃ direction, FirstFit.plan order direction vs = .error .overflow := by
  have hok := @plans_eq_ok_iff order vs
  rw [plans, ← FirstFit.plan_eq, ← FirstFit.plan_eq] at hok ⊢
  constructor
  · intro h
    by_contra hnone
    have hall : ∀ direction, ∃ p, FirstFit.plan order direction vs = .ok p := fun direction =>
      (FirstFit.exists_plan_or_overflow order direction vs).resolve_right fun hoverflow =>
        hnone ⟨direction, hoverflow⟩
    cases h.symm.trans (hok.2 hall)
  · rintro ⟨_ | _, hoverflow⟩
    · rw [hoverflow]
      rfl
    · rcases FirstFit.exists_plan_or_overflow order .input vs with ⟨inputs, hinputs⟩ | hinputs
      · rw [hinputs, hoverflow]
        rfl
      · rw [hinputs]
        rfl

end

namespace Distance

theorem eq_overflow_of_rangesFrom : {l : List (Nat × Declared)} → {start : Nat} → {f : Fault} →
    rangesFrom start l = .error f → f = .overflow
  | [], _, _, h => by cases h
  | (_, _) :: rest, _, _, h => by
    rcases bind_eq_error_iff.1 h with h | ⟨_, -, h⟩
    · exact Word.eq_overflow_of_add h
    · rcases bind_eq_error_iff.1 h with h | ⟨_, -, h⟩
      · exact eq_overflow_of_rangesFrom h
      · cases h

theorem Packing.eq_overflow_of_calculate {p : Packing} {f : Fault}
    (h : p.calculate = .error f) : f = .overflow := by
  rcases bind_eq_error_iff.1 h with h | ⟨_, -, h⟩
  · exact eq_overflow_of_rangesFrom h
  · cases h

end Distance

theorem DistanceArrays.eq_overflow_of_calculate {a : DistanceArrays} {f : Fault}
    (h : a.calculate = .error f) : f = .overflow := by
  rcases bind_eq_error_iff.1 h with h | ⟨_, -, h⟩
  · exact Distance.Packing.eq_overflow_of_calculate h
  rcases bind_eq_error_iff.1 h with h | ⟨_, -, h⟩
  · exact Distance.Packing.eq_overflow_of_calculate h
  rcases bind_eq_error_iff.1 h with h | ⟨_, -, h⟩
  · exact Distance.Packing.eq_overflow_of_calculate h
  rcases bind_eq_error_iff.1 h with h | ⟨_, -, h⟩
  · exact Distance.Packing.eq_overflow_of_calculate h
  · cases h

/-- Whether the distances of each array can be counted. -/
def Source.EntryPoint.DistancesFit (e : EntryPoint) : Prop := ∀ direction kind,
  ((e.distances.get direction kind).declared.map (·.2.count)).sum < Word.bound

/-- The distances of every array can be counted, or measuring breaks off. -/
theorem Source.EntryPoint.calculate_cases (e : EntryPoint) :
    (e.DistancesFit ∧ ∃ a, e.distances.calculate = .ok a) ∨
      (¬e.DistancesFit ∧ e.distances.calculate = .error .overflow) := by
  cases hcalculate : e.distances.calculate with
  | ok a => exact .inl ⟨DistanceArrays.exists_calculate_iff.1 ⟨a, hcalculate⟩, a, rfl⟩
  | error f =>
    refine .inr ⟨fun hfit => ?_, ?_⟩
    · obtain ⟨a, ha⟩ := DistanceArrays.exists_calculate_iff.2 hfit
      cases ha.symm.trans hcalculate
    · rw [DistanceArrays.eq_overflow_of_calculate hcalculate]

namespace Lower

/-- **Overflow in entry points.**  A fresh session breaks off with an overflow exactly if the
distances of an array cannot be counted, or the type of a leaf or its locations cannot, or the loops
that give out the locations of a direction break off.  It answers exactly if nothing of this happens
and all types can be written, which is so for plain data of any size whose locations can be counted.
The loops come to their end if there is room for all automatic locations behind the largest end of
an explicit range; but they break off as soon as some explicit range does not end in a word. -/
theorem entryPoint_overflow_iff (e : EntryPoint) (stage : Stage) (options : Options) :
    (((entryPoint e).runOn (.start stage options)).1 = .error (.fault .overflow) ↔
      ¬e.DistancesFit ∨ e.creation options = .error (.fault .overflow) ∨
        e.creation options = .ok () ∧ ∃ direction,
          FirstFit.plan options.order direction (e.locatedVariables options)
            = .error .overflow) ∧
    ((∃ b, ((entryPoint e).runOn (.start stage options)).1 = .ok b) ↔
      e.DistancesFit ∧ e.creation options = .ok () ∧ ∀ direction, ∃ p,
        FirstFit.plan options.order direction (e.locatedVariables options) = .ok p) ∧
    ((∀ l ∈ e.createdLeaves, l.decl.ty.isPlainData = true ∧
        ∃ n, Layout.locations options l.decl.ty = .ok n) → e.creation options = .ok ()) ∧
    ∀ direction,
      (FirstFit.explicitEnd ((locatedVariables direction (e.locatedVariables options)).map (·.1))
          + FirstFit.pendingRoom direction (e.locatedVariables options) < Word.bound →
        ∃ p, FirstFit.plan options.order direction (e.locatedVariables options) = .ok p) ∧
      (Word.bound ≤ FirstFit.explicitEnd
          ((locatedVariables direction (e.locatedVariables options)).map (·.1)) →
        FirstFit.plan options.order direction (e.locatedVariables options)
          = .error .overflow) := by
  have hrun := comesTo_entryPoint e stage options
  refine ⟨?_, ?_, fun hplain => ?_, fun direction => FirstFit.plan_of_room⟩
  · -- distances are counted first, then leaves are made, then locations are given out
    rw [hrun.fault_iff, ← Written.plans_eq_overflow_iff]
    rcases e.calculate_cases with ⟨hfit, a, ha⟩ | ⟨hfit, ha⟩ <;> rw [ha]
    · rw [or_iff_right (not_not.2 hfit)]
      change (do e.creation options; Written.plans _ _) = _ ↔ _
      rw [bind_eq_error_iff]
      exact or_congr_right ⟨fun ⟨_, h⟩ => h, fun h => ⟨(), h⟩⟩
    · exact iff_of_true rfl (.inl hfit)
  · rw [hrun.exists_ok_iff, ← Written.plans_eq_ok_iff]
    rcases e.calculate_cases with ⟨hfit, a, ha⟩ | ⟨hfit, ha⟩ <;> rw [ha]
    · rw [and_iff_right hfit]
      constructor
      · rintro ⟨_, h⟩
        obtain ⟨_, -, h⟩ := bind_eq_ok_iff.1 h
        obtain ⟨_, hcreation, hplans⟩ := bind_eq_ok_iff.1 h
        exact ⟨hcreation, hplans⟩
      · rintro ⟨hcreation, hplans⟩
        exact ⟨(), bind_eq_ok_iff.2 ⟨a, rfl, bind_eq_ok_iff.2 ⟨(), hcreation, hplans⟩⟩⟩
    · exact iff_of_false (fun ⟨_, h⟩ => nomatch h) fun h => hfit h.1
  · refine creations_eq_ok (fun l hl before => ?_) []
    obtain ⟨hdata, n, hn⟩ := hplain l hl
    exact InterfaceLeaf.creation_of_plainData hdata hn before

/-- A vertex shader whose only input is a matrix of two rows at the last location. -/
def lastLocation : EntryPoint where
  stage := .vertex
  function := {
    id := 1
    name := "main"
    params := [{
      id := 2
      name := "m"
      ty := .matrix .single 2 2
      attributes := { semantic := some "TRANSFORM", location := some 4294967295 } }] }

/-- The two locations that are needed fit in words, but the range of the matrix does not end in
one. -/
theorem entryPoint_overflow_lastLocation :
    (lastLocation.locatedVariables {}).map (fun v => (v.location, v.room)) =
      [(some 4294967295, 2)] ∧
    ((entryPoint lastLocation).runOn (.start .vertex {})).1 = .error (.fault .overflow) := by
  constructor
  · decide +kernel
  · decide +kernel

end Lower

end ShaderLowering
