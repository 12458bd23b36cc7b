import ShaderLowering.Proofs.Distance.Arrays
import ShaderLowering.Proofs.Emission.Extension

/-!
# Lengths of distance arrays

Ranges and totals are calculated from the declarations recorded so far, the arrays are created with
the totals, and declarations are recorded again later.  `Emitter.Packs` says that the arrays that
exist have the totals for their lengths all the same: recording leaves totals and arrays as they
are, and calculation is followed by new arrays, because a packing that has an array is never empty
again.
-/

namespace ShaderLowering

open Distance (Ascending Packing)
open Spirv (VariableId)

namespace Emitter

/-- The variable with a number is an array of distances of a direction and kind. -/
def HoldsArray (e : Emitter) (id : VariableId) (direction : Direction) (kind : DistanceKind)
    (total : Nat) : Prop :=
  ∃ v vertices, e.target.variables.get? id = some v ∧ v.storage = direction.storage ∧
    .builtin kind.builtin ∈ v.decorations ∧
    e.target.tree? v.ty = some (Written.distanceArray total vertices)

/-- Declarations are in order and counted, ranges are calculated from them, and the array, if there
is one and it has been created since then, has the calculated length. -/
structure Packed (e : Emitter) (direction : Direction) (kind : DistanceKind) (created : Prop)
    (p : Packing) : Prop where
  ascending : Ascending p.declared
  counted : ∀ x ∈ p.declared, distanceCount? x.2.ty = some x.2.count
  measured : p.IsMeasured
  filled : p.var.isSome = true → p.total ≠ 0
  array : created → ∀ id, p.var = some id → e.HoldsArray id direction kind p.total

/-- All packings are as they should be, but for some keys whose arrays are created next. -/
def PacksBut (e : Emitter) (keys : List (Direction × DistanceKind)) (a : DistanceArrays) : Prop :=
  ∀ direction kind, e.Packed direction kind ((direction, kind) ∉ keys) (a.get direction kind)

/-- All packings are as they should be. -/
abbrev Packs (e : Emitter) (a : DistanceArrays) : Prop := e.PacksBut [] a

variable {e e' : Emitter} {keys : List (Direction × DistanceKind)} {a a' : DistanceArrays}
  {id : VariableId} {direction : Direction} {kind : DistanceKind} {total : Nat} {p : Packing}
  {created : Prop}

theorem HoldsArray.extends (h : e.HoldsArray id direction kind total) (hextends : e.Extends e') :
    e'.HoldsArray id direction kind total := by
  obtain ⟨v, vertices, hv, hstorage, hbuiltin, htree⟩ := h
  obtain ⟨_, hv', more, rfl⟩ := hextends.target.kept id v hv
  exact ⟨v.gaining more, vertices, hv', hstorage, List.mem_append_left _ hbuiltin,
    hextends.target.tree? htree⟩

theorem HoldsArray.lt_size (h : e.HoldsArray id direction kind total) :
    id < e.target.variables.size := by
  obtain ⟨v, -, hv, -⟩ := h
  exact (List.getElem?_eq_some_iff.1 hv).1

theorem packed_empty (e : Emitter) (direction : Direction) (kind : DistanceKind) :
    e.Packed direction kind created {} where
  ascending := .nil
  counted := List.forall_mem_nil _
  measured := Packing.isMeasured_empty
  filled h := by cases h
  array _ _ h := by cases h

theorem PacksBut.extends (h : e.PacksBut keys a) (hextends : e.Extends e') : e'.PacksBut keys a :=
  fun direction kind =>
    { h direction kind with
      array := fun hkey id hvar => ((h direction kind).array hkey id hvar).extends hextends }

theorem PacksBut.wellFormed (h : e.PacksBut keys a) : a.WellFormed :=
  ⟨fun direction kind => (h direction kind).ascending,
    fun direction kind => (h direction kind).counted⟩

theorem packs_empty (e : Emitter) : e.Packs {} := by
  intro direction kind
  cases direction <;> cases kind <;> exact e.packed_empty _ _

/-- Further declarations change neither totals nor arrays. -/
theorem PacksBut.declare (h : e.PacksBut keys a) (ha' : a'.WellFormed)
    (hmore : a.DeclaresMore a') : e.PacksBut keys a' := by
  intro direction kind
  obtain ⟨declared, hsubset, hget⟩ := hmore direction kind
  have hascending := ha'.ascending direction kind
  have hcounted := ha'.counted direction kind
  have hold := h direction kind
  rw [hget] at hascending hcounted ⊢
  exact ⟨hascending, hcounted, hold.measured.mono hsubset, hold.filled, hold.array⟩

/-- When ranges have been calculated, the arrays have yet to be created. -/
theorem PacksBut.calculate (h : e.PacksBut keys a) (ha' : a.calculate = .ok a') :
    e.PacksBut DistanceArrays.keys a' := by
  intro direction kind
  have hcalculate := DistanceArrays.calculate_get ha' direction kind
  obtain ⟨hdeclared, hvar, -⟩ := Packing.calculate_eq_ok hcalculate
  have hold := h direction kind
  refine ⟨hdeclared ▸ hold.ascending, hdeclared ▸ hold.counted,
    Packing.isMeasured_of_calculate hold.ascending hcalculate, fun hsome => ?_, fun hkey => ?_⟩
  · -- a component was declared when the array was created, and still is
    rw [hvar] at hsome
    exact (Packing.total_ne_zero_iff hcalculate).2
      (hold.measured.exists_declares (hold.filled hsome))
  · exact absurd (DistanceArrays.mem_keys direction kind) hkey

/-- A key without a component has no array and needs none. -/
theorem PacksBut.skip (h : e.PacksBut ((direction, kind) :: keys) a)
    (hzero : (a.get direction kind).total = 0) : e.PacksBut keys a := by
  intro d k
  refine { h d k with array := fun hkey id hvar => (h d k).array (fun hmem => ?_) id hvar }
  rcases List.mem_cons.1 hmem with heq | hmem
  · cases heq
    exact (h direction kind).filled (by rw [hvar]; rfl) hzero
  · exact hkey hmem

/-- A key with a component gets its array. -/
theorem PacksBut.create (h : e.PacksBut ((direction, kind) :: keys) a)
    (hpos : (a.get direction kind).total ≠ 0)
    (hid : e.HoldsArray id direction kind (a.get direction kind).total) :
    e.PacksBut keys (a.set direction kind { a.get direction kind with var := some id }) := by
  refine DistanceArrays.forall_get_set (P := fun d k => e.Packed d k ((d, k) ∉ keys)) ?_ ?_
  · have hold := h direction kind
    exact ⟨hold.ascending, hold.counted, hold.measured, fun _ => hpos, fun _ _ hvar => by
      cases hvar
      exact hid⟩
  · intro d k hne
    refine { h d k with array := fun hkey id hvar => (h d k).array (fun hmem => ?_) id hvar }
    exact (List.mem_cons.1 hmem).elim (fun heq => hne heq.symm) hkey

end Emitter

/-! ## Creation -/

namespace Emit

variable {e e' : Emitter} {direction : Direction} {kind : DistanceKind}

/-- The array that is created has the given length. -/
theorem holdsArray_distanceArray (he : e.Sound) {total : Nat} {vertices : Option Nat}
    {var : VariableId}
    (h : (distanceArray direction kind total vertices).runOn e = (.ok var, e')) :
    e'.HoldsArray var direction kind total := by
  rw [distanceArray_eq] at h
  obtain ⟨ty, e₁, h₁, h⟩ := Action.runOn_bind_eq_ok_iff.1 h
  obtain ⟨_, e₂, h₂, h⟩ := Action.runOn_bind_eq_ok_iff.1 h
  obtain ⟨_, e₃, h₃, h⟩ := Action.runOn_bind_eq_ok_iff.1 h
  cases h
  have htype := realizes_distanceType he total vertices
  have he₁ := (htype.keeps.of_run h₁).1
  obtain ⟨he₂, hextends₂⟩ := (keeps_addVariable he₁ (htype.lt_types h₁)).of_run h₂
  have hextends₃ := ((realizes_require he₂ _).keeps.of_run h₃).2
  have hadded := adds_addVariable he₁ h₂
  cases h₂
  refine Emitter.HoldsArray.extends ⟨_, vertices, hadded.get?_size, rfl, List.mem_singleton_self _,
    hextends₂.target.tree? (htype.answer h₁)⟩ hextends₃

end Emit

end ShaderLowering
