import ShaderLowering.Proofs.Distance.Lengths

/-!
# Owners of distance arrays

An array of distances is on no list; it is found by the packing that owns it.  If all variables for
distances are owned (`Emitter.Owned`), there is one array at most for each direction and kind.
Creation keeps this where no packing has an array yet.  It does not ask whether one has: an array
that is there is made again, and the packing owns the new one only.
-/

namespace ShaderLowering

open ShaderLowering.Action (Total total_pure total_modifyGet)
open Distance (Packing)
open Spirv (VariableId)

/-- Calculation leaves arrays alone. -/
theorem DistanceArrays.var_of_calculate {a a' : DistanceArrays} (h : a.calculate = .ok a')
    (direction : Direction) (kind : DistanceKind) :
    (a'.get direction kind).var = (a.get direction kind).var :=
  (Packing.calculate_eq_ok (calculate_get h direction kind)).2.1

namespace Emitter

/-- Every variable for a direction and kind of distances is the array of their packing, and none is
there for some keys. -/
def OwnedBut (e : Emitter) (keys : List (Direction × DistanceKind)) (a : DistanceArrays) : Prop :=
  ∀ direction kind id v, e.target.variables.get? id = some v →
    v.Provides kind.builtin direction.storage →
    (direction, kind) ∉ keys ∧ (a.get direction kind).var = some id

/-- Every variable for distances is the array of a packing. -/
abbrev Owned (e : Emitter) (a : DistanceArrays) : Prop := e.OwnedBut [] a

variable {e e' : Emitter} {keys : List (Direction × DistanceKind)} {a a' : DistanceArrays}
  {direction : Direction} {kind : DistanceKind}

theorem OwnedBut.congr (h : e.OwnedBut keys a)
    (hvariables : e'.target.variables = e.target.variables)
    (hvar : ∀ direction kind, (a'.get direction kind).var = (a.get direction kind).var) :
    e'.OwnedBut keys a' := by
  intro d k id v hv hprovides
  rw [hvariables] at hv
  rw [hvar]
  exact h d k id v hv hprovides

theorem OwnedBut.skip (h : e.OwnedBut ((direction, kind) :: keys) a) : e.OwnedBut keys a :=
  fun d k id v hv hprovides =>
    have ⟨hkey, hvar⟩ := h d k id v hv hprovides
    ⟨fun hmem => hkey (List.mem_cons_of_mem _ hmem), hvar⟩

/-- Where no packing has an array, no variable is for distances. -/
theorem Owned.but (h : e.Owned a) (hvar : ∀ direction kind, (a.get direction kind).var = none)
    (keys : List (Direction × DistanceKind)) : e.OwnedBut keys a := by
  intro d k id v hv hprovides
  have hsome := (h d k id v hv hprovides).2
  rw [hvar] at hsome
  cases hsome

theorem Adds.get?_eq {v : Spirv.Variable} (h : e.Adds e' [v]) (id : VariableId) :
    e'.target.variables.get? id =
      if id = e.target.variables.size then some v else e.target.variables.get? id := by
  rw [← Spirv.Table.get?_push, Spirv.Table.get?, h.entries]
  rfl

/-- A key that has no array yet gets one. -/
theorem OwnedBut.create (h : e.OwnedBut ((direction, kind) :: keys) a)
    (hkey : (direction, kind) ∉ keys) {ty : Spirv.TypeId}
    (hadds : e.Adds e' [Emit.distanceVariable direction kind ty]) :
    e'.OwnedBut keys (a.set direction kind
      { a.get direction kind with var := some e.target.variables.size }) := by
  intro d k id v hv hprovides
  rw [hadds.get?_eq] at hv
  split at hv
  · -- the new array is that of the key
    rename_i hid
    cases hv
    obtain ⟨hkind, hstorage⟩ := Emit.provides_distanceVariable.1 hprovides
    cases DistanceKind.builtin_inj.1 hkind
    cases Direction.storage_inj.1 hstorage
    rw [DistanceArrays.get_set, hid]
    exact ⟨hkey, rfl⟩
  · obtain ⟨hother, hvar⟩ := h d k id v hv hprovides
    obtain ⟨hne, hrest⟩ := not_or.1 (mt List.mem_cons.2 hother)
    rw [a.get_set_of_ne _ (Ne.symm hne)]
    exact ⟨hrest, hvar⟩

end Emitter

namespace Emit

variable {e e' : Emitter} {direction : Direction} {kind : DistanceKind}
  {inputVertices outputVertices : Option Nat}

/-- Creation gives every array an owner, if none was there. -/
theorem owned_of_distanceArraysFor : {keys : List (Direction × DistanceKind)} → keys.Nodup →
    {a a' : DistanceArrays} → {e e' : Emitter} → {vars : List VariableId} → e.Sound →
    e.OwnedBut keys a →
    (distanceArraysFor inputVertices outputVertices keys a).runOn e = (.ok (vars, a'), e') →
    e'.Owned a'
  | [], _, _, _, _, _, _, _, ha, h => by
    cases h
    exact ha
  | (direction, kind) :: rest, hnodup, a, a', e, e', vars, he, ha, h => by
    obtain ⟨hkey, hrest⟩ := List.nodup_cons.1 hnodup
    rw [distanceArraysFor.eq_def] at h
    dsimp only at h
    split at h
    · exact owned_of_distanceArraysFor hrest he ha.skip h
    · obtain ⟨var, e₁, hvar, h⟩ := Action.runOn_bind_eq_ok_iff.1 h
      obtain ⟨⟨later, a₁⟩, e₂, hlater, h⟩ := Action.runOn_bind_eq_ok_iff.1 h
      cases h
      obtain ⟨rfl, ty, hadds⟩ := adds_distanceArray he hvar
      exact owned_of_distanceArraysFor hrest hadds.sound (ha.create hkey hadds) hlater

/-- Creation makes an array that was not there before for every key with a component, also where
the packing has one. -/
theorem exists_array_of_distanceArraysFor {keys : List (Direction × DistanceKind)}
    {a a' : DistanceArrays} {vars : List VariableId} (he : e.Sound)
    (h : (distanceArraysFor inputVertices outputVertices keys a).runOn e = (.ok (vars, a'), e'))
    (hkey : (direction, kind) ∈ keys) (hpos : (a.get direction kind).total ≠ 0) :
    ∃ id v, e.target.variables.size ≤ id ∧ e'.target.variables.get? id = some v ∧
      v.Provides kind.builtin direction.storage := by
  obtain ⟨vs, hadds, hprovides⟩ := (createsArrays_of_distanceArraysFor he h).adds
  have hmem : (direction, kind) ∈ keys.filter fun key => (a.get key.1 key.2).total ≠ 0 :=
    List.mem_filter.2 ⟨hkey, decide_eq_true hpos⟩
  obtain ⟨v, hv, hfor⟩ := (hprovides _ _).2 ⟨_, hmem, rfl, rfl⟩
  obtain ⟨i, hi⟩ := List.mem_iff_getElem?.1 hv
  refine ⟨e.target.variables.size + i, v, Nat.le_add_right _ _, ?_, hfor⟩
  rw [Spirv.Table.get?, hadds.entries, Spirv.Table.size, List.getElem?_append_right (by omega),
    Nat.add_sub_cancel_left]
  exact hi

/-! ### Creation always answers -/

theorem total_distanceArray (direction : Direction) (kind : DistanceKind) (total : Nat)
    (vertices : Option Nat) : Total (distanceArray direction kind total vertices) := by
  have hover : ∀ base, Total (overVertices base vertices) := fun base => by
    cases vertices with
    | none => exact total_pure _
    | some count => exact (total_modifyGet _).bind fun _ => total_modifyGet _
  refine (total_modifyGet _).bind fun _ => (total_modifyGet _).bind fun _ =>
    (total_modifyGet _).bind fun _ => (hover _).bind fun _ => (total_modifyGet _).bind fun _ => ?_
  exact (Action.total_modify _).bind fun _ => total_pure _

theorem total_distanceArraysFor (inputVertices outputVertices : Option Nat) :
    (keys : List (Direction × DistanceKind)) → (a : DistanceArrays) →
    Total (distanceArraysFor inputVertices outputVertices keys a)
  | [], _ => total_pure _
  | (direction, kind) :: rest, a => by
    rw [distanceArraysFor.eq_def]
    dsimp only
    split
    · exact total_distanceArraysFor inputVertices outputVertices rest a
    · exact (total_distanceArray direction kind _ _).bind fun _ =>
        (total_distanceArraysFor inputVertices outputVertices rest _).bind fun _ => total_pure _

end Emit

end ShaderLowering
