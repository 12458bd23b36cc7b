import Mathlib.Data.List.Sort
import ShaderLowering.Distance.Arrays
import ShaderLowering.Proofs.Interface.Plan

/-!
# Numbers that nothing depends on

An interface variable has a number in the module, and a place among the other interface variables.
What is reported about variables depends on neither, and neither does where they are put: with other
numbers a plan gives the same locations to the same variables (`LocationPlan.of_renumbered`).
Distances are likewise recorded and measured whatever the numbers of their arrays are.
-/

namespace ShaderLowering

open Source (Position)

/-! ## Interface variables -/

/-- A variable without its number in the module. -/
def InterfaceVariable.unnumbered (v : InterfaceVariable) : InterfaceVariable := { v with var := 0 }

/-- A variable without its number in the module, at another place among the interface variables. -/
def renumbered (f : Nat → Nat) (p : InterfaceVariable × Nat) : InterfaceVariable × Nat :=
  (p.1.unnumbered, f p.2)

variable {vs ws : List InterfaceVariable} {direction : Direction} {order : LocationOrder}

theorem repeatedSemantics_unnumbered (direction : Direction) (vs : List InterfaceVariable)
    (seen : List (String × Position)) :
    repeatedSemantics direction seen (vs.map (·.unnumbered)) =
      repeatedSemantics direction seen vs := by
  induction vs generalizing seen with
  | nil => rfl
  | cons v rest ih =>
    rw [List.map_cons, repeatedSemantics, repeatedSemantics]
    simp only [ih]
    rfl

theorem setAside_unnumbered (vs : List InterfaceVariable) (e : ExplicitLocations) :
    setAside e (vs.map (·.unnumbered)) = setAside e vs := by
  induction vs generalizing e with
  | nil => rfl
  | cons v rest ih =>
    rw [List.map_cons, setAside, setAside]
    simp only [ih]
    rfl

theorem fillOrder_renumbered (f : Nat → Nat) (l : List (InterfaceVariable × Nat)) :
    fillOrder order (l.map (renumbered f)) = (fillOrder order l).map (renumbered f) := by
  cases order with
  | declaration => rfl
  | alphabetical =>
    let key (v : InterfaceVariable × Nat) : String := (v.1.semantic.map (·.string)).getD ""
    have hsort : ((fillOrder .alphabetical l).map (renumbered f)) =
        (l.map (renumbered f)).mergeSort fun a b => decide (key a ≤ key b) :=
      List.map_mergeSort fun _ _ _ _ => rfl
    exact hsort.symm

namespace LocationPlan

/-- The plan for variables of one direction that are bound to locations. -/
def forLocated (order : LocationOrder) (located : List (InterfaceVariable × Nat)) :
    Checked LocationPlan := do
  let explicit ← setAside {} (located.map (·.1))
  let pending := fillOrder order (located.filter fun v => v.1.location.isNone)
  let starts ← fill explicit.taken 0 (pending.map (·.1.room))
  return {
    findings := explicit.findings
    placed := (located.filterMap fun v => v.1.location.map (v.2, ·))
      ++ List.zipWith (fun v start => (v.2, start)) pending starts }

/-- The plan with other places of the variables. -/
def renumbered (f : Nat → Nat) (plan : LocationPlan) : LocationPlan :=
  { plan with placed := plan.placed.map fun p => (f p.1, p.2) }

theorem forLocated_renumbered (f : Nat → Nat) (located : List (InterfaceVariable × Nat)) :
    forLocated order (located.map (ShaderLowering.renumbered f)) =
      (forLocated order located).map (·.renumbered f) := by
  -- numbers do not matter for what is set aside, nor for the order and the rooms of the rest
  have haside : setAside {} ((located.map (ShaderLowering.renumbered f)).map (·.1)) =
      setAside {} (located.map (·.1)) := by
    rw [List.map_map, ← setAside_unnumbered (located.map (·.1)), List.map_map]
    rfl
  have hpending : fillOrder order ((located.map (ShaderLowering.renumbered f)).filter
        fun v => v.1.location.isNone) =
      (fillOrder order (located.filter fun v => v.1.location.isNone)).map
        (ShaderLowering.renumbered f) := by
    rw [List.filter_map, fillOrder_renumbered]
    rfl
  have hrooms : ∀ pending : List (InterfaceVariable × Nat),
      (pending.map (ShaderLowering.renumbered f)).map (·.1.room) = pending.map (·.1.room) :=
    fun pending => List.map_map ..
  have hexplicit : ((located.map (ShaderLowering.renumbered f)).filterMap
        fun v => v.1.location.map (v.2, ·)) =
      (located.filterMap fun v => v.1.location.map (v.2, ·)).map fun p => (f p.1, p.2) := by
    rw [List.filterMap_map, List.map_filterMap]
    refine List.filterMap_congr fun v _ => ?_
    rw [Option.map_map]
    rfl
  rw [forLocated, forLocated, haside, hpending, hexplicit]
  dsimp only
  rw [hrooms]
  cases setAside {} (located.map (·.1)) with
  | error fault => rfl
  | ok explicit =>
    show (fill explicit.taken 0 _ >>= fun starts => _) = Except.map _ (fill _ _ _ >>= _)
    cases fill explicit.taken 0
        ((fillOrder order (located.filter fun v => v.1.location.isNone)).map (·.1.room)) with
    | error fault => rfl
    | ok starts =>
      refine congrArg Except.ok ?_
      simp only [renumbered, List.map_append, List.map_zipWith, List.zipWith_map_left]
      rfl

/-- The same variables with other numbers, at other places, are given the same locations. -/
theorem of_renumbered {f : Nat → Nat}
    (h : (locatedVariables direction ws).map (ShaderLowering.renumbered id) =
      (locatedVariables direction vs).map (ShaderLowering.renumbered f)) :
    LocationPlan.of order direction ws =
      (LocationPlan.of order direction vs).map (·.renumbered f) := by
  have hid : ∀ plan : LocationPlan, plan.renumbered id = plan := fun plan => by
    simp only [renumbered, id, Prod.mk.eta, List.map_id']
  have hleft : forLocated order ((locatedVariables direction ws).map
        (ShaderLowering.renumbered id)) =
      (forLocated order (locatedVariables direction ws)).map (·.renumbered id) :=
    forLocated_renumbered id _
  have hsame : ∀ c : Checked LocationPlan, c.map (·.renumbered id) = c := fun c => by
    cases c with
    | error fault => rfl
    | ok plan => exact congrArg Except.ok (hid plan)
  rw [h, forLocated_renumbered, hsame] at hleft
  exact hleft.symm

theorem locatedVariables_unnumbered (h : vs.map (·.unnumbered) = ws.map (·.unnumbered)) :
    (locatedVariables direction vs).map (ShaderLowering.renumbered id) =
      (locatedVariables direction ws).map (ShaderLowering.renumbered id) := by
  have hfilter : ∀ vs : List InterfaceVariable,
      (locatedVariables direction vs).map (ShaderLowering.renumbered id) =
        locatedVariables direction (vs.map (·.unnumbered)) := by
    intro vs
    rw [locatedVariables, locatedVariables, List.zipIdx_map, List.filter_map]
    rfl
  rw [hfilter, hfilter, h]

/-- Numbers in the module do not matter to a plan. -/
theorem of_unnumbered (h : vs.map (·.unnumbered) = ws.map (·.unnumbered)) :
    LocationPlan.of order direction vs = LocationPlan.of order direction ws := by
  rw [of_renumbered (f := id) (locatedVariables_unnumbered h)]
  cases LocationPlan.of order direction ws with
  | error fault => rfl
  | ok plan =>
    refine congrArg Except.ok ?_
    simp only [renumbered, id, Prod.mk.eta, List.map_id']

end LocationPlan

/-! ## Distances -/

namespace DistanceArrays

open Distance (Packing)

/-- The packings without the numbers of their arrays. -/
def unnumbered (a : DistanceArrays) : DistanceArrays where
  inputClip := { a.inputClip with var := none }
  inputCull := { a.inputCull with var := none }
  outputClip := { a.outputClip with var := none }
  outputCull := { a.outputCull with var := none }

variable {a b : DistanceArrays}

theorem get_unnumbered (a : DistanceArrays) (direction : Direction) (kind : DistanceKind) :
    a.unnumbered.get direction kind = { a.get direction kind with var := none } := by
  cases direction <;> cases kind <;> rfl

theorem set_unnumbered (a : DistanceArrays) (direction : Direction) (kind : DistanceKind)
    (p : Packing) :
    (a.set direction kind p).unnumbered =
      a.unnumbered.set direction kind { p with var := none } := by
  cases direction <;> cases kind <;> rfl

theorem total_unnumbered (h : a.unnumbered = b.unnumbered) (direction : Direction)
    (kind : DistanceKind) : (a.get direction kind).total = (b.get direction kind).total := by
  have hget := congrArg (fun c => (c.get direction kind).total) h
  simp only [get_unnumbered] at hget
  exact hget

/-- Arrays that differ in their numbers at most still do so with other numbers. -/
theorem set_var_unnumbered (h : a.unnumbered = b.unnumbered) (direction : Direction)
    (kind : DistanceKind) (var var' : Option Spirv.VariableId) :
    (a.set direction kind { a.get direction kind with var := var }).unnumbered =
      (b.set direction kind { b.get direction kind with var := var' }).unnumbered := by
  have hget := get_unnumbered a direction kind
  rw [h, get_unnumbered] at hget
  rw [set_unnumbered, set_unnumbered, h]
  exact congrArg _ hget.symm

theorem recordLeaf_unnumbered (a : DistanceArrays) (direction : Direction) (leaf : DistanceLeaf) :
    a.unnumbered.recordLeaf direction leaf = (a.recordLeaf direction leaf).map (·.unnumbered) := by
  rw [recordLeaf, recordLeaf]
  split
  · rfl
  · split
    · rfl
    · split
      · rfl
      · simp only [get_unnumbered]
        split
        · exact congrArg Except.ok (a.set_unnumbered _ _ ((a.get _ _).declare _ _)).symm
        · split <;> rfl

theorem recordLeaves_unnumbered (direction : Direction) (leaves : List DistanceLeaf)
    (a : DistanceArrays) : a.unnumbered.recordLeaves direction leaves =
      ((a.recordLeaves direction leaves).1, (a.recordLeaves direction leaves).2.unnumbered) := by
  induction leaves generalizing a with
  | nil => rfl
  | cons leaf rest ih =>
    rw [recordLeaves, recordLeaves, recordLeaf_unnumbered]
    cases a.recordLeaf direction leaf with
    | ok a' => exact ih a'
    | error finding =>
      show (_, _) = (_, _)
      rw [ih]

theorem calculate_unnumbered (a : DistanceArrays) :
    a.unnumbered.calculate = a.calculate.map (·.unnumbered) := by
  have hpacking : ∀ p : Packing, Packing.calculate { p with var := none } =
      p.calculate.map fun p => { p with var := none } := by
    intro p
    rw [Packing.calculate, Packing.calculate]
    cases Distance.rangesFrom 0 p.declared <;> rfl
  rw [calculate, calculate]
  simp only [unnumbered, hpacking]
  cases a.inputClip.calculate <;> cases a.inputCull.calculate <;>
    cases a.outputClip.calculate <;> cases a.outputCull.calculate <;> rfl

end DistanceArrays

end ShaderLowering
