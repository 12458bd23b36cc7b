import Mathlib.Order.Bounds.Defs
import ShaderLowering.Proofs.Session.Bindings

/-!
# Automatic bindings

A variable that asks for no place gets the lowest binding of its set that no explicit place and no
variable before it holds.  What is taken when its turn comes are the explicit places of all
variables and the automatic ones of those before it (`assignBindings_lowest`); the rest is said
about the places alone: the bindings below an automatic one are held, so the automatic bindings of a
set ascend.
-/

namespace ShaderLowering

open Spirv (ResourceBinding)

variable {all : List ResourceVariable} {slots : List ResourceBinding}

/-! ## Places held before a turn -/

/-- When the turn of a variable comes, a place is held by a variable that is placed explicitly or
comes before it. -/
def HeldBefore (all : List ResourceVariable) (slots : List ResourceBinding) (i : Nat)
    (slot : ResourceBinding) : Prop :=
  ∃ j r, all[j]? = some r ∧ slots[j]? = some slot ∧ ((r.explicit? all).isSome = true ∨ j < i)

/-- A variable without an explicit place gets a place. -/
structure PlacedAutomatically (all : List ResourceVariable) (slots : List ResourceBinding) (i : Nat)
    (slot : ResourceBinding) : Prop where
  automatic : ∃ r, all[i]? = some r ∧ r.explicit? all = none
  place : slots[i]? = some slot

/-- Automatic places have the lowest bindings of their sets that are free when their turn comes. -/
def LowestFor (all : List ResourceVariable) (slots : List ResourceBinding) : Prop :=
  ∀ i slot, PlacedAutomatically all slots i slot →
    IsLeast {binding | ¬HeldBefore all slots i ⟨slot.set, binding⟩} slot.binding

/-- The automatic bindings of a set ascend. -/
def AscendsIn (all : List ResourceVariable) (slots : List ResourceBinding) (set : Nat) : Prop :=
  ∀ i j slot slot', i < j → PlacedAutomatically all slots i slot →
    PlacedAutomatically all slots j slot' → slot.set = set → slot'.set = set →
    slot.binding < slot'.binding

/-- An automatic place is not held by another variable. -/
theorem SlotsFor.not_heldBefore (h : SlotsFor all slots) {i : Nat} {slot : ResourceBinding}
    (hi : PlacedAutomatically all slots i slot) (k : Nat) (hk : k ≤ i) :
    ¬HeldBefore all slots k slot := by
  obtain ⟨r, hr, hnone⟩ := hi.automatic
  rintro ⟨j, u, hu, hslot, hbefore⟩
  refine h.automatic i j r hr hnone ?_ (hi.place.trans hslot.symm)
  rintro rfl
  cases hr.symm.trans hu
  rw [hnone] at hbefore
  rcases hbefore with hbefore | hbefore
  · cases hbefore
  · omega

/-- Where lower bindings are held, the automatic ones ascend. -/
theorem SlotsFor.ascendsIn (h : SlotsFor all slots) (hlowest : LowestFor all slots) (set : Nat) :
    AscendsIn all slots set := by
  intro i j slot slot' hij hi hj hset hset'
  by_contra hle
  have hfree := h.not_heldBefore hj i (Nat.le_of_lt hij)
  have hleast := (hlowest i slot hi).2
  have hsame : (⟨slot.set, slot'.binding⟩ : ResourceBinding) = slot' := by
    rw [hset, ← hset']
  have heq := Nat.le_antisymm (Nat.not_lt.1 hle)
    (hleast (show ¬HeldBefore all slots i ⟨slot.set, slot'.binding⟩ by rwa [hsame]))
  rw [heq] at hsame
  -- both have the same place, which an automatic one shares with no other variable
  obtain ⟨r, hr, hnone⟩ := hi.automatic
  refine h.automatic i j r hr hnone (Nat.ne_of_lt hij) ?_
  rw [hi.place, hj.place, ← hsame]

/-! ## The plan -/

/-- All bindings below the lowest free one are taken. -/
theorem mem_of_lt_lowestBinding {taken : List ResourceBinding} {set binding : Nat}
    (h : binding < lowestBinding taken set) : ⟨set, binding⟩ ∈ taken := by
  rw [lowestBinding] at h
  cases hfind : (List.range (taken.length + 1)).find? fun b => decide (⟨set, b⟩ ∉ taken) with
  | none =>
    rw [hfind] at h
    cases h
  | some c =>
    rw [hfind] at h
    have hbefore := (List.find?_range_eq_some.1 hfind).2.2 binding h
    simpa using hbefore

/-- The bindings below an automatic one are taken from the start, or by an automatic place before
it. -/
theorem assignBindings_lowest {rs : List ResourceVariable} {taken : List ResourceBinding} {i : Nat}
    {r : ResourceVariable} {slot : ResourceBinding} (hr : rs[i]? = some r)
    (hnone : r.explicit? all = none) (hslot : (assignBindings all taken rs)[i]? = some slot) :
    ∀ binding < slot.binding, ⟨slot.set, binding⟩ ∈ taken ∨
      ∃ j < i, (assignBindings all taken rs)[j]? = some ⟨slot.set, binding⟩ := by
  induction rs generalizing taken i with
  | nil => cases hr
  | cons u rest ih =>
    intro binding hlt
    rw [assignBindings] at hslot ⊢
    cases hexplicit : u.explicit? all with
    | some first =>
      simp only [hexplicit] at hslot ⊢
      cases i with
      | zero =>
        cases hr
        cases hnone.symm.trans hexplicit
      | succ i =>
        rcases ih hr hslot binding hlt with hmem | ⟨j, hj, hheld⟩
        · exact .inl hmem
        · exact .inr ⟨j + 1, by omega, hheld⟩
    | none =>
      simp only [hexplicit] at hslot ⊢
      cases i with
      | zero =>
        cases hslot
        exact .inl (mem_of_lt_lowestBinding hlt)
      | succ i =>
        -- what is taken for the rest is one place more, that of the first variable
        rcases ih hr hslot binding hlt with hmem | ⟨j, hj, hheld⟩
        · rcases List.mem_append.1 hmem with hmem | hmem
          · exact .inl hmem
          · exact .inr ⟨0, by omega, congrArg some (List.mem_singleton.1 hmem).symm⟩
        · exact .inr ⟨j + 1, by omega, hheld⟩

/-- The plan gives automatic places the lowest bindings. -/
theorem lowestFor_plan (h : ∀ r ∈ all, r.WellOwned all) :
    LowestFor all (BindingPlan.of all).slots := by
  have hplaces := slotsFor_plan h
  intro i slot hi
  refine ⟨hplaces.not_heldBefore hi i (Nat.le_refl i), fun binding hfree => ?_⟩
  by_contra hlt
  obtain ⟨r, hr, hnone⟩ := hi.automatic
  refine hfree ?_
  rcases assignBindings_lowest hr hnone hi.place binding (Nat.not_le.1 hlt) with
    hmem | ⟨j, hj, hheld⟩
  · obtain ⟨u, hu, hslot⟩ := List.mem_filterMap.1 ((claims_perm all).mem_iff.1 hmem)
    obtain ⟨j, hj⟩ := List.mem_iff_getElem?.1 hu
    exact ⟨j, u, hj, hplaces.explicit j u _ hj hslot, .inl (by rw [hslot]; rfl)⟩
  · have hlt : j < all.length := Nat.lt_trans hj (List.getElem?_eq_some_iff.1 hr).1
    exact ⟨j, all[j], List.getElem?_eq_getElem hlt, hheld, .inr hj⟩

/-! ## Sessions -/

namespace Lower

variable {stage : Stage} {options : Options} {s : Session}

/-- **Automatic bindings.**  Whatever was created before, giving out bindings answers, and puts
every resource variable into its place.  An automatic place has the lowest binding of its set that
is held neither explicitly nor by a variable before it: all bindings below are held so.  Hence the
automatic bindings of a set ascend in the order of the variables. -/
theorem automatic_bindings_lowest (h : Session.Reachable stage options s) :
    ∃ b s' slots, decorateBindings.runOn s = (.ok b, s') ∧ s.Binds s' slots ∧
      (∀ set, AscendsIn s.resources slots set) ∧ LowestFor s.resources slots ∧
      ∀ i slot, PlacedAutomatically s.resources slots i slot →
        ∀ binding < slot.binding, HeldBefore s.resources slots i ⟨slot.set, binding⟩ := by
  have hs := h.sound
  have hplaces := slotsFor_plan hs.counters
  have hlowest := lowestFor_plan hs.counters
  refine ⟨_, _, _, runOn_decorateBindings hs, Session.binds_foldl hs hplaces _,
    hplaces.ascendsIn hlowest, hlowest, fun i slot hi binding hlt => ?_⟩
  by_contra hfree
  exact absurd ((hlowest i slot hi).2 hfree) (Nat.not_le.2 hlt)

end Lower

/-- A session with a counted buffer in set 1 and three constant blocks in set 0, the second of them
at an explicit binding. -/
def countedBuffer : Session :=
  let buffer : Source.Variable :=
    { id := 1
      name := "buffer"
      ty := .resource (.structured .readWrite) (.present (.scalar .single))
      storage := .global
      attributes := { binding := some ⟨1, 1⟩ } }
  let first := emptyBlock 2 "a" {}
  let second := emptyBlock 3 "b" { binding := some ⟨1, 0⟩ }
  let third := emptyBlock 4 "c" {}
  ((Lower.block third).runOn ((Lower.block second).runOn ((Lower.block first).runOn
    ((Lower.globalVariable buffer).runOn (.start .compute {})).2).2).2).2

theorem reachable_countedBuffer : Session.Reachable .compute {} countedBuffer :=
  .step (.block _) (.step (.block _) (.step (.block _) (.step (.globalVariable _) .start)))

/-- The counter is in the set of its buffer, and the last block behind the explicit one. -/
theorem Lower.automatic_bindings_lowest_countedBuffer :
    Session.Reachable .compute {} countedBuffer ∧
    (∃ b s' slots, decorateBindings.runOn countedBuffer = (.ok b, s') ∧
      countedBuffer.Binds s' slots ∧ (∀ set, AscendsIn countedBuffer.resources slots set) ∧
      LowestFor countedBuffer.resources slots ∧
      ∀ i slot, PlacedAutomatically countedBuffer.resources slots i slot →
        ∀ binding < slot.binding, HeldBefore countedBuffer.resources slots i ⟨slot.set, binding⟩) ∧
    (BindingPlan.of countedBuffer.resources).slots =
      [⟨1, 1⟩, ⟨1, 0⟩, ⟨0, 0⟩, ⟨0, 1⟩, ⟨0, 2⟩] :=
  ⟨reachable_countedBuffer, automatic_bindings_lowest reachable_countedBuffer, by decide +kernel⟩

end ShaderLowering
