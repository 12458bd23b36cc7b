import Mathlib.Data.List.Nodup
import Mathlib.Data.List.Perm.Subperm
import ShaderLowering.Descriptor.Plan

/-!
# The plan of descriptor bindings

`SlotsFor` says what the places of resource variables have to be: explicit places are the ones that
were asked for, an automatic place is nobody else's, and a hidden counter is in the set of its
buffer.  `BindingPlan.of` gives such places to any variables whose counters belong to a buffer, and
it has something to report exactly if two explicit places are the same.
-/

namespace ShaderLowering

open Source (Position)
open Spirv (ResourceBinding)

variable {all : List ResourceVariable} {taken : List ResourceBinding} {set : Nat}

/-! ## Explicit places -/

/-- Nothing is wrong with claims exactly if no place is claimed twice. -/
theorem repeatedBindings_eq_nil_iff {claimed cs : List (ResourceBinding × Position)} :
    repeatedBindings claimed cs = [] ↔
      (∀ c ∈ cs, c.1 ∉ claimed.map (·.1)) ∧ (cs.map (·.1)).Nodup := by
  induction cs generalizing claimed with
  | nil => simp [repeatedBindings]
  | cons c rest ih =>
    obtain ⟨slot, position⟩ := c
    rw [repeatedBindings]
    split
    · rename_i hlookup
      have hfree : slot ∉ claimed.map (·.1) := by
        intro hslot
        obtain ⟨c, hc, rfl⟩ := List.mem_map.1 hslot
        simpa using List.lookup_eq_none_iff.1 hlookup c hc
      rw [ih]
      simp only [List.map_append, List.map_cons, List.map_nil, List.mem_append,
        List.mem_singleton, not_or, List.forall_mem_cons, List.nodup_cons]
      constructor
      · rintro ⟨hrest, hnodup⟩
        refine ⟨⟨hfree, fun c hc => (hrest c hc).1⟩, fun hslot => ?_, hnodup⟩
        obtain ⟨c, hc, rfl⟩ := List.mem_map.1 hslot
        exact (hrest c hc).2 rfl
      · rintro ⟨⟨-, hrest⟩, hslot, hnodup⟩
        refine ⟨fun c hc => ⟨hrest c hc, ?_⟩, hnodup⟩
        rintro rfl
        exact hslot (List.mem_map_of_mem hc)
    · rename_i first hlookup
      obtain ⟨l₁, l₂, rfl, -⟩ := List.lookup_eq_some_iff.1 hlookup
      simp

/-- Two choices made one after the other, on the elements left by the first. -/
theorem filterMap_or_perm {α β : Type} (f g : α → Option β) (l : List α) :
    (l.filterMap f ++ l.filterMap fun a => if (f a).isSome then none else g a).Perm
      (l.filterMap fun a => (f a).or (g a)) := by
  induction l with
  | nil => exact .nil
  | cons a rest ih =>
    cases hf : f a with
    | some b =>
      simp only [List.filterMap_cons, hf, Option.isSome_some, if_true, Option.some_or]
      exact ih.cons b
    | none =>
      cases hg : g a with
      | some b =>
        simp only [List.filterMap_cons, hf, hg, Option.none_or]
        exact List.perm_middle.trans (ih.cons b)
      | none =>
        simp only [List.filterMap_cons, hf, hg, Option.none_or]
        exact ih

/-- The claimed places are the explicit places of the variables. -/
theorem claims_perm (all : List ResourceVariable) :
    ((claims all).map (·.1)).Perm (all.filterMap (·.explicit? all)) := by
  have hclaims : (claims all).map (·.1) = all.filterMap (·.requested? all) ++
      all.filterMap fun r => if (r.requested? all).isSome then none else r.registered? := by
    simp only [claims, List.map_append, List.map_filterMap, apply_ite (Option.map _),
      Option.map_map, Option.map_none, Function.comp_def, Option.map_id']
  rw [hclaims]
  exact filterMap_or_perm _ _ all

/-- The explicit places of two variables are the same. -/
def ExplicitCollision (all : List ResourceVariable) : Prop :=
  ∃ (i j : Nat) (r u : ResourceVariable) (slot : ResourceBinding), i ≠ j ∧
    all[i]? = some r ∧ all[j]? = some u ∧ r.explicit? all = some slot ∧ u.explicit? all = some slot

/-- Something is reported exactly if two explicit places are the same. -/
theorem findings_eq_nil_iff (all : List ResourceVariable) :
    (BindingPlan.of all).findings = [] ↔ ¬ExplicitCollision all := by
  have hnodup : (BindingPlan.of all).findings = [] ↔ (all.filterMap (·.explicit? all)).Nodup := by
    rw [← (claims_perm all).nodup_iff]
    simp [BindingPlan.of, repeatedBindings_eq_nil_iff]
  rw [hnodup, List.Nodup, List.pairwise_filterMap, List.pairwise_iff_getElem]
  constructor
  · rintro hapart ⟨i, j, r, u, slot, hne, hr, hu, hslot, hslot'⟩
    obtain ⟨hi, rfl⟩ := List.getElem?_eq_some_iff.1 hr
    obtain ⟨hj, rfl⟩ := List.getElem?_eq_some_iff.1 hu
    rcases Nat.lt_or_gt_of_ne hne with hlt | hlt
    · exact hapart i j hi hj hlt slot hslot slot hslot' rfl
    · exact hapart j i hj hi hlt slot hslot' slot hslot rfl
  · rintro hapart i j hi hj hlt slot hslot _ hslot' rfl
    exact hapart ⟨i, j, all[i], all[j], slot, Nat.ne_of_lt hlt, List.getElem?_eq_getElem hi,
      List.getElem?_eq_getElem hj, hslot, hslot'⟩

/-! ## Automatic places -/

/-- The lowest binding is free, since a set with more bindings than are taken has a free one. -/
theorem lowestBinding_not_mem (taken : List ResourceBinding) (set : Nat) :
    ⟨set, lowestBinding taken set⟩ ∉ taken := by
  have hexists : ∃ b ∈ List.range (taken.length + 1), (⟨set, b⟩ : ResourceBinding) ∉ taken := by
    by_contra hall
    push Not at hall
    have hsubset : (List.range (taken.length + 1)).map (ResourceBinding.mk set) ⊆ taken := by
      intro slot hslot
      obtain ⟨b, hb, rfl⟩ := List.mem_map.1 hslot
      exact hall b hb
    have hnodup : ((List.range (taken.length + 1)).map (ResourceBinding.mk set)).Nodup :=
      List.nodup_range.map fun _ _ h => (ResourceBinding.mk.inj h).2
    have hlength := (List.subperm_of_subset hnodup hsubset).length_le
    simp only [List.length_map, List.length_range] at hlength
    exact absurd hlength (Nat.not_succ_le_self _)
  obtain ⟨b, hb, hfree⟩ := hexists
  rw [lowestBinding]
  cases hfind : (List.range (taken.length + 1)).find? fun b => decide (⟨set, b⟩ ∉ taken) with
  | none => exact absurd (by simpa using hfree) (List.find?_eq_none.1 hfind b hb)
  | some c => simpa using List.find?_some hfind

theorem length_assignBindings (all : List ResourceVariable) :
    (taken : List ResourceBinding) → (rs : List ResourceVariable) →
    (assignBindings all taken rs).length = rs.length
  | _, [] => rfl
  | taken, r :: rest => by
    rw [assignBindings]
    split <;> simp [length_assignBindings all _ rest]

/-- An explicit place is kept. -/
theorem assignBindings_of_explicit? {r : ResourceVariable} {slot : ResourceBinding}
    (hslot : r.explicit? all = some slot) : {taken : List ResourceBinding} →
    {rs : List ResourceVariable} → {i : Nat} → rs[i]? = some r →
    (assignBindings all taken rs)[i]? = some slot
  | taken, u :: rest, 0, h => by
    cases h
    rw [assignBindings, hslot]
    rfl
  | taken, u :: rest, i + 1, h => by
    rw [assignBindings]
    split <;> exact assignBindings_of_explicit? hslot (i := i) h

/-- The set that a variable ends up in. -/
def ResourceVariable.placedSet (all : List ResourceVariable) (r : ResourceVariable) : Nat :=
  ((r.explicit? all).map (·.set)).getD (r.automaticSet all)

theorem set_assignBindings {r : ResourceVariable} {slot : ResourceBinding} :
    {taken : List ResourceBinding} → {rs : List ResourceVariable} → {i : Nat} →
    rs[i]? = some r → (assignBindings all taken rs)[i]? = some slot → slot.set = r.placedSet all
  | taken, u :: rest, 0, h, hslot => by
    cases h
    rw [assignBindings] at hslot
    rw [ResourceVariable.placedSet]
    split at hslot <;> rename_i hexplicit <;> cases hslot <;> rw [hexplicit] <;> rfl
  | taken, u :: rest, i + 1, h, hslot => by
    rw [assignBindings] at hslot
    split at hslot <;> exact set_assignBindings (i := i) h hslot

/-- An automatic place is not taken, and no other variable gets it.  What is taken has to hold all
explicit places. -/
theorem assignBindings_of_automatic : {rs : List ResourceVariable} →
    {taken : List ResourceBinding} →
    (∀ r ∈ rs, ∀ slot, r.explicit? all = some slot → slot ∈ taken) →
    {i : Nat} → {r : ResourceVariable} → {slot : ResourceBinding} → rs[i]? = some r →
    r.explicit? all = none → (assignBindings all taken rs)[i]? = some slot →
    slot ∉ taken ∧ ∀ j ≠ i, (assignBindings all taken rs)[j]? ≠ some slot
  | u :: rest, taken, htaken, i, r, slot, hr, hnone, hslot => by
    have hu := htaken u List.mem_cons_self
    have hrest := fun r hr => htaken r (List.mem_cons_of_mem u hr)
    rw [assignBindings] at hslot ⊢
    cases hexplicit : u.explicit? all with
    | some first =>
      simp only [hexplicit] at hslot ⊢
      cases i with
      | zero =>
        cases hr
        cases hnone.symm.trans hexplicit
      | succ i =>
        obtain ⟨hfree, hothers⟩ := assignBindings_of_automatic hrest hr hnone hslot
        refine ⟨hfree, fun j hj => ?_⟩
        cases j with
        | zero =>
          rintro ⟨⟩
          exact hfree (hu _ hexplicit)
        | succ j => exact hothers j (fun h => hj (h ▸ rfl))
    | none =>
      simp only [hexplicit] at hslot ⊢
      have hfirst := lowestBinding_not_mem taken (u.automaticSet all)
      generalize (⟨u.automaticSet all, lowestBinding taken (u.automaticSet all)⟩ :
        ResourceBinding) = first at hslot hfirst ⊢
      -- what is taken for the rest still holds all explicit places
      have hnext : ∀ r ∈ rest, ∀ slot, r.explicit? all = some slot → slot ∈ taken ++ [first] :=
        fun r hr slot h => List.mem_append_left _ (hrest r hr slot h)
      cases i with
      | zero =>
        cases hslot
        refine ⟨hfirst, fun j hj hslot => ?_⟩
        cases j with
        | zero => exact hj rfl
        | succ j =>
          have hlt := (List.getElem?_eq_some_iff.1 hslot).1
          rw [List.length_cons, length_assignBindings, Nat.succ_lt_succ_iff] at hlt
          have hw := List.getElem?_eq_getElem hlt
          cases hplace : rest[j].explicit? all with
          | some place =>
            cases (assignBindings_of_explicit? hplace hw).symm.trans hslot
            exact hfirst (hrest _ (List.getElem_mem hlt) _ hplace)
          | none =>
            exact (assignBindings_of_automatic hnext hw hplace hslot).1
              (List.mem_append_right _ (List.mem_singleton_self _))
      | succ i =>
        obtain ⟨hfree, hothers⟩ := assignBindings_of_automatic hnext hr hnone hslot
        rw [List.mem_append, List.mem_singleton, not_or] at hfree
        refine ⟨hfree.1, fun j hj => ?_⟩
        cases j with
        | zero =>
          rintro ⟨⟩
          exact hfree.2 rfl
        | succ j => exact hothers j (fun h => hj (h ▸ rfl))

/-! ## Hidden counters -/

namespace ResourceVariable

variable {r buffer : ResourceVariable} {i : Nat}

/-- A hidden counter asks for no place of its own, and its buffer is there and no counter. -/
def WellOwned (all : List ResourceVariable) (r : ResourceVariable) : Prop :=
  ∀ i, r.owner = some i → r.binding = none ∧ r.register = none ∧
    ∃ buffer, all[i]? = some buffer ∧ buffer.owner = none

theorem WellOwned.append (h : r.WellOwned all) (more : List ResourceVariable) :
    r.WellOwned (all ++ more) := by
  intro i hi
  obtain ⟨hbinding, hregister, buffer, hbuffer, howner⟩ := h i hi
  refine ⟨hbinding, hregister, buffer, ?_, howner⟩
  rw [List.getElem?_append_left (List.getElem?_eq_some_iff.1 hbuffer).1]
  exact hbuffer

/-- A variable that is no counter is placed where it asks to be, else in the first set. -/
theorem placedSet_of_owner_eq_none (h : r.owner = none) :
    r.placedSet all = r.explicitSet?.getD 0 := by
  have howner : r.owner? all = none := by rw [owner?, h]; rfl
  cases hbinding : r.binding <;> cases hregister : r.register <;>
    simp [placedSet, explicit?, requested?, registered?, automaticSet, explicitSet?, howner,
      hbinding, hregister]

/-- A counter is placed in the set of its buffer. -/
theorem placedSet_of_owner (h : r.WellOwned all) (howner : r.owner = some i)
    (hbuffer : all[i]? = some buffer) : r.placedSet all = buffer.placedSet all := by
  obtain ⟨hbinding, hregister, _, hsome, hnone⟩ := h i howner
  cases hsome.symm.trans hbuffer
  have howner? : r.owner? all = some buffer := by rw [owner?, howner]; exact hbuffer
  rw [placedSet_of_owner_eq_none hnone]
  cases hcounter : buffer.counterBinding <;>
    simp [placedSet, explicit?, requested?, registered?, automaticSet, howner?, hbinding,
      hregister, hcounter]

end ResourceVariable

/-! ## Places of all variables -/

/-- Places of resource variables as they have to be. -/
structure SlotsFor (all : List ResourceVariable) (slots : List ResourceBinding) : Prop where
  length : slots.length = all.length
  explicit : ∀ (i : Nat) (r : ResourceVariable) (slot : ResourceBinding), all[i]? = some r →
    r.explicit? all = some slot → slots[i]? = some slot
  automatic : ∀ (i j : Nat) (r : ResourceVariable), all[i]? = some r → r.explicit? all = none →
    i ≠ j → slots[i]? ≠ slots[j]?
  counter : ∀ (i owner : Nat) (r : ResourceVariable), all[i]? = some r → r.owner = some owner →
    (slots[i]?).map (·.set) = (slots[owner]?).map (·.set)

/-- The plan gives every variable such a place. -/
theorem slotsFor_plan (h : ∀ r ∈ all, r.WellOwned all) :
    SlotsFor all (BindingPlan.of all).slots := by
  have hlength := length_assignBindings all ((claims all).map (·.1)) all
  have htaken : ∀ r ∈ all, ∀ slot, r.explicit? all = some slot →
      slot ∈ (claims all).map (·.1) := fun r hr slot hslot =>
    (claims_perm all).mem_iff.2 (List.mem_filterMap.2 ⟨r, hr, hslot⟩)
  have hset : ∀ (i : Nat) (r : ResourceVariable), all[i]? = some r →
      ((BindingPlan.of all).slots[i]?).map (·.set) = some (r.placedSet all) := by
    intro i r hr
    have hi : i < (BindingPlan.of all).slots.length :=
      hlength.symm ▸ (List.getElem?_eq_some_iff.1 hr).1
    have hslot := List.getElem?_eq_getElem hi
    rw [hslot, Option.map_some, set_assignBindings hr hslot]
  refine ⟨hlength, fun i r slot hr hslot => assignBindings_of_explicit? hslot hr,
    fun i j r hr hnone hne heq => ?_, fun i owner r hr howner => ?_⟩
  · have hi : i < (BindingPlan.of all).slots.length :=
      hlength.symm ▸ (List.getElem?_eq_some_iff.1 hr).1
    have hslot := List.getElem?_eq_getElem hi
    exact (assignBindings_of_automatic htaken hr hnone hslot).2 j hne.symm
      (heq.symm.trans hslot)
  · have hr' := h r (List.mem_of_getElem? hr)
    obtain ⟨-, -, buffer, hbuffer, -⟩ := hr' owner howner
    rw [hset i r hr, hset owner buffer hbuffer,
      ResourceVariable.placedSet_of_owner hr' howner hbuffer]

/-- A counter takes the lowest free binding of its buffer's set. -/
example :
    let buffer : ResourceVariable := { var := 0, position := {}, binding := some ⟨0, 3⟩ }
    let counter : ResourceVariable := { var := 1, position := {}, owner := some 0 }
    (BindingPlan.of [buffer, counter]).slots = [⟨3, 0⟩, ⟨3, 1⟩] := by
  decide

/-- Where no explicit places are the same, no places are. -/
theorem SlotsFor.nodup {slots : List ResourceBinding} (h : SlotsFor all slots)
    (hapart : ¬ExplicitCollision all) : slots.Nodup := by
  rw [List.Nodup, List.pairwise_iff_getElem]
  intro i j hi hj hlt heq
  have hir : i < all.length := h.length ▸ hi
  have hjr : j < all.length := h.length ▸ hj
  have hr := List.getElem?_eq_getElem hir
  have hu := List.getElem?_eq_getElem hjr
  have hsame : slots[i]? = slots[j]? := by
    rw [List.getElem?_eq_getElem hi, List.getElem?_eq_getElem hj, heq]
  cases hslot : all[i].explicit? all with
  | none => exact h.automatic i j _ hr hslot (Nat.ne_of_lt hlt) hsame
  | some slot =>
    cases hslot' : all[j].explicit? all with
    | none => exact h.automatic j i _ hu hslot' (Nat.ne_of_gt hlt) hsame.symm
    | some slot' =>
      cases (h.explicit i _ _ hr hslot).symm.trans (hsame.trans (h.explicit j _ _ hu hslot'))
      exact hapart ⟨i, j, _, _, slot, Nat.ne_of_lt hlt, hr, hu, hslot, hslot'⟩

end ShaderLowering
