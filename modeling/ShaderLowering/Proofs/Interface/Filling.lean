import Mathlib.Data.List.Pairwise
import Mathlib.Data.String.Basic
import ShaderLowering.Proofs.Interface.Plan

/-!
# Filling in locations

Variables without a location take their turns one after the other, in order of declaration or of
semantic strings (`LocationOrder.TurnBefore`).  Each is put at the first place behind the one before
it where it meets nothing that is set aside, so the places ascend (`fill_inTurn`).  The search never
goes back: a free place in front of a variable was passed over by one before it that takes more room
(`exists_wider_of_gap`).
-/

namespace ShaderLowering

/-! ## Turns -/

/-- The string that gives a variable its turn in alphabetical order. -/
def InterfaceVariable.spelling (v : InterfaceVariable) : String :=
  (v.semantic.map (·.string)).getD ""

/-- A numbered variable has its turn before another one. -/
def LocationOrder.TurnBefore (order : LocationOrder) (v u : InterfaceVariable × Nat) : Prop :=
  match order with
  | .declaration => v.2 < u.2
  | .alphabetical =>
    v.1.spelling < u.1.spelling ∨ (v.1.spelling = u.1.spelling ∧ v.2 < u.2)

variable {order : LocationOrder} {direction : Direction} {vs : List InterfaceVariable}

theorem LocationOrder.TurnBefore.asymm {v u : InterfaceVariable × Nat} (h : order.TurnBefore v u) :
    ¬order.TurnBefore u v := by
  cases order with
  | declaration => exact Nat.lt_asymm h
  | alphabetical =>
    rintro (hlt' | ⟨heq', hlt'⟩) <;> rcases h with hlt | ⟨heq, hlt⟩
    · exact lt_asymm hlt hlt'
    · exact lt_irrefl _ (heq ▸ hlt')
    · exact lt_irrefl _ (heq' ▸ hlt)
    · exact Nat.lt_asymm hlt hlt'

theorem pairwise_snd_zipIdx {α : Type} (l : List α) (n : Nat) :
    (l.zipIdx n).Pairwise fun a b => a.2 < b.2 := by
  have hnumbers : ((l.zipIdx n).map (·.2)).Pairwise (· < ·) := by
    rw [List.zipIdx_map_snd]
    exact List.pairwise_lt_range'
  exact List.pairwise_map.1 hnumbers

/-- One numbered variable may come before another in alphabetical order. -/
def spelledUpTo (v u : InterfaceVariable × Nat) : Bool := decide (v.1.spelling ≤ u.1.spelling)

/-- Variables in order of their numbers are given their turns. -/
theorem pairwise_fillOrder {l : List (InterfaceVariable × Nat)}
    (h : l.Pairwise fun v u => v.2 < u.2) : (fillOrder order l).Pairwise order.TurnBefore := by
  cases order with
  | declaration => exact h
  | alphabetical =>
    -- sorting is stable: it is sorting by strings and, where these are the same, by positions
    have hsort : fillOrder .alphabetical l =
        (l.zipIdx.mergeSort (List.zipIdxLE spelledUpTo)).map (·.1) := List.mergeSort_zipIdx.symm
    have htotal : ∀ v u, (spelledUpTo v u || spelledUpTo u v) = true := fun v u => by
      simpa [spelledUpTo] using String.le_total v.1.spelling u.1.spelling
    have htrans : ∀ v u w, spelledUpTo v u = true → spelledUpTo u w = true →
        spelledUpTo v w = true := fun v u w hvu huw =>
      decide_eq_true (String.le_trans (of_decide_eq_true hvu) (of_decide_eq_true huw))
    have hsorted := List.pairwise_mergeSort (List.zipIdxLE_trans htrans)
      (List.zipIdxLE_total htotal) l.zipIdx
    have hperm := List.mergeSort_perm l.zipIdx (List.zipIdxLE spelledUpTo)
    have hne : (l.zipIdx.mergeSort (List.zipIdxLE spelledUpTo)).Pairwise fun a b => a.2 ≠ b.2 :=
      hperm.symm.pairwise ((pairwise_snd_zipIdx l 0).imp Nat.ne_of_lt) Ne.symm
    rw [hsort, List.pairwise_map]
    refine (hsorted.and hne).imp_of_mem fun {a b} ha hb hab => ?_
    obtain ⟨hle, hposition⟩ := hab
    have ha' := List.mem_zipIdx_iff_getElem?.1 (hperm.mem_iff.1 ha)
    have hb' := List.mem_zipIdx_iff_getElem?.1 (hperm.mem_iff.1 hb)
    rw [List.zipIdxLE] at hle
    split at hle
    · rename_i hab
      split at hle
      · rename_i hba
        refine .inr ⟨le_antisymm (of_decide_eq_true hab) (of_decide_eq_true hba), ?_⟩
        obtain ⟨hia, ha'⟩ := List.getElem?_eq_some_iff.1 ha'
        obtain ⟨hib, hb'⟩ := List.getElem?_eq_some_iff.1 hb'
        rw [← ha', ← hb']
        exact List.pairwise_iff_getElem.1 h a.2 b.2 hia hib
          (Nat.lt_of_le_of_ne (of_decide_eq_true hle) hposition)
      · rename_i hba
        exact .inl (not_le.1 fun hle => hba (decide_eq_true hle))
    · cases hle

/-- Variables that need a location have their turns in this order. -/
theorem pairwise_pendingVariables :
    (pendingVariables order direction vs).Pairwise order.TurnBefore :=
  pairwise_fillOrder (((pairwise_snd_zipIdx vs 0).filter _).filter _)

/-! ## Parts of ranges -/

/-- A shorter range is apart from what the longer one is apart from. -/
theorem SlotRange.isApart_of_le {start stop stop' index : Nat} {t : SlotRange} (hle : stop ≤ stop')
    (h : (⟨start, stop', index⟩ : SlotRange).isApart t = true) :
    (⟨start, stop, index⟩ : SlotRange).isApart t = true := by
  rw [SlotRange.isApart_iff] at h ⊢
  rintro l i ⟨⟨hindex, hstart, hstop⟩, hholds⟩
  exact h l i ⟨⟨hindex, hstart, Nat.lt_of_lt_of_le hstop hle⟩, hholds⟩

/-- What can be claimed of a range is a part of it. -/
theorem holds_of_holds_claimable {taken : List SlotRange} {r : SlotRange} {location index : Nat}
    (h : (claimable taken r).Holds location index) : r.Holds location index := by
  obtain ⟨hindex, hstart, hstop⟩ := h
  refine ⟨hindex, hstart, ?_⟩
  cases hfirst : firstTaken? taken r with
  | none => rwa [claimable_of_firstTaken?_eq_none hfirst] at hstop
  | some first =>
    obtain ⟨t, -, hshared⟩ := List.mem_filterMap.1 (List.min?_eq_some_iff.1 hfirst).1
    have hbound := (SlotRange.firstShared?_eq_some hshared).1.2.2
    rw [claimable, hfirst, Option.getD_some] at hstop
    exact Nat.lt_trans hstop hbound

/-! ## The lowest free range -/

theorem lowestFree_le_of_mem {taken : List SlotRange} {next count start : Nat}
    (hmem : start ∈ next :: taken.map (·.stop)) (hle : next ≤ start)
    (hfree : ∀ t ∈ taken, (⟨start, start + count, 0⟩ : SlotRange).isApart t = true) :
    lowestFree taken next count ≤ start := by
  have hstart : start ∈ (next :: taken.map (·.stop)).filter fun start =>
      next ≤ start && isFree taken ⟨start, start + count, 0⟩ := by
    rw [List.mem_filter, Bool.and_eq_true, isFree, List.all_eq_true]
    exact ⟨hmem, decide_eq_true hle, hfree⟩
  rw [lowestFree]
  cases hmin : ((next :: taken.map (·.stop)).filter fun start =>
      next ≤ start && isFree taken ⟨start, start + count, 0⟩).min? with
  | none =>
    rw [List.min?_eq_none_iff] at hmin
    rw [hmin] at hstart
    cases hstart
  | some least => exact (List.min?_eq_some_iff.1 hmin).2 start hstart

/-- No free range starts between the place from which it is searched and the lowest one. -/
theorem lowestFree_le {taken : List SlotRange} {next count start : Nat} (hle : next ≤ start)
    (hfree : ∀ t ∈ taken, (⟨start, start + count, 0⟩ : SlotRange).isApart t = true) :
    lowestFree taken next count ≤ start := by
  induction start with
  | zero => exact lowestFree_le_of_mem (by simp [Nat.le_zero.1 hle]) hle hfree
  | succ start ih =>
    rcases Nat.lt_or_eq_of_le hle with hlt | rfl
    · by_cases hearlier : ∀ t ∈ taken, (⟨start, start + count, 0⟩ : SlotRange).isApart t = true
      · exact Nat.le_succ_of_le (ih (Nat.le_of_lt_succ hlt) hearlier)
      · -- what is in the way one place earlier ends here
        push Not at hearlier
        obtain ⟨t, ht, hmeets⟩ := hearlier
        have hapart := SlotRange.isApart_iff.1 (hfree t ht)
        rw [Ne, SlotRange.isApart_iff] at hmeets
        push Not at hmeets
        obtain ⟨location, index, ⟨hindex, hstart, hstop⟩, hindex', hstart', hstop'⟩ := hmeets
        simp only at hstart hstop
        have hclear : ∀ l, start + 1 ≤ l → l < start + 1 + count → t.start ≤ l → t.stop ≤ l :=
          fun l hl hlt htl => Nat.le_of_not_lt fun hlt' =>
            hapart l index ⟨⟨hindex, hl, hlt⟩, hindex', htl, hlt'⟩
        have hlocation : location = start := by
          have := hclear location
          omega
        have hend : t.stop = start + 1 := by
          have := hclear (start + 1)
          omega
        exact lowestFree_le_of_mem (hend ▸ List.mem_cons_of_mem _ (List.mem_map_of_mem ht)) hle
          hfree
    · exact lowestFree_le_of_mem List.mem_cons_self hle hfree

/-! ## Filling in turn -/

variable {pending : List (InterfaceVariable × Nat)} {taken : List SlotRange} {next : Nat}
  {starts : List Nat}

/-- The first variable is put at the lowest free range, and the rest behind it. -/
theorem fill_cons_eq_ok {v : InterfaceVariable × Nat}
    (h : fill taken next ((v :: pending).map (·.1.room)) = .ok starts) :
    ∃ start rest, start = lowestFree taken next v.1.room ∧ starts = start :: rest ∧
      fill (taken ++ [⟨start, start + v.1.room, 0⟩]) (start + v.1.room)
        (pending.map (·.1.room)) = .ok rest := by
  obtain ⟨stop, hstop, h⟩ := bind_eq_ok_iff.1 h
  obtain ⟨rfl, -⟩ := Word.add_eq_ok_iff.1 hstop
  obtain ⟨rest, hrest, h⟩ := bind_eq_ok_iff.1 h
  cases h
  exact ⟨_, rest, rfl, rfl, hrest⟩

/-- Every variable is put behind the one before it. -/
theorem fill_inTurn (h : fill taken next (pending.map (·.1.room)) = .ok starts) :
    (∀ p ∈ pending.zip starts, next ≤ p.2) ∧
      (pending.zip starts).Pairwise fun q p => q.2 + q.1.1.room ≤ p.2 := by
  induction pending generalizing taken next starts with
  | nil => simp
  | cons v rest ih =>
    obtain ⟨start, others, hstart, rfl, hothers⟩ := fill_cons_eq_ok h
    obtain ⟨hbehind, hpairwise⟩ := ih hothers
    have hnext : next ≤ start := hstart ▸ (lowestFree_spec taken next v.1.room).1
    rw [List.zip_cons_cons]
    refine ⟨List.forall_mem_cons.2 ⟨hnext, fun p hp => ?_⟩,
      List.pairwise_cons.2 ⟨hbehind, hpairwise⟩⟩
    exact Nat.le_trans (Nat.le_trans hnext (Nat.le_add_right _ _)) (hbehind p hp)

/-- A variable is put no further back than a place where it meets neither what is set aside nor a
variable before it, unless one of those before it takes more room and is put behind that place. -/
theorem exists_wider_of_gap (h : fill taken next (pending.map (·.1.room)) = .ok starts)
    {before after : List Placing} {p : Placing} (hsplit : pending.zip starts = before ++ p :: after)
    {k : Nat} (hk : next ≤ k)
    (hfree : ∀ t ∈ taken, (⟨k, k + p.1.1.room, 0⟩ : SlotRange).isApart t = true)
    (hgap : ∀ q ∈ before, q.2 + q.1.1.room ≤ k ∨ k + p.1.1.room ≤ q.2) :
    p.2 ≤ k ∨ ∃ q ∈ before, p.1.1.room < q.1.1.room ∧ k + p.1.1.room ≤ q.2 := by
  induction pending generalizing taken next starts before with
  | nil => simp at hsplit
  | cons v rest ih =>
    obtain ⟨start, others, hstart, rfl, hothers⟩ := fill_cons_eq_ok h
    rw [List.zip_cons_cons] at hsplit
    cases before with
    | nil =>
      cases hsplit
      exact .inl (hstart ▸ lowestFree_le hk hfree)
    | cons q before =>
      rw [List.cons_append, List.cons.injEq] at hsplit
      obtain ⟨rfl, hsplit⟩ := hsplit
      rcases hgap _ List.mem_cons_self with hbehind | hfront
      · have hfree' : ∀ t ∈ taken ++ [⟨start, start + v.1.room, 0⟩],
            (⟨k, k + p.1.1.room, 0⟩ : SlotRange).isApart t = true := by
          intro t ht
          rcases List.mem_append.1 ht with ht | ht
          · exact hfree t ht
          · cases List.mem_singleton.1 ht
            exact SlotRange.isApart_of_stop_le hbehind
        refine (ih hothers hsplit hbehind hfree' fun q hq =>
          hgap q (List.mem_cons_of_mem _ hq)).imp_right ?_
        rintro ⟨q, hq, hwider⟩
        exact ⟨q, List.mem_cons_of_mem _ hq, hwider⟩
      · -- the first variable would have been put at the place itself if there were room for it
        refine .inr ⟨_, List.mem_cons_self, ?_, hfront⟩
        by_contra hnarrow
        have hle : start ≤ k := hstart ▸ lowestFree_le hk fun t ht =>
          SlotRange.isApart_of_le (Nat.add_le_add_left (Nat.not_lt.1 hnarrow) k) (hfree t ht)
        have hroom := p.1.1.room_pos
        simp only at hfront
        omega

/-! ## What is set aside -/

/-- What is set aside are slots of the variables with explicit locations. -/
theorem ExplicitLocations.exists_of_setAside {e e' : ExplicitLocations}
    (h : setAside e vs = .ok e') {t : SlotRange} (ht : t ∈ e'.taken) :
    t ∈ e.taken ∨ ∃ v ∈ vs, ∃ start, v.location = some start ∧
      ∀ location index, t.Holds location index → (v.slotsAt start).Holds location index := by
  induction vs generalizing e with
  | nil =>
    cases h
    exact .inl ht
  | cons v rest ih =>
    cases hlocation : v.location with
    | none =>
      rw [setAside, hlocation] at h
      refine (ih h).imp_right ?_
      rintro ⟨u, hu, hslots⟩
      exact ⟨u, List.mem_cons_of_mem _ hu, hslots⟩
    | some start =>
      rcases ih (setAside_claim hlocation h) with ht | ⟨u, hu, hslots⟩
      · rcases List.mem_append.1 ht with ht | ht
        · exact .inl ht
        · cases List.mem_singleton.1 ht
          exact .inr ⟨v, List.mem_cons_self, start, hlocation, fun _ _ => holds_of_holds_claimable⟩
      · exact .inr ⟨u, List.mem_cons_of_mem _ hu, hslots⟩

/-! ## Placings that were filled in -/

/-- Placings of a direction whose automatic part was filled in, one variable after the other. -/
structure FillsInTurn (order : LocationOrder) (ps : List Placing) (taken : List SlotRange)
    (pending : List (InterfaceVariable × Nat)) (starts : List Nat) : Prop where
  filled : fill taken 0 (pending.map (·.1.room)) = .ok starts
  turns : (pending.zip starts).Pairwise fun q p => order.TurnBefore q.1 p.1
  mem_iff : ∀ p, p ∈ pending.zip starts ↔ p ∈ ps ∧ p.1.1.location = none
  aside : ∀ t ∈ taken, ∃ q ∈ ps, q.1.1.location.isSome = true ∧
    ∀ location index, t.Holds location index → (q.1.1.slotsAt q.2).Holds location index

/-- A plan fills its placings in. -/
theorem LocationPlan.exists_fillsInTurn {plan : LocationPlan}
    (h : LocationPlan.of order direction vs = .ok plan) :
    ∃ ps taken pending starts, plan.Serves direction vs ps ∧
      FillsInTurn order ps taken pending starts := by
  obtain ⟨e, starts, haside, hstarts, hfindings, hplaced⟩ := LocationPlan.of_eq_ok_iff.1 h
  have hserves := LocationPlan.serves_placings haside hstarts hfindings hplaced
  refine ⟨_, e.taken, _, starts, hserves, hstarts, ?_, fun p => ?_, fun t ht => ?_⟩
  · have hlength := (fill_spec hstarts).1
    rw [List.length_map] at hlength
    have hturns : (pendingVariables order direction vs).Pairwise order.TurnBefore :=
      pairwise_pendingVariables
    rw [← List.map_fst_zip (Nat.le_of_eq hlength.symm)] at hturns
    exact List.pairwise_map.1 hturns
  · rw [mem_placings_iff]
    constructor
    · exact fun hp => ⟨.inr hp, location_of_mem_pendingVariables (List.of_mem_zip hp).1⟩
    · rintro ⟨⟨-, hsome⟩ | hp, hnone⟩
      · cases hsome.symm.trans hnone
      · exact hp
  · rcases ExplicitLocations.exists_of_setAside haside ht with ht | ⟨v, hv, start, hstart, hslots⟩
    · cases ht
    · obtain ⟨u, hu, rfl⟩ := List.mem_map.1 hv
      exact ⟨(u, start), mem_placings_iff.2 (.inl ⟨hu, hstart⟩), by rw [hstart]; rfl, hslots⟩

namespace FillsInTurn

variable {ps : List Placing} {p q : Placing}

/-- A variable is put behind those that had their turns before. -/
theorem behind (h : FillsInTurn order ps taken pending starts) (hq : q ∈ ps)
    (hqnone : q.1.1.location = none) (hp : p ∈ ps) (hpnone : p.1.1.location = none)
    (hturn : order.TurnBefore q.1 p.1) : q.2 + q.1.1.room ≤ p.2 := by
  obtain ⟨i, hi, rfl⟩ := List.mem_iff_getElem.1 ((h.mem_iff q).2 ⟨hq, hqnone⟩)
  obtain ⟨j, hj, rfl⟩ := List.mem_iff_getElem.1 ((h.mem_iff p).2 ⟨hp, hpnone⟩)
  rcases Nat.lt_trichotomy i j with hlt | rfl | hlt
  · exact List.pairwise_iff_getElem.1 (fill_inTurn h.filled).2 i j hi hj hlt
  · exact absurd hturn hturn.asymm
  · exact absurd (List.pairwise_iff_getElem.1 h.turns j i hj hi hlt) hturn.asymm

/-- A variable is put no further back than a place that is free in its turn, unless one that had its
turn before takes more room and is put behind that place. -/
theorem exists_wider (h : FillsInTurn order ps taken pending starts) (hp : p ∈ ps)
    (hnone : p.1.1.location = none) {k : Nat}
    (hfree : ∀ q ∈ ps, q.1.1.location.isSome = true ∨ order.TurnBefore q.1 p.1 →
      q.2 + q.1.1.room ≤ k ∨ k + p.1.1.room ≤ q.2) :
    p.2 ≤ k ∨ ∃ q ∈ ps, q.1.1.location = none ∧ order.TurnBefore q.1 p.1 ∧
      p.1.1.room < q.1.1.room ∧ k + p.1.1.room ≤ q.2 := by
  obtain ⟨before, after, hsplit⟩ := List.append_of_mem ((h.mem_iff p).2 ⟨hp, hnone⟩)
  have hbefore : ∀ q ∈ before,
      (q ∈ ps ∧ q.1.1.location = none) ∧ order.TurnBefore q.1 p.1 := fun q hq => by
    have hturns := h.turns
    rw [hsplit, List.pairwise_append] at hturns
    exact ⟨(h.mem_iff q).1 (hsplit ▸ List.mem_append_left _ hq),
      hturns.2.2 q hq p List.mem_cons_self⟩
  have hapart : ∀ t ∈ taken, (⟨k, k + p.1.1.room, 0⟩ : SlotRange).isApart t = true := by
    intro t ht
    obtain ⟨q, hq, hsome, hslots⟩ := h.aside t ht
    rw [SlotRange.isApart_iff]
    rintro l i ⟨⟨-, hstart, hstop⟩, hholds⟩
    obtain ⟨-, hstart', hstop'⟩ := hslots l i hholds
    have hmeets := hfree q hq (.inl hsome)
    simp only [InterfaceVariable.slotsAt] at hstart hstop hstart' hstop'
    omega
  refine (exists_wider_of_gap h.filled hsplit (Nat.zero_le k) hapart fun q hq =>
    hfree q (hbefore q hq).1.1 (.inr (hbefore q hq).2)).imp_right ?_
  rintro ⟨q, hq, hwider⟩
  exact ⟨q, (hbefore q hq).1.1, (hbefore q hq).1.2, (hbefore q hq).2, hwider⟩

end FillsInTurn

end ShaderLowering
