import Mathlib.Algebra.GroupWithZero.Nat
import Mathlib.Data.List.Find
import ShaderLowering.Proofs.Interface.Filling
import ShaderLowering.Proofs.Interface.Linkage

/-!
# First fit, slot by slot

Locations can be given out by loops over single slots.  An explicit location takes its slots one
after the other, up to the first that is taken (`takeFrom`).  A variable without a location is put
where the cursor stands as soon as all locations that it needs are free there; else the cursor moves
on by one (`search`).  A sum that is no word breaks the loops off.

These loops give out what the plan gives out and break off where it does (`plan_eq`).  They do not
break off, and no range ends far behind the explicit ones, if all that is asked for fits in words
(`fill_of_room`): whatever is taken so far ends at or below a bound that grows by the room of
one variable in each turn, and so does the cursor.
-/

namespace ShaderLowering

open Source (Position)

/-- The slots of a variable are set aside as far as they are free. -/
theorem ExplicitLocations.setAside_cons {e : ExplicitLocations} {v : InterfaceVariable}
    {rest : List InterfaceVariable} {start : Nat} (hlocation : v.location = some start)
    (hlt : start + v.room < Word.bound) :
    setAside e (v :: rest) = setAside (e.claim v start) rest := by
  have hstop : Word.add start v.room = .ok (start + v.room) := Word.add_eq_ok_iff.2 ⟨rfl, hlt⟩
  rw [setAside, hlocation]
  dsimp only
  rw [hstop]
  rfl

namespace FirstFit

/-- A location of a blend source. -/
abbrev Slot := Nat × Nat

/-- Takes locations of a blend source one after the other, up to the first that is taken already,
which is answered. -/
def takeFrom (used : List Slot) (index : Nat) : List Nat → List Slot × Option Nat
  | [] => (used, none)
  | location :: rest =>
    if (location, index) ∈ used then (used, some location)
    else takeFrom ((location, index) :: used) index rest

/-- What is reported of a variable whose locations are taken one by one. -/
def metBy (v : InterfaceVariable) (met : Option Nat) : List (Finding × Position) :=
  met.toList.map fun location => (.locationTaken location, v.position)

/-- Takes the explicit locations of variables, and says where one was taken already. -/
def takeExplicit : List Slot → List InterfaceVariable →
    Checked (List Slot × List (Finding × Position))
  | used, [] => .ok (used, [])
  | used, v :: rest =>
    match v.location with
    | none => takeExplicit used rest
    | some start => do
      let _ ← Word.add start v.room
      let (used, met) := takeFrom used (v.index.getD 0) (List.range' start v.room)
      let (used, findings) ← takeExplicit used rest
      return (used, metBy v met ++ findings)

/-- The first place at or after the cursor `next` where `count` locations are free. -/
def search (used : List Slot) (count next : Nat) : Checked Nat :=
  if next + count < Word.bound then
    if (List.range' next count).any fun location => (location, 0) ∈ used then
      search used count (next + 1)
    else .ok next
  else .error .overflow
termination_by Word.bound - next

/-- The places of variables that take the locations they find, in turn. -/
def placeAll : List Slot → Nat → List Nat → Checked (List Nat)
  | _, _, [] => .ok []
  | used, next, count :: rest => do
    let start ← search used count next
    let stop ← Word.add start count
    return start ::
      (← placeAll (used ++ (List.range' start count).map (·, 0)) stop rest)

/-- The plan for the variables of one direction. -/
def plan (order : LocationOrder) (direction : Direction) (vs : List InterfaceVariable) :
    Checked LocationPlan := do
  let located := locatedVariables direction vs
  let (used, findings) ← takeExplicit [] (located.map (·.1))
  let pending := pendingVariables order direction vs
  let starts ← placeAll used 0 (pending.map (·.1.room))
  return {
    findings
    placed := (located.filterMap fun v => v.1.location.map (v.2, ·))
      ++ List.zipWith (fun v start => (v.2, start)) pending starts }

/-! ## Slots and ranges -/

/-- Slots are the ones that ranges hold. -/
def Covers (used : List Slot) (taken : List SlotRange) : Prop :=
  ∀ location index, (location, index) ∈ used ↔ ∃ t ∈ taken, t.Holds location index

variable {used : List Slot} {taken : List SlotRange}

theorem Covers.mem_iff (h : Covers used taken) {location index : Nat} :
    (location, index) ∈ used ↔ ∃ t ∈ taken, t.Holds location index := h location index

theorem covers_nil : Covers [] [] := by
  simp [Covers]

/-- A range is free if no slot of it is taken. -/
theorem Covers.isFree_iff (h : Covers used taken) (next count : Nat) :
    (∀ t ∈ taken, (⟨next, next + count, 0⟩ : SlotRange).isApart t = true) ↔
      ((List.range' next count).any fun location => (location, 0) ∈ used) = false := by
  simp only [SlotRange.isApart_iff, List.any_eq_false, List.mem_range'_1, decide_eq_true_eq,
    h.mem_iff]
  constructor
  · rintro hapart l ⟨hstart, hstop⟩ ⟨t, ht, hholds⟩
    exact hapart t ht l 0 ⟨⟨rfl, hstart, hstop⟩, hholds⟩
  · rintro hnone t ht l i ⟨⟨hindex, hstart, hstop⟩, hholds⟩
    cases hindex
    exact hnone l ⟨hstart, hstop⟩ ⟨t, ht, hholds⟩

theorem Covers.append_range (h : Covers used taken) (start count index : Nat) :
    Covers (used ++ (List.range' start count).map (·, index))
      (taken ++ [⟨start, start + count, index⟩]) := by
  intro l i
  rw [List.mem_append, h]
  simp only [List.mem_append, List.mem_singleton, List.mem_map, List.mem_range'_1,
    SlotRange.Holds, Prod.mk.injEq, or_and_right, exists_or, exists_eq_left]
  refine or_congr_right ⟨?_, ?_⟩
  · rintro ⟨m, ⟨hstart, hstop⟩, rfl, rfl⟩
    exact ⟨rfl, hstart, hstop⟩
  · rintro ⟨rfl, hstart, hstop⟩
    exact ⟨l, ⟨hstart, hstop⟩, rfl, rfl⟩

/-! ## Explicit locations -/

/-- Ascending locations are taken up to the first that is taken already. -/
theorem takeFrom_spec (index : Nat) {locations : List Nat} (h : locations.Pairwise (· < ·))
    (used : List Slot) :
    (takeFrom used index locations).2 = locations.find? (fun l => (l, index) ∈ used) ∧
      ∀ slot, slot ∈ (takeFrom used index locations).1 ↔ slot ∈ used ∨
        ∃ l ∈ locations, slot = (l, index) ∧ ∀ m ∈ locations, (m, index) ∈ used → l < m := by
  induction locations generalizing used with
  | nil => simp [takeFrom]
  | cons location rest ih =>
    obtain ⟨hleast, hrest⟩ := List.pairwise_cons.1 h
    rw [takeFrom]
    split
    · rename_i htaken
      refine ⟨by simp [htaken], fun slot => ⟨.inl, ?_⟩⟩
      rintro (hslot | ⟨l, hl, -, hbefore⟩)
      · exact hslot
      · have hlt := hbefore location List.mem_cons_self htaken
        rcases List.mem_cons.1 hl with rfl | hl
        · exact absurd hlt (Nat.lt_irrefl _)
        · exact absurd hlt (Nat.lt_asymm (hleast l hl))
    · rename_i hfree
      obtain ⟨hfound, hslots⟩ := ih hrest ((location, index) :: used)
      -- the slot that was taken just now is none of the later ones
      have hlater : ∀ m ∈ rest, ((m, index) ∈ (location, index) :: used ↔ (m, index) ∈ used) := by
        intro m hm
        have hne : m ≠ location := Nat.ne_of_gt (hleast m hm)
        simp [hne]
      constructor
      · rw [hfound, List.find?_cons_of_neg (by simpa using hfree)]
        exact List.find?_congr fun m hm => by simp only [hlater m hm]
      · intro slot
        rw [hslots, List.mem_cons]
        constructor
        · rintro ((rfl | hslot) | ⟨l, hl, rfl, hbefore⟩)
          · refine .inr ⟨location, List.mem_cons_self, rfl, fun m hm htaken => ?_⟩
            rcases List.mem_cons.1 hm with rfl | hm
            · exact absurd htaken hfree
            · exact hleast m hm
          · exact .inl hslot
          · refine .inr ⟨l, List.mem_cons_of_mem _ hl, rfl, fun m hm htaken => ?_⟩
            rcases List.mem_cons.1 hm with rfl | hm
            · exact absurd htaken hfree
            · exact hbefore m hm ((hlater m hm).2 htaken)
        · rintro (hslot | ⟨l, hl, rfl, hbefore⟩)
          · exact .inl (.inr hslot)
          · rcases List.mem_cons.1 hl with rfl | hl
            · exact .inl (.inl rfl)
            · exact .inr ⟨l, hl, rfl, fun m hm htaken =>
                hbefore m (List.mem_cons_of_mem _ hm) ((hlater m hm).1 htaken)⟩

/-- The first taken location of a range is the least one that it shares with a taken range. -/
theorem firstTaken?_eq_some {r : SlotRange} {first : Nat} (h : firstTaken? taken r = some first) :
    r.Holds first r.index ∧ (∃ t ∈ taken, t.Holds first r.index) ∧
      ∀ l, r.Holds l r.index → (∃ t ∈ taken, t.Holds l r.index) → first ≤ l := by
  obtain ⟨hmem, hle⟩ := List.min?_eq_some_iff.1 h
  obtain ⟨t, ht, hshared⟩ := List.mem_filterMap.1 hmem
  obtain ⟨hholds, hholds', -⟩ := SlotRange.firstShared?_eq_some hshared
  refine ⟨hholds, ⟨t, ht, hholds'⟩, ?_⟩
  rintro l hl ⟨u, hu, hul⟩
  cases hother : r.firstShared? u with
  | none =>
    have hapart : r.isApart u = true := by rw [SlotRange.isApart, hother, Option.isNone_none]
    exact absurd ⟨hl, hul⟩ (SlotRange.isApart_iff.1 hapart l r.index)
  | some m =>
    exact Nat.le_trans (hle m (List.mem_filterMap.2 ⟨u, hu, hother⟩))
      ((SlotRange.firstShared?_eq_some hother).2.2 l hl hul)

/-- What can be claimed of a range lies before every taken location of it. -/
theorem holds_claimable_iff {r : SlotRange} {location index : Nat} :
    (claimable taken r).Holds location index ↔ r.Holds location index ∧
      ∀ l, r.Holds l r.index → (∃ t ∈ taken, t.Holds l r.index) → location < l := by
  cases hfirst : firstTaken? taken r with
  | none =>
    rw [claimable_of_firstTaken?_eq_none hfirst]
    refine (and_iff_left ?_).symm
    rintro l hl ⟨t, ht, htl⟩
    exact absurd ⟨hl, htl⟩ (SlotRange.isApart_iff.1 (firstTaken?_eq_none_iff.1 hfirst t ht) l _)
  | some first =>
    obtain ⟨hholds, htaken, hleast⟩ := firstTaken?_eq_some hfirst
    rw [claimable, hfirst, Option.getD_some]
    constructor
    · rintro ⟨hindex, hstart, hlt⟩
      exact ⟨⟨hindex, hstart, Nat.lt_trans hlt hholds.2.2⟩, fun l hl ht =>
        Nat.lt_of_lt_of_le hlt (hleast l hl ht)⟩
    · rintro ⟨⟨hindex, hstart, -⟩, hbefore⟩
      exact ⟨hindex, hstart, hbefore first hholds htaken⟩

/-- Slot by slot a range is taken as far as it can be claimed. -/
theorem Covers.takeFrom (h : Covers used taken) (start count index : Nat) :
    (takeFrom used index (List.range' start count)).2 =
        firstTaken? taken ⟨start, start + count, index⟩ ∧
      Covers (takeFrom used index (List.range' start count)).1
        (taken ++ [claimable taken ⟨start, start + count, index⟩]) := by
  obtain ⟨hfound, hslots⟩ :=
    takeFrom_spec index (List.pairwise_lt_range' (s := start) (n := count)) used
  constructor
  · rw [hfound]
    cases hfirst : firstTaken? taken ⟨start, start + count, index⟩ with
    | none =>
      rw [List.find?_range'_eq_none]
      intro l hstart hstop
      have hnone : (l, index) ∉ used := by
        rw [h.mem_iff]
        rintro ⟨t, ht, hholds⟩
        exact SlotRange.isApart_iff.1 (firstTaken?_eq_none_iff.1 hfirst t ht) l index
          ⟨⟨rfl, hstart, hstop⟩, hholds⟩
      simpa using hnone
    | some first =>
      obtain ⟨⟨-, hstart, hstop⟩, htaken, hleast⟩ := firstTaken?_eq_some hfirst
      rw [List.find?_range'_eq_some]
      refine ⟨decide_eq_true (h.mem_iff.2 htaken), List.mem_range'_1.2 ⟨hstart, hstop⟩,
        fun l hl hlt => ?_⟩
      have hnone : (l, index) ∉ used := fun hmem =>
        absurd (hleast l ⟨rfl, hl, Nat.lt_trans hlt hstop⟩ (h.mem_iff.1 hmem)) (Nat.not_le.2 hlt)
      simpa using hnone
  · intro l i
    simp only [hslots, h.mem_iff, List.mem_append, List.mem_singleton, or_and_right, exists_or,
      exists_eq_left, holds_claimable_iff, List.mem_range'_1, Prod.mk.injEq]
    refine or_congr_right ⟨?_, ?_⟩
    · rintro ⟨m, ⟨hstart, hstop⟩, ⟨rfl, rfl⟩, hbefore⟩
      exact ⟨⟨rfl, hstart, hstop⟩, fun k hk => hbefore k hk.2⟩
    · rintro ⟨⟨rfl, hstart, hstop⟩, hbefore⟩
      exact ⟨l, ⟨hstart, hstop⟩, ⟨rfl, rfl⟩, fun k hk => hbefore k ⟨rfl, hk⟩⟩

theorem takeExplicit_cons {v : InterfaceVariable} {start : Nat} (rest : List InterfaceVariable)
    (hlocation : v.location = some start) (hlt : start + v.room < Word.bound) :
    takeExplicit used (v :: rest) =
      (fun p => (p.1, metBy v (takeFrom used (v.index.getD 0) (List.range' start v.room)).2 ++ p.2))
        <$> takeExplicit (takeFrom used (v.index.getD 0) (List.range' start v.room)).1 rest := by
  have hstop : Word.add start v.room = .ok (start + v.room) := Word.add_eq_ok_iff.2 ⟨rfl, hlt⟩
  rw [takeExplicit, hlocation]
  dsimp only
  rw [hstop]
  rfl

/-- Explicit locations are taken, or it breaks off, as they are set aside. -/
theorem Covers.takeExplicit {e : ExplicitLocations} (h : Covers used e.taken)
    (vs : List InterfaceVariable) :
    (∃ e' used' findings, setAside e vs = .ok e' ∧ takeExplicit used vs = .ok (used', findings) ∧
      Covers used' e'.taken ∧ e'.findings = e.findings ++ findings) ∨
    (setAside e vs = .error .overflow ∧ takeExplicit used vs = .error .overflow) := by
  -- on the variables, for any slots that were taken before
  induction vs generalizing used e with
  | nil => exact .inl ⟨e, used, [], rfl, rfl, h, (List.append_nil _).symm⟩
  | cons v rest ih =>
    cases hlocation : v.location with
    | none =>
      rw [setAside, FirstFit.takeExplicit, hlocation]
      exact ih h
    | some start =>
      by_cases hlt : start + v.room < Word.bound
      · obtain ⟨hfound, hcovers⟩ := h.takeFrom start v.room (v.index.getD 0)
        have hmet : (e.claim v start).findings = e.findings ++
            metBy v (FirstFit.takeFrom used (v.index.getD 0) (List.range' start v.room)).2 := by
          rw [ExplicitLocations.claim, hfound, metBy, InterfaceVariable.slotsAt]
          cases firstTaken? e.taken ⟨start, start + v.room, v.index.getD 0⟩ <;> rfl
        rw [ExplicitLocations.setAside_cons hlocation hlt, takeExplicit_cons rest hlocation hlt]
        rcases ih (e := e.claim v start) hcovers with
          ⟨e', used', findings, haside, htake, hcovers, hfindings⟩ | ⟨haside, htake⟩
        · refine .inl ⟨e', used', _, haside, by rw [htake]; rfl, hcovers, ?_⟩
          rw [hfindings, hmet, List.append_assoc]
        · exact .inr ⟨haside, by rw [htake]; rfl⟩
      · -- a range that does not end in a word stops both
        have hstop : Word.add start v.room = .error .overflow := if_neg hlt
        refine .inr ⟨?_, ?_⟩
        · rw [setAside, hlocation]
          dsimp only
          rw [hstop]
          rfl
        · rw [FirstFit.takeExplicit, hlocation]
          dsimp only
          rw [hstop]
          rfl

/-! ## Automatic locations -/

/-- Where the range at the cursor is not free, the lowest free one lies behind it. -/
theorem lowestFree_succ {next count : Nat}
    (h : ¬∀ t ∈ taken, (⟨next, next + count, 0⟩ : SlotRange).isApart t = true) :
    lowestFree taken (next + 1) count = lowestFree taken next count := by
  obtain ⟨hle, hfree⟩ := lowestFree_spec taken next count
  obtain ⟨hle', hfree'⟩ := lowestFree_spec taken (next + 1) count
  have hne : lowestFree taken next count ≠ next := fun heq => h (by rwa [heq] at hfree)
  refine Nat.le_antisymm (lowestFree_le ?_ hfree) (lowestFree_le ?_ hfree')
  · omega
  · omega

theorem lowestFree_of_free {next count : Nat}
    (h : ∀ t ∈ taken, (⟨next, next + count, 0⟩ : SlotRange).isApart t = true) :
    lowestFree taken next count = next :=
  Nat.le_antisymm (lowestFree_le (Nat.le_refl next) h) (lowestFree_spec taken next count).1

/-- The search finds the lowest free place, unless the range there does not end in a word. -/
theorem Covers.search (h : Covers used taken) (count next : Nat) :
    search used count next =
      if lowestFree taken next count + count < Word.bound then .ok (lowestFree taken next count)
      else .error .overflow := by
  induction next using search.induct used count with
  | case1 next hword htaken ih =>
    have hmeets : ¬∀ t ∈ taken, (⟨next, next + count, 0⟩ : SlotRange).isApart t = true := by
      rw [h.isFree_iff, htaken]
      decide
    rw [FirstFit.search, if_pos hword, if_pos htaken, ih, lowestFree_succ hmeets]
  | case2 next hword hfree =>
    have hnext := lowestFree_of_free ((h.isFree_iff next count).2 (Bool.eq_false_iff.2 hfree))
    rw [FirstFit.search, if_pos hword, if_neg hfree, hnext, if_pos hword]
  | case3 next hword =>
    have hle := (lowestFree_spec taken next count).1
    rw [FirstFit.search, if_neg hword, if_neg (by omega)]

/-- The loops place variables where the plan fills them in. -/
theorem Covers.placeAll (h : Covers used taken) (counts : List Nat) (next : Nat) :
    placeAll used next counts = fill taken next counts := by
  induction counts generalizing used taken next with
  | nil => rfl
  | cons count rest ih =>
    rw [FirstFit.placeAll, fill, h.search]
    by_cases hlt : lowestFree taken next count + count < Word.bound
    · have hstop := Word.add_eq_ok_iff.2 ⟨rfl, hlt⟩
      have hrest := ih (h.append_range (lowestFree taken next count) count 0)
        (lowestFree taken next count + count)
      rw [if_pos hlt]
      dsimp only [bind, Except.bind]
      rw [hstop]
      dsimp only
      rw [hrest]
    · have hstop : Word.add (lowestFree taken next count) count = .error .overflow := if_neg hlt
      rw [if_neg hlt]
      dsimp only [bind, Except.bind]
      rw [hstop]

/-- The loops make the plan, and break off exactly where there is none. -/
theorem plan_eq (order : LocationOrder) (direction : Direction) (vs : List InterfaceVariable) :
    plan order direction vs = LocationPlan.of order direction vs := by
  rw [plan, LocationPlan.of]
  rcases covers_nil.takeExplicit (e := {}) ((locatedVariables direction vs).map (·.1)) with
    ⟨e, used, findings, haside, htake, hcovers, hfindings⟩ | ⟨haside, htake⟩
  · rw [List.nil_append] at hfindings
    dsimp only
    rw [haside, htake]
    dsimp only [bind, Except.bind]
    rw [hcovers.placeAll, hfindings]
    rfl
  · dsimp only
    rw [haside, htake]
    rfl

/-- The loops break off for one reason only. -/
theorem exists_plan_or_overflow (order : LocationOrder) (direction : Direction)
    (vs : List InterfaceVariable) :
    (∃ p, plan order direction vs = .ok p) ∨ plan order direction vs = .error .overflow := by
  rw [plan_eq]
  cases hplan : LocationPlan.of order direction vs with
  | ok p => exact .inl ⟨p, rfl⟩
  | error f => exact .inr (by rw [LocationPlan.eq_overflow_of hplan])

/-! ## Room -/

/-- All that is taken lies before a place. -/
def Before (taken : List SlotRange) (place : Nat) : Prop :=
  ∀ t ∈ taken, ∀ location index, t.Holds location index → location < place

/-- A place behind all that is taken is free, so the lowest free one is no further back. -/
theorem Before.lowestFree_le {place next count : Nat} (h : Before taken place)
    (hnext : next ≤ place) : lowestFree taken next count ≤ place := by
  refine ShaderLowering.lowestFree_le hnext fun t ht => ?_
  rw [SlotRange.isApart_iff]
  rintro l i ⟨⟨-, hstart, -⟩, hholds⟩
  exact absurd (h t ht l i hholds) (Nat.not_lt.2 hstart)

theorem Before.append_range {place start count : Nat} (h : Before taken place)
    (hstart : start ≤ place) :
    Before (taken ++ [⟨start, start + count, 0⟩]) (place + count) := by
  intro t ht l i hholds
  rcases List.mem_append.1 ht with ht | ht
  · exact Nat.lt_of_lt_of_le (h t ht l i hholds) (Nat.le_add_right place count)
  · cases List.mem_singleton.1 ht
    exact Nat.lt_of_lt_of_le hholds.2.2 (Nat.add_le_add_right hstart count)

/-- With room for all variables behind what is taken, every variable is placed.  None ends further
back than this room reaches with it and those that had their turns before. -/
theorem fill_of_room {counts : List Nat} {place next : Nat} (h : Before taken place)
    (hnext : next ≤ place) (hroom : place + counts.sum < Word.bound) :
    ∃ starts, fill taken next counts = .ok starts ∧
      ∀ i start count, starts[i]? = some start → counts[i]? = some count →
        start + count ≤ place + (counts.take (i + 1)).sum := by
  induction counts generalizing taken place next with
  | nil => exact ⟨[], rfl, by simp⟩
  | cons count rest ih =>
    have hstart : lowestFree taken next count ≤ place := h.lowestFree_le hnext
    rw [List.sum_cons, ← Nat.add_assoc] at hroom
    have hstop : Word.add (lowestFree taken next count) count = .ok _ :=
      Word.add_eq_ok_iff.2 ⟨rfl, by omega⟩
    obtain ⟨starts, hrest, hends⟩ := ih (h.append_range hstart)
      (Nat.add_le_add_right hstart count) hroom
    refine ⟨lowestFree taken next count :: starts, ?_, ?_⟩
    · rw [fill]
      dsimp only [bind, Except.bind]
      rw [hstop]
      dsimp only
      rw [hrest]
      rfl
    · rintro (- | i) start' count' hstart' hcount'
      · cases hstart'
        cases hcount'
        simpa using hstart
      · have hend := hends i start' count' hstart' hcount'
        rw [List.take_succ_cons, List.sum_cons]
        omega

/-- The largest end of an explicit range, or zero. -/
def explicitEnd : List InterfaceVariable → Nat
  | [] => 0
  | v :: rest => max ((v.location.map (· + v.room)).getD 0) (explicitEnd rest)

theorem le_explicitEnd {vs : List InterfaceVariable} {v : InterfaceVariable} (hv : v ∈ vs)
    {start : Nat} (h : v.location = some start) : start + v.room ≤ explicitEnd vs := by
  induction vs with
  | nil => cases hv
  | cons u rest ih =>
    rw [explicitEnd]
    rcases List.mem_cons.1 hv with rfl | hv
    · rw [h, Option.map_some, Option.getD_some]
      exact Nat.le_max_left _ _
    · exact Nat.le_trans (ih hv) (Nat.le_max_right _ _)

/-- Explicit ranges that end in words are set aside before their largest end. -/
theorem exists_setAside_of_explicitEnd {vs : List InterfaceVariable}
    (h : explicitEnd vs < Word.bound) :
    ∃ e, setAside {} vs = .ok e ∧ Before e.taken (explicitEnd vs) := by
  obtain ⟨e, haside⟩ : ∃ e, setAside {} vs = .ok e := by
    rw [ExplicitLocations.exists_setAside_iff]
    intro r hr
    obtain ⟨v, hv, hslots⟩ := List.mem_filterMap.1 hr
    obtain ⟨start, hstart, rfl⟩ := Option.map_eq_some_iff.1 hslots
    exact Nat.lt_of_le_of_lt (le_explicitEnd hv hstart) h
  refine ⟨e, haside, fun t ht l i hholds => ?_⟩
  rcases ExplicitLocations.exists_of_setAside haside ht with ht | ⟨v, hv, start, hstart, hslots⟩
  · cases ht
  · exact Nat.lt_of_lt_of_le (hslots l i hholds).2.2 (le_explicitEnd hv hstart)

section

variable {order : LocationOrder} {direction : Direction} {vs : List InterfaceVariable}

theorem explicitEnd_lt (h : ∀ v ∈ vs, ∀ start, v.location = some start →
    start + v.room < Word.bound) : explicitEnd vs < Word.bound := by
  induction vs with
  | nil => decide
  | cons v rest ih =>
    obtain ⟨hfirst, hrest⟩ := List.forall_mem_cons.1 h
    refine Nat.max_lt.2 ⟨?_, ih hrest⟩
    cases hlocation : v.location with
    | none => exact Nat.zero_lt_of_lt (by decide : 0 < Word.bound)
    | some start => exact hfirst start hlocation

/-- Explicit locations are set aside if their ranges end in words, and only then. -/
theorem exists_setAside_iff_explicitEnd :
    (∃ e, setAside {} vs = .ok e) ↔ explicitEnd vs < Word.bound := by
  constructor
  · intro h
    refine explicitEnd_lt fun v hv start hstart => ?_
    exact ExplicitLocations.exists_setAside_iff.1 h (v.slotsAt start)
      (List.mem_filterMap.2 ⟨v, hv, by rw [InterfaceVariable.slots?, hstart, Option.map_some]⟩)
  · intro h
    obtain ⟨e, he, -⟩ := exists_setAside_of_explicitEnd h
    exact ⟨e, he⟩

/-- The room of the variables of a direction that have no explicit location. -/
def pendingRoom (direction : Direction) (vs : List InterfaceVariable) : Nat :=
  ((((locatedVariables direction vs).map (·.1)).filter (·.location.isNone)).map (·.room)).sum

theorem sum_room_pendingVariables :
    ((pendingVariables order direction vs).map (·.1.room)).sum = pendingRoom direction vs := by
  rw [pendingRoom, List.filter_map, List.map_map]
  exact ((fillOrder_perm order _).map _).sum_nat

/-- Explicit ranges that end in words, with room behind them for all other variables, have a plan;
an explicit range that does not end in a word has none. -/
theorem plan_of_room :
    (explicitEnd ((locatedVariables direction vs).map (·.1)) + pendingRoom direction vs
        < Word.bound → ∃ p, plan order direction vs = .ok p) ∧
    (Word.bound ≤ explicitEnd ((locatedVariables direction vs).map (·.1)) →
      plan order direction vs = .error .overflow) := by
  rw [plan_eq]
  constructor
  · intro hroom
    obtain ⟨e, haside, hbefore⟩ := exists_setAside_of_explicitEnd
      (Nat.lt_of_le_of_lt (Nat.le_add_right _ _) hroom)
    rw [← @sum_room_pendingVariables order direction vs] at hroom
    obtain ⟨starts, hfill, -⟩ := fill_of_room hbefore (Nat.zero_le _) hroom
    exact ⟨⟨e.findings, _⟩, LocationPlan.of_eq_ok_iff.2 ⟨e, starts, haside, hfill, rfl, rfl⟩⟩
  · intro hend
    cases hplan : LocationPlan.of order direction vs with
    | error f => rw [LocationPlan.eq_overflow_of hplan]
    | ok p =>
      obtain ⟨e, starts, haside, -⟩ := LocationPlan.of_eq_ok_iff.1 hplan
      exact absurd (exists_setAside_iff_explicitEnd.1 ⟨e, haside⟩) (Nat.not_lt.2 hend)

end

end FirstFit

end ShaderLowering
