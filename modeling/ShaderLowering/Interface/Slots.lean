import ShaderLowering.Word

/-!
# Location slots

A slot is a location together with a blend source.  Variables take consecutive locations of one
blend source, so what is taken is kept as a list of ranges.
-/

namespace ShaderLowering

/-- Consecutive locations from `start` up to `stop`, of one blend source. -/
structure SlotRange where
  start : Nat
  stop : Nat
  index : Nat := 0
deriving DecidableEq, Repr, Inhabited

namespace SlotRange

/-- Whether a range holds a location of a blend source. -/
def Holds (r : SlotRange) (location index : Nat) : Prop :=
  r.index = index ∧ r.start ≤ location ∧ location < r.stop

instance (r : SlotRange) (location index : Nat) : Decidable (r.Holds location index) :=
  inferInstanceAs (Decidable (_ ∧ _))

/-- The first location that two ranges share. -/
def firstShared? (r t : SlotRange) : Option Nat :=
  let first := max r.start t.start
  if r.index = t.index ∧ first < r.stop ∧ first < t.stop then some first else none

/-- Whether two ranges share no slot. -/
def isApart (r t : SlotRange) : Bool := (r.firstShared? t).isNone

theorem firstShared?_eq_some {r t : SlotRange} {location : Nat}
    (h : r.firstShared? t = some location) :
    r.Holds location r.index ∧ t.Holds location r.index ∧
      ∀ l, r.Holds l r.index → t.Holds l r.index → location ≤ l := by
  simp only [firstShared?] at h
  split at h
  · rename_i hc
    cases h
    refine ⟨⟨rfl, by omega, by omega⟩, ⟨by omega, by omega, by omega⟩, ?_⟩
    intro l hr ht
    exact Nat.max_le.2 ⟨hr.2.1, ht.2.1⟩
  · cases h

theorem isApart_iff {r t : SlotRange} :
    r.isApart t = true ↔ ∀ l i, ¬ (r.Holds l i ∧ t.Holds l i) := by
  simp only [isApart, firstShared?, Holds, Option.isNone_iff_eq_none]
  split
  · rename_i h
    simp only [reduceCtorEq, false_iff]
    intro hc
    exact hc (max r.start t.start) r.index (by omega)
  · rename_i h
    simp only [true_iff]
    omega

end SlotRange

/-- The first location of a range that one of the taken ranges holds already. -/
def firstTaken? (taken : List SlotRange) (r : SlotRange) : Option Nat :=
  (taken.filterMap r.firstShared?).min?

/-- The part of a range that lies before its first taken location. -/
def claimable (taken : List SlotRange) (r : SlotRange) : SlotRange :=
  { r with stop := (firstTaken? taken r).getD r.stop }

/-- Whether a range shares no slot with a taken one. -/
def isFree (taken : List SlotRange) (r : SlotRange) : Bool := taken.all r.isApart

/-- The lowest start at or after `next` of a free range of `count` locations.  It is `next` itself
or the end of a taken range, since a range that starts elsewhere could start one earlier. -/
def lowestFree (taken : List SlotRange) (next count : Nat) : Nat :=
  (((next :: taken.map (·.stop)).filter fun start =>
    next ≤ start && isFree taken ⟨start, start + count, 0⟩).min?).getD next

end ShaderLowering
