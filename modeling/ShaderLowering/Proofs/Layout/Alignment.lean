import Mathlib.Tactic.IntervalCases
import ShaderLowering.Proofs.Layout.Members
import ShaderLowering.Proofs.Layout.PlainData

/-!
# Alignments

Every alignment that a rule gives to data divides 32, the alignment of three or four doubles.  It is
thus a power of two, and of two alignments the smaller divides the larger: a whole that is aligned
to the largest alignment of its parts is aligned to all of them.

Rounding up to sixteen, as some rules do for aggregates, stays among the divisors of 32, so it
gives a common multiple of sixteen and of the alignment before.

All that this takes is that scalars, vectors and matrices are aligned so (`AlignsLeaves`).  With up to
four components, or four rows and columns, they are under every rule.
-/

namespace ShaderLowering

/-! ## Data in natural places -/

namespace Source

/-- Whether a declaration asks for a place of its own in the structure around it. -/
def Attributes.asksForOffset (a : Attributes) : Bool := a.offset.isSome || a.packOffset.isSome

mutual

/-- Whether a type is data, arrays of open length included, of which no member asks for a place of
its own. -/
def Ty.isNaturalData : Ty → Bool
  | .scalar elem => elem.isSized
  | .vector elem count => elem.isSized && decide (1 ≤ count ∧ count ≤ 4)
  | .matrix elem rows cols =>
    elem.isSized && decide (1 ≤ rows ∧ rows ≤ 4) && decide (1 ≤ cols ∧ cols ≤ 4)
  | .array elem _ => elem.isNaturalData
  | .struct _ base fields => base.isNaturalData && fields.areNaturalData
  | .alias _ target | .oriented _ target => target.isNaturalData
  | .void | .resource _ _ => false

@[inherit_doc Ty.isNaturalData]
def OptionalTy.isNaturalData : OptionalTy → Bool
  | .absent => true
  | .present ty => ty.isNaturalData

/-- Whether all fields are data in natural places. -/
def Fields.areNaturalData : Fields → Bool
  | .nil => true
  | .cons _ ty attributes _ rest =>
    ty.isNaturalData && !attributes.asksForOffset && rest.areNaturalData

end

mutual

/-- Whether a type is data of which no member asks for a place of its own, and all scalars, vectors
and matrices in it are as required. -/
def Ty.isDataOf (leaf : Ty → Bool) : Ty → Bool
  | .scalar elem => leaf (.scalar elem)
  | .vector elem count => leaf (.vector elem count)
  | .matrix elem rows cols => leaf (.matrix elem rows cols)
  | .array elem _ => elem.isDataOf leaf
  | .struct _ base fields => base.isDataOf leaf && fields.areDataOf leaf
  | .alias _ target | .oriented _ target => target.isDataOf leaf
  | .void | .resource _ _ => false

@[inherit_doc Ty.isDataOf]
def OptionalTy.isDataOf (leaf : Ty → Bool) : OptionalTy → Bool
  | .absent => true
  | .present ty => ty.isDataOf leaf

/-- Whether all fields are data in natural places, made of what is required. -/
def Fields.areDataOf (leaf : Ty → Bool) : Fields → Bool
  | .nil => true
  | .cons _ ty attributes _ rest =>
    ty.isDataOf leaf && !attributes.asksForOffset && rest.areDataOf leaf

end

mutual

/-- Data in natural places is made of leaves that are such data. -/
theorem Ty.isDataOf_isNaturalData : (ty : Ty) → ty.isDataOf Ty.isNaturalData = ty.isNaturalData
  | .array elem _ => elem.isDataOf_isNaturalData
  | .struct _ base fields =>
    congrArg₂ _ base.isDataOf_isNaturalData fields.areDataOf_isNaturalData
  | .alias _ target | .oriented _ target => target.isDataOf_isNaturalData
  | .scalar _ | .vector _ _ | .matrix _ _ _ | .void | .resource _ _ => rfl

theorem OptionalTy.isDataOf_isNaturalData : (base : OptionalTy) →
    base.isDataOf Ty.isNaturalData = base.isNaturalData
  | .absent => rfl
  | .present ty => ty.isDataOf_isNaturalData

theorem Fields.areDataOf_isNaturalData : (fields : Fields) →
    fields.areDataOf Ty.isNaturalData = fields.areNaturalData
  | .nil => rfl
  | .cons _ ty _ _ rest => by
    rw [Fields.areDataOf, Fields.areNaturalData, ty.isDataOf_isNaturalData,
      rest.areDataOf_isNaturalData]

end

variable {leaf : Ty → Bool}

theorem Fields.forall_mem_toList_of_areDataOf : (fields : Fields) →
    fields.areDataOf leaf = true →
    ∀ f ∈ fields.toList, f.ty.isDataOf leaf = true ∧ f.attributes.asksForOffset = false
  | .nil, _, f, hf => by cases hf
  | .cons name ty attributes position rest, h, f, hf => by
    simp only [Fields.areDataOf, Bool.and_eq_true, Bool.not_eq_true'] at h
    rcases List.mem_cons.1 hf with rfl | hf
    · exact h.1
    · exact rest.forall_mem_toList_of_areDataOf h.2 f hf

/-- The parts of a structure in natural places are data, and none asks for another place. -/
theorem forall_mem_parts_of_isDataOf {name : String} {base : OptionalTy} {fields : Fields}
    (h : (Ty.struct name base fields).isDataOf leaf = true) :
    ∀ f ∈ Record.parts ⟨name, base, fields⟩,
      f.ty.isDataOf leaf = true ∧ f.attributes.asksForOffset = false := by
  rw [Ty.isDataOf, Bool.and_eq_true] at h
  have hfields := fields.forall_mem_toList_of_areDataOf h.2
  intro f hf
  cases base with
  | absent => exact hfields f hf
  | present ty =>
    rcases List.mem_cons.1 hf with rfl | hf
    · exact ⟨h.1, rfl⟩
    · exact hfields f hf

end Source

namespace Layout

open Source (Ty OptionalTy Fields Field Record Scalar)

variable {options : Options} {rule : Rule}

/-! ## Divisors of 32 -/

/-- A number that data may be aligned to. -/
def IsAlignment (a : Nat) : Prop := a ∣ 32

namespace IsAlignment

variable {a b : Nat}

theorem cases (h : IsAlignment a) : a = 1 ∨ a = 2 ∨ a = 4 ∨ a = 8 ∨ a = 16 ∨ a = 32 := by
  have hle : a ≤ 32 := Nat.le_of_dvd (by decide) h
  unfold IsAlignment at h
  interval_cases a <;> omega

theorem pos (h : IsAlignment a) : 0 < a := Nat.pos_of_dvd_of_pos h (by decide)

theorem isPowerOfTwo (h : IsAlignment a) : a.isPowerOfTwo := by
  rcases h.cases with rfl | rfl | rfl | rfl | rfl | rfl
  exacts [⟨0, rfl⟩, ⟨1, rfl⟩, ⟨2, rfl⟩, ⟨3, rfl⟩, ⟨4, rfl⟩, ⟨5, rfl⟩]

/-- Of two alignments the smaller divides the larger. -/
theorem dvd_of_le (ha : IsAlignment a) (hb : IsAlignment b) (hle : a ≤ b) : a ∣ b := by
  rcases ha.cases with rfl | rfl | rfl | rfl | rfl | rfl <;>
    rcases hb.cases with rfl | rfl | rfl | rfl | rfl | rfl <;> omega

theorem sixteen_dvd (ha : IsAlignment a) (hle : 16 ≤ a) : 16 ∣ a :=
  dvd_of_le (a := 16) (by decide : (16 : Nat) ∣ 32) ha hle

end IsAlignment

/-! ## Alignments of extents -/

namespace Extent

variable {elem : Scalar} {x : Extent}

/-- The number that a vector is aligned to. -/
def vectorAlignment (rule : Rule) (bytes count : Nat) : Nat :=
  if count = 1 ∨ rule.alignsToElement = true then bytes else bytes * lanes count

theorem alignment_ofVector {count : Nat} (h : ofVector options rule elem count = .ok x) :
    x.alignment = vectorAlignment rule (elem.bytes options) count := by
  rw [ofVector] at h
  rw [vectorAlignment]
  split at h
  · rename_i h1
    cases h
    rw [if_pos (.inl h1)]
    rfl
  · rename_i h1
    dsimp only at h
    split at h
    · rename_i helement
      obtain ⟨alignment, halignment, h⟩ := bind_eq_ok_iff.1 h
      obtain ⟨size, -, h⟩ := bind_eq_ok_iff.1 h
      cases halignment
      cases h
      rw [if_pos (.inr helement)]
      rfl
    · rename_i helement
      obtain ⟨alignment, halignment, h⟩ := bind_eq_ok_iff.1 h
      obtain ⟨size, -, h⟩ := bind_eq_ok_iff.1 h
      cases h
      rw [if_neg (not_or.2 ⟨h1, helement⟩)]
      exact (Word.mul_eq_ok_iff.1 halignment).1

theorem isAlignment_mul_lanes {bytes count : Nat} (hbytes : bytes = 2 ∨ bytes = 4 ∨ bytes = 8)
    (hcount : 1 ≤ count ∧ count ≤ 4) : IsAlignment (bytes * lanes count) := by
  have hlanes : lanes count = 1 ∨ lanes count = 2 ∨ lanes count = 4 := by
    rw [lanes]
    split <;> omega
  unfold IsAlignment
  rcases hbytes with rfl | rfl | rfl <;> rcases hlanes with h | h | h <;> rw [h] <;> decide

theorem isAlignment_bytes (helem : elem.isSized = true) : IsAlignment (elem.bytes options) := by
  unfold IsAlignment
  rcases elem.bytes_of_isSized options helem with h | h | h <;> rw [h] <;> decide

theorem isAlignment_ofVector {count : Nat} (helem : elem.isSized = true)
    (hcount : 1 ≤ count ∧ count ≤ 4) (h : ofVector options rule elem count = .ok x) :
    IsAlignment x.alignment := by
  rw [alignment_ofVector h, vectorAlignment]
  split
  · exact isAlignment_bytes helem
  · exact isAlignment_mul_lanes (elem.bytes_of_isSized options helem) hcount

/-- An aggregate is aligned to its parts, and to sixteen where the rule asks for it. -/
theorem aggregateAlignment_spec {a b : Nat} (ha : IsAlignment a)
    (h : aggregateAlignment rule a = .ok b) :
    IsAlignment b ∧ a ∣ b ∧ (rule.roundsAggregates = true → 16 ∣ b) := by
  rw [aggregateAlignment] at h
  split at h
  · have hb := Word.roundUp_sixteen h
    unfold IsAlignment
    rcases ha.cases with rfl | rfl | rfl | rfl | rfl | rfl <;> subst hb <;>
      exact ⟨by decide, by decide, fun _ => by decide⟩
  · rename_i hrounds
    cases h
    exact ⟨ha, Nat.dvd_refl a, fun h => absurd h hrounds⟩

theorem isAlignment_ofMatrix {rows cols : Nat} {byRows : Bool} (helem : elem.isSized = true)
    (hrows : 1 ≤ rows ∧ rows ≤ 4) (hcols : 1 ≤ cols ∧ cols ≤ 4)
    (h : ofMatrix options rule elem rows cols byRows = .ok x) : IsAlignment x.alignment := by
  by_cases h1 : rows = 1 ∨ cols = 1
  · refine isAlignment_ofVector helem ?_ (ofMatrix_of_one h1 h)
    rcases h1 with rfl | rfl <;> omega
  · rw [ofMatrix, if_neg h1] at h
    dsimp only at h
    split at h
    · obtain ⟨_, -, h⟩ := bind_eq_ok_iff.1 h
      obtain ⟨_, -, h⟩ := bind_eq_ok_iff.1 h
      obtain ⟨_, -, h⟩ := bind_eq_ok_iff.1 h
      cases h
      exact isAlignment_bytes helem
    · obtain ⟨a, ha, h⟩ := bind_eq_ok_iff.1 h
      obtain ⟨b, hb, h⟩ := bind_eq_ok_iff.1 h
      obtain ⟨_, -, h⟩ := bind_eq_ok_iff.1 h
      cases h
      rw [(Word.mul_eq_ok_iff.1 ha).1] at hb
      have hwidth : 1 ≤ (if byRows then cols else rows) ∧ (if byRows then cols else rows) ≤ 4 := by
        split <;> omega
      have hlanes := isAlignment_mul_lanes (elem.bytes_of_isSized options helem) hwidth
      exact (aggregateAlignment_spec hlanes hb).1

/-- An array is aligned to its elements.  Unless elements follow each other without a gap, its
stride is a multiple of its alignment with room for an element. -/
theorem alignment_ofArray {element : Extent} {length : Option Nat}
    (helement : IsAlignment element.alignment) (h : ofArray rule element length = .ok x) :
    IsAlignment x.alignment ∧ element.alignment ∣ x.alignment ∧
      (rule.roundsAggregates = true → 16 ∣ x.alignment) ∧
      (rule.isTight = false → x.alignment ∣ x.stride ∧ element.size ≤ x.stride) := by
  rw [ofArray] at h
  split at h
  · rename_i htight
    obtain ⟨size, -, h⟩ := bind_eq_ok_iff.1 h
    cases h
    refine ⟨helement, Nat.dvd_refl _, fun hrounds => ?_, fun h => ?_⟩
    · cases rule <;> cases htight <;> cases hrounds
    · rw [htight] at h
      cases h
  · obtain ⟨alignment, halignment, h⟩ := bind_eq_ok_iff.1 h
    obtain ⟨stride, hstride, h⟩ := bind_eq_ok_iff.1 h
    obtain ⟨hdivides, hparts, hsixteen⟩ := aggregateAlignment_spec helement halignment
    have hroom := (Word.roundUp_eq_ok_iff hdivides.pos).1 hstride
    -- the size differs from case to case, alignment and stride do not
    have hsame : x.alignment = alignment ∧ x.stride = stride := by
      split at h
      · split at h
        · cases h
          exact ⟨rfl, rfl⟩
        · obtain ⟨_, -, h⟩ := bind_eq_ok_iff.1 h
          obtain ⟨_, -, h⟩ := bind_eq_ok_iff.1 h
          cases h
          exact ⟨rfl, rfl⟩
      · obtain ⟨_, -, h⟩ := bind_eq_ok_iff.1 h
        obtain ⟨_, -, h⟩ := bind_eq_ok_iff.1 h
        cases h
        exact ⟨rfl, rfl⟩
    rw [hsame.1, hsame.2]
    exact ⟨hdivides, hparts, hsixteen, fun _ => ⟨hroom.1, hroom.2.1⟩⟩

end Extent

/-! ## Structures -/

theorem foldl_max_eq (ms : List Unplaced) (a : Nat) :
    ms.foldl (fun a m => max a m.extent.alignment) a = max a (maxAlignment ms) := by
  induction ms generalizing a with
  | nil => simp [maxAlignment]
  | cons m rest ih =>
    rw [maxAlignment, List.foldl_cons, List.foldl_cons, ih, ih (max 0 m.extent.alignment)]
    omega

theorem maxAlignment_cons (m : Unplaced) (rest : List Unplaced) :
    maxAlignment (m :: rest) = max m.extent.alignment (maxAlignment rest) := by
  rw [maxAlignment, List.foldl_cons, foldl_max_eq]
  omega

theorem le_maxAlignment {ms : List Unplaced} {m : Unplaced} (hm : m ∈ ms) :
    m.extent.alignment ≤ maxAlignment ms := by
  induction ms with
  | nil => cases hm
  | cons first rest ih =>
    rw [maxAlignment_cons]
    rcases List.mem_cons.1 hm with rfl | hm
    · exact Nat.le_max_left _ _
    · exact Nat.le_trans (ih hm) (Nat.le_max_right _ _)

theorem isAlignment_maxAlignment {ms : List Unplaced} (hne : ms ≠ [])
    (hms : ∀ m ∈ ms, IsAlignment m.extent.alignment) : IsAlignment (maxAlignment ms) := by
  induction ms with
  | nil => exact absurd rfl hne
  | cons m rest ih =>
    have hm := hms m List.mem_cons_self
    rw [maxAlignment_cons]
    rcases rest with _ | ⟨next, rest⟩
    · simpa [maxAlignment] using hm
    · have hrest := ih (by simp) fun n hn => hms n (List.mem_cons_of_mem m hn)
      rcases Nat.le_total m.extent.alignment (maxAlignment (next :: rest)) with hle | hle
      · rwa [Nat.max_eq_right hle]
      · rwa [Nat.max_eq_left hle]

/-- A structure is aligned to its members, and to sixteen where the rule asks for it and there are
members. -/
theorem RecordLayout.alignment_of {ms : List Unplaced} {r : RecordLayout}
    (hms : ∀ m ∈ ms, IsAlignment m.extent.alignment) (h : of rule ms = .ok r) :
    IsAlignment r.extent.alignment ∧ (∀ m ∈ ms, m.extent.alignment ∣ r.extent.alignment) ∧
      (rule.roundsAggregates = true → ms ≠ [] → 16 ∣ r.extent.alignment) := by
  rw [of] at h
  split at h
  · rename_i hempty
    cases h
    rw [List.isEmpty_iff] at hempty
    subst hempty
    exact ⟨one_dvd 32, by simp, fun _ h => absurd rfl h⟩
  · rename_i hempty
    rw [List.isEmpty_iff] at hempty
    have hmax := isAlignment_maxAlignment hempty hms
    have hparts : ∀ m ∈ ms, m.extent.alignment ∣ maxAlignment ms := fun m hm =>
      (hms m hm).dvd_of_le hmax (le_maxAlignment hm)
    obtain ⟨⟨placed, stop⟩, -, h⟩ := bind_eq_ok_iff.1 h
    dsimp only at h
    split at h
    · rename_i hscalar
      cases h
      refine ⟨hmax, hparts, fun hrounds => ?_⟩
      rw [hscalar] at hrounds
      cases hrounds
    · obtain ⟨alignment, halignment, h⟩ := bind_eq_ok_iff.1 h
      obtain ⟨hdivides, hdvd, hsixteen⟩ := Extent.aggregateAlignment_spec hmax halignment
      -- the padding at the end does not change the alignment
      have hsame : r.extent.alignment = alignment := by
        split at h
        · obtain ⟨_, -, h⟩ := bind_eq_ok_iff.1 h
          cases h
          rfl
        · cases h
          rfl
      rw [hsame]
      exact ⟨hdivides, fun m hm => Nat.dvd_trans (hparts m hm) hdvd, fun hrounds _ =>
        hsixteen hrounds⟩

/-! ## Data -/

/-- Scalars, vectors and matrices that satisfy a condition are aligned to divisors of 32. -/
structure AlignsLeaves (options : Options) (rule : Rule) (leaf : Ty → Bool) : Prop where
  scalar {elem : Scalar} : leaf (.scalar elem) = true → IsAlignment (elem.bytes options)
  vector {elem : Scalar} {count : Nat} {x : Extent} : leaf (.vector elem count) = true →
    Extent.ofVector options rule elem count = .ok x → IsAlignment x.alignment
  matrix {elem : Scalar} {rows cols : Nat} {byRows : Bool} {x : Extent} :
    leaf (.matrix elem rows cols) = true →
    Extent.ofMatrix options rule elem rows cols byRows = .ok x → IsAlignment x.alignment

section

variable {leaf : Ty → Bool}

mutual

/-- Data that is made of aligned leaves is aligned to a divisor of 32. -/
theorem isAlignment_of_alignsLeaves (hleaf : AlignsLeaves options rule leaf) : (ty : Ty) →
    (o : Orientation) → {x : Extent} → ty.isDataOf leaf = true →
    extentAt options rule ty o = .ok x → IsAlignment x.alignment
  | .alias _ target, o, _, hdata, h => by
    rw [extentAt] at h
    exact isAlignment_of_alignsLeaves hleaf target o hdata h
  | .oriented order target, o, _, hdata, h => by
    rw [extentAt] at h
    exact isAlignment_of_alignsLeaves hleaf target (o.annotate order) hdata h
  | .scalar elem, _, _, hdata, h => by
    rw [extentAt] at h
    cases h
    exact hleaf.scalar hdata
  | .vector elem count, _, _, hdata, h => by
    rw [extentAt] at h
    exact hleaf.vector hdata h
  | .matrix elem rows cols, _, _, hdata, h => by
    rw [extentAt] at h
    exact hleaf.matrix hdata h
  | .array elem length, o, _, hdata, h => by
    rw [extentAt] at h
    obtain ⟨y, hy, h⟩ := bind_eq_ok_iff.1 h
    have helement := isAlignment_of_alignsLeaves hleaf elem o.element hdata hy
    exact (Extent.alignment_ofArray helement h).1
  | .struct _ base fields, _, _, hdata, h => by
    rw [extentAt] at h
    rw [Ty.isDataOf, Bool.and_eq_true] at hdata
    obtain ⟨first, hfirst, h⟩ := bind_eq_ok_iff.1 h
    obtain ⟨rest, hrest, h⟩ := bind_eq_ok_iff.1 h
    obtain ⟨r, hr, h⟩ := bind_eq_ok_iff.1 h
    cases h
    refine (RecordLayout.alignment_of (fun m hm => ?_) hr).1
    rcases List.mem_append.1 hm with hm | hm
    · exact isAlignment_unplacedBase hleaf base hdata.1 hfirst m hm
    · exact isAlignment_unplacedFields hleaf fields hdata.2 hrest m hm

theorem isAlignment_unplacedBase (hleaf : AlignsLeaves options rule leaf) : (base : OptionalTy) →
    {ms : List Unplaced} → base.isDataOf leaf = true → unplacedBase options rule base = .ok ms →
    ∀ m ∈ ms, IsAlignment m.extent.alignment
  | .absent, _, _, h, m, hm => by
    cases h
    cases hm
  | .present ty, _, hdata, h, m, hm => by
    rw [unplacedBase] at h
    obtain ⟨x, hx, h⟩ := bind_eq_ok_iff.1 h
    cases h
    cases List.mem_singleton.1 hm
    exact isAlignment_of_alignsLeaves hleaf ty {} hdata hx

theorem isAlignment_unplacedFields (hleaf : AlignsLeaves options rule leaf) : (fields : Fields) →
    {ms : List Unplaced} → fields.areDataOf leaf = true →
    unplacedFields options rule fields = .ok ms → ∀ m ∈ ms, IsAlignment m.extent.alignment
  | .nil, _, _, h, m, hm => by
    cases h
    cases hm
  | .cons _ ty _ _ rest, _, hdata, h, m, hm => by
    simp only [Fields.areDataOf, Bool.and_eq_true] at hdata
    rw [unplacedFields] at h
    obtain ⟨x, hx, h⟩ := bind_eq_ok_iff.1 h
    obtain ⟨others, hothers, h⟩ := bind_eq_ok_iff.1 h
    cases h
    rcases List.mem_cons.1 hm with rfl | hm
    · exact isAlignment_of_alignsLeaves hleaf ty {} hdata.1.1 hx
    · exact isAlignment_unplacedFields hleaf rest hdata.2 hothers m hm

end

end

theorem alignsLeaves_isNaturalData : AlignsLeaves options rule Ty.isNaturalData where
  scalar hdata := Extent.isAlignment_bytes hdata
  vector hdata h := by
    simp only [Ty.isNaturalData, Bool.and_eq_true, decide_eq_true_eq] at hdata
    exact Extent.isAlignment_ofVector hdata.1 hdata.2 h
  matrix hdata h := by
    simp only [Ty.isNaturalData, Bool.and_eq_true, decide_eq_true_eq] at hdata
    exact Extent.isAlignment_ofMatrix hdata.1.1 hdata.1.2 hdata.2 h

/-- Data is aligned to a divisor of 32. -/
theorem isAlignment_extentAt (ty : Ty) (o : Orientation) {x : Extent}
    (hdata : ty.isNaturalData = true) (h : extentAt options rule ty o = .ok x) :
    IsAlignment x.alignment :=
  isAlignment_of_alignsLeaves alignsLeaves_isNaturalData ty o
    (ty.isDataOf_isNaturalData.trans hdata) h

end Layout

end ShaderLowering
