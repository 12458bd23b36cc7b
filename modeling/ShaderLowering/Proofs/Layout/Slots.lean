import ShaderLowering.Proofs.Layout.Places

/-!
# Vectors in slots of sixteen bytes

Memory is read in slots of sixteen bytes.  A vector keeps to the slots if it lies within one, or
starts with one if it is longer.

Every member that is a vector is placed so that it keeps to the slots that are counted from the
start of its own structure (`MemberAt.keepsSlot`).  Whether it still does where the structure itself
stands is another question.  The rules that align all aggregates to sixteen bytes start each
structure and each array element with a slot, so there all vectors keep to the slots
(`vectors_keep_slots`).  The relaxed rule of storage buffers does not: a structure may start inside
a slot, and then exactly those vectors leave theirs that lie across the place where the next slot
begins (`vectors_keep_slots_iff`).
-/

namespace ShaderLowering

/-! ## Vectors -/

namespace Source

/-- The scalar and the number of components of a vector; a matrix with one row or one column is
such. -/
def Ty.asVector? : Ty → Option (Scalar × Nat)
  | .vector elem count => some (elem, count)
  | .matrix elem rows cols => if rows = 1 ∨ cols = 1 then some (elem, rows * cols) else none
  | _ => none

theorem Ty.shape_of_asVector? {ty : Ty} {v : Scalar × Nat} (h : ty.asVector? = some v) :
    ty.shape = ty := by
  cases ty <;> first | rfl | cases h

theorem Ty.isNaturalData_shape : (ty : Ty) → ty.shape.isNaturalData = ty.isNaturalData
  | .alias _ target => target.isNaturalData_shape
  | .oriented _ target => target.isNaturalData_shape
  | .void | .scalar _ | .vector _ _ | .matrix _ _ _ | .array _ _ | .struct _ _ _
  | .resource _ _ => rfl

end Source

namespace Layout

open Source (Ty OptionalTy Fields Field Record Scalar)

variable {options : Options} {rule : Rule} {elem : Scalar} {count : Nat}

/-- A vector of data has a scalar of a usual width and one to four components. -/
theorem bounds_of_asVector? {ty : Ty} (hdata : ty.isNaturalData = true)
    (h : ty.asVector? = some (elem, count)) : elem.isSized = true ∧ 1 ≤ count ∧ count ≤ 4 := by
  cases ty with
  | vector =>
    cases h
    simp only [Ty.isNaturalData, Bool.and_eq_true, decide_eq_true_eq] at hdata
    exact hdata
  | matrix elem rows cols =>
    simp only [Ty.isNaturalData, Bool.and_eq_true, decide_eq_true_eq] at hdata
    rw [Ty.asVector?] at h
    split at h
    · rename_i h1
      cases h
      refine ⟨hdata.1.1, ?_⟩
      rcases h1 with rfl | rfl <;> omega
    · cases h
  | _ => cases h

/-- Placement takes exactly the vectors of several components for vectors. -/
theorem vectorScalar?_eq {ty : Ty} (hdata : ty.isNaturalData = true) :
    vectorScalar? ty
      = ty.shape.asVector?.bind fun v => if 1 < v.2 then some v.1 else none := by
  rw [← Ty.isNaturalData_shape] at hdata
  rw [vectorScalar?]
  generalize ty.shape = shape at hdata ⊢
  cases shape with
  | matrix elem rows cols =>
    simp only [Ty.isNaturalData, Bool.and_eq_true, decide_eq_true_eq] at hdata
    have hrows := hdata.1.2
    have hcols := hdata.2
    by_cases hr : rows = 1 <;> by_cases hc : cols = 1 <;> simp [Ty.asVector?, hr, hc]
    · omega
    · omega
  | _ => simp [Ty.asVector?]

/-- A vector has the extent of one, whatever wrappers it is in. -/
theorem ofVector_of_shape : (ty : Ty) → (o : Orientation) → {x : Extent} →
    ty.shape.asVector? = some (elem, count) → extentAt options rule ty o = .ok x →
    Extent.ofVector options rule elem count = .ok x
  | .alias _ target, o, _, h, hx => by
    rw [extentAt] at hx
    exact ofVector_of_shape target o h hx
  | .oriented order target, o, _, h, hx => by
    rw [extentAt] at hx
    exact ofVector_of_shape target (o.annotate order) h hx
  | .vector _ _, _, _, h, hx => by
    cases h
    rw [extentAt] at hx
    exact hx
  | .matrix elem rows cols, o, _, h, hx => by
    simp only [Ty.shape, Ty.asVector?] at h
    split at h
    · rename_i h1
      cases h
      rw [extentAt] at hx
      exact Extent.ofMatrix_of_one h1 hx
    · cases h
  | .void, _, _, h, _ | .scalar _, _, _, h, _ | .array _ _, _, _, h, _
  | .struct _ _ _, _, _, h, _ | .resource _ _, _, _, h, _ => nomatch h

/-- Unless it is aligned to its element, a vector is aligned to its size or more. -/
theorem Extent.size_le_alignment_ofVector {x : Extent}
    (hcount : count = 1 ∨ rule.alignsToElement = false)
    (hx : ofVector options rule elem count = .ok x) : x.size ≤ x.alignment := by
  rw [size_ofVector hx, alignment_ofVector hx, vectorAlignment]
  rcases hcount with rfl | hcount
  · rw [if_pos (.inl rfl), Nat.one_mul]
  · rw [hcount]
    split
    · rename_i h1
      rw [h1.resolve_right (by decide), Nat.one_mul]
    · rw [Nat.mul_comm]
      exact Nat.mul_le_mul_left _ (le_lanes count)

/-! ## Slots -/

/-- Bytes keep to the slots: up to sixteen lie within one slot, more start with one. -/
def KeepsSlot (size offset : Nat) : Prop :=
  if size ≤ 16 then offset % 16 + size ≤ 16 else offset % 16 = 0

instance (size offset : Nat) : Decidable (KeepsSlot size offset) :=
  inferInstanceAs (Decidable (if size ≤ 16 then offset % 16 + size ≤ 16 else offset % 16 = 0))

section Slots

variable {size start offset : Nat}

theorem keepsSlot_of_sixteen_dvd (h : 16 ∣ offset) : KeepsSlot size offset := by
  unfold KeepsSlot
  split <;> omega

/-- In a whole that starts inside a slot, bytes keep to the slots exactly if they do not lie across
the place where the next slot begins. -/
theorem keepsSlot_add_iff (h : KeepsSlot size offset) :
    KeepsSlot size (start + offset) ↔ 16 ∣ start ∨
      size ≤ 16 ∧ (start % 16 + offset % 16 + size ≤ 16 ∨ 16 ≤ start % 16 + offset % 16) := by
  unfold KeepsSlot at h ⊢
  split at h <;> rename_i hsize
  · rw [if_pos hsize]
    omega
  · rw [if_neg hsize]
    omega

/-- What keeps to the slots still does behind whole slots. -/
theorem KeepsSlot.add (h : KeepsSlot size offset) (hstart : 16 ∣ start) :
    KeepsSlot size (start + offset) :=
  (keepsSlot_add_iff h).2 (.inl hstart)

/-- What stands at an alignment of its size or more keeps to the slots. -/
theorem keepsSlot_of_dvd {alignment : Nat} (halignment : IsAlignment alignment)
    (hsize : size ≤ alignment) (h : alignment ∣ offset) : KeepsSlot size offset := by
  by_cases hle : 16 ≤ alignment
  · exact keepsSlot_of_sixteen_dvd (Nat.dvd_trans (halignment.sixteen_dvd hle) h)
  · -- a slot has room for several places of this alignment, each for itself
    unfold KeepsSlot
    rw [if_pos (by omega)]
    rcases halignment.cases with rfl | rfl | rfl | rfl | rfl | rfl <;> omega

/-- The check of the relaxed rules finds what does not keep to the slots. -/
theorem keepsSlot_of_straddles (h : straddles size offset = .ok false) :
    KeepsSlot size offset := by
  unfold KeepsSlot
  rw [straddles] at h
  split at h
  · rename_i hle
    obtain ⟨stop, hstop, h⟩ := bind_eq_ok_iff.1 h
    obtain ⟨last, hlast, h⟩ := bind_eq_ok_iff.1 h
    have hsum := (Word.add_eq_ok_iff.1 hstop).1
    have hsub := Word.sub_eq_ok_iff.1 hlast
    have hsame : offset / 16 = last / 16 := by simpa [pure, Except.pure] using h
    rw [if_pos hle]
    omega
  · rename_i hgt
    have hzero : offset % 16 = 0 := by simpa [pure, Except.pure] using h
    rw [if_neg hgt]
    exact hzero

end Slots

/-! ## Members that are vectors -/

/-- Under the relaxed rules a vector is checked, and moved to the next slot if it has to be. -/
theorem keepsSlot_of_isRelaxed {m : Unplaced} {nextFree offset component : Nat}
    (hm : m.component = some component) (hrelaxed : rule.isRelaxed = true)
    (h : naturalOffset rule m nextFree = .ok offset) : KeepsSlot m.extent.size offset := by
  rw [naturalOffset, hm] at h
  dsimp only at h
  rw [if_pos hrelaxed] at h
  obtain ⟨first, -, h⟩ := bind_eq_ok_iff.1 h
  obtain ⟨crosses, hcrosses, h⟩ := bind_eq_ok_iff.1 h
  cases crosses with
  | true =>
    rw [if_pos rfl] at h
    exact keepsSlot_of_sixteen_dvd ((Word.roundUp_eq_ok_iff (by decide)).1 h).1
  | false =>
    cases h
    exact keepsSlot_of_straddles hcrosses

/-- The rules under which a vector is placed in a slot keep it there: they align it to its size, or
they check. -/
theorem keepsSlot_naturalOffset {part : Field} {x : Extent} {nextFree offset : Nat}
    (hrule : rule.alignsToElement = true → rule.isRelaxed = true)
    (hdata : part.ty.isNaturalData = true) (hvector : part.ty.shape.asVector? = some (elem, count))
    (hx : extent options rule part.ty = .ok x)
    (h : naturalOffset rule
      (.ofTy options part.name part.ty part.attributes part.position x) nextFree = .ok offset) :
    KeepsSlot x.size offset := by
  have hof := ofVector_of_shape part.ty {} hvector hx
  rw [← Ty.isNaturalData_shape] at hdata
  obtain ⟨helem, hcount⟩ := bounds_of_asVector? hdata hvector
  rw [Ty.isNaturalData_shape] at hdata
  have halignment := Extent.isAlignment_ofVector helem hcount hof
  have hcomponent := vectorScalar?_eq hdata
  rw [hvector] at hcomponent
  by_cases hplain : count = 1 ∨ rule.isRelaxed = false
  · -- placed at its alignment, which is its size or more
    have hsize : x.size ≤ x.alignment := by
      refine Extent.size_le_alignment_ofVector (hplain.imp_right fun hrelaxed => ?_) hof
      rw [← Bool.not_eq_true]
      intro halign
      rw [hrule halign] at hrelaxed
      cases hrelaxed
    refine keepsSlot_of_dvd halignment hsize (alignment_dvd_naturalOffset halignment.pos ?_ h)
    refine hplain.imp_left fun h1 => ?_
    rw [Unplaced.ofTy, hcomponent, h1]
    rfl
  · -- placed where the check lets it be
    obtain ⟨hseveral, hrelaxed⟩ := not_or.1 hplain
    rw [Bool.not_eq_false] at hrelaxed
    have hsome : (vectorScalar? part.ty).map (·.bytes options) = some (elem.bytes options) := by
      rw [hcomponent, Option.bind_some, if_pos (by omega)]
      rfl
    exact keepsSlot_of_isRelaxed hsome hrelaxed h

namespace MemberAt

variable {name : String} {base : OptionalTy} {fields : Fields} {offset : Nat} {member : Field}

/-- A member that is a vector keeps to the slots that are counted from the start of its
structure. -/
theorem keepsSlot (hrule : rule.alignsToElement = true → rule.isRelaxed = true)
    (h : MemberAt options rule ⟨name, base, fields⟩ offset member)
    (hdata : (Ty.struct name base fields).isNaturalData = true)
    (hvector : member.ty.shape.asVector? = some (elem, count)) :
    KeepsSlot (count * elem.bytes options) offset := by
  have hnatural := h.isNatural hdata
  obtain ⟨x, nextFree, hx, hoffset⟩ := h.natural hnatural.2
  rw [← Extent.size_ofVector (ofVector_of_shape member.ty {} hvector hx)]
  exact keepsSlot_naturalOffset hrule hnatural.1 hvector hx hoffset

/-- A member that is no vector stands at its own alignment under every rule. -/
theorem alignment_dvd_of_not_vector {x : Extent}
    (h : MemberAt options rule ⟨name, base, fields⟩ offset member)
    (hdata : (Ty.struct name base fields).isNaturalData = true)
    (hx : extent options rule member.ty = .ok x) (hvector : member.ty.shape.asVector? = none) :
    x.alignment ∣ offset := by
  have hnatural := h.isNatural hdata
  obtain ⟨y, nextFree, hy, hoffset⟩ := h.natural hnatural.2
  rw [hx] at hy
  cases hy
  have hpos := (isAlignment_extentAt member.ty {} hnatural.1 hx).pos
  refine alignment_dvd_naturalOffset hpos (.inl ?_) hoffset
  rw [Unplaced.ofTy, vectorScalar?_eq hnatural.1, hvector]
  rfl

end MemberAt

/-! ## Vectors at any depth -/

theorem Rule.isTight_eq_false (h : rule.roundsAggregates = true) : rule.isTight = false := by
  revert h
  cases rule <;> decide

theorem Rule.isRelaxed_of_alignsToElement (h : rule.roundsAggregates = true)
    (halign : rule.alignsToElement = true) : rule.isRelaxed = true := by
  revert h halign
  cases rule <;> decide

/-- Every vector in a type keeps to the slots that are counted from the start of the whole. -/
def VectorsKeepSlots (options : Options) (rule : Rule) (ty : Ty) : Prop :=
  ∀ k part o elem count, PartAt options rule ty {} k part o →
    part.asVector? = some (elem, count) → KeepsSlot (count * elem.bytes options) k

namespace PartAt

variable {whole part : Ty} {o o' : Orientation} {k : Nat} {x : Extent} {v : Scalar × Nat}

/-- Below its wrappers a type starts where the whole does. -/
theorem exists_shape : (ty : Ty) → (o : Orientation) →
    ∃ o', PartAt options rule ty o 0 ty.shape o'
  | .alias _ target, o => (exists_shape target o).imp fun _ => .aliased
  | .oriented order target, o => (exists_shape target (o.annotate order)).imp fun _ => .oriented
  | .void, o | .scalar _, o | .vector _ _, o | .matrix _ _ _, o | .array _ _, o
  | .struct _ _ _, o | .resource _ _, o => ⟨o, .refl _ _⟩

/-- The only vector in a vector is itself. -/
theorem eq_shape_of_asVector? (h : PartAt options rule whole o k part o')
    (hwhole : whole.shape.asVector? ≠ none) (hpart : part.asVector? = some v) :
    k = 0 ∧ whole.shape = part := by
  induction h with
  | refl => exact ⟨rfl, Ty.shape_of_asVector? hpart⟩
  | aliased _ ih => exact ih hwhole hpart
  | oriented _ ih => exact ih hwhole hpart
  | element | member => exact absurd rfl hwhole

/-- Where aggregates are aligned to sixteen, what has a vector in it without being one is. -/
theorem sixteen_dvd_alignment (hrule : rule.roundsAggregates = true)
    (h : PartAt options rule whole o k part o') (hdata : whole.isNaturalData = true)
    (hx : extentAt options rule whole o = .ok x) (hwhole : whole.shape.asVector? = none)
    (hpart : part.asVector? = some v) : 16 ∣ x.alignment := by
  induction h with
  | refl =>
    rw [Ty.shape_of_asVector? hpart, hpart] at hwhole
    cases hwhole
  | aliased _ ih => exact ih hdata hx hwhole hpart
  | oriented _ ih => exact ih hdata hx hwhole hpart
  | @element elem _ _ o =>
    rw [extentAt] at hx
    obtain ⟨e, he, hx⟩ := bind_eq_ok_iff.1 hx
    exact (Extent.alignment_ofArray (isAlignment_extentAt elem o.element hdata he) hx).2.2.1 hrule
  | member hmember =>
    have hnatural := hmember.isNatural hdata
    obtain ⟨e, -, he, -⟩ := hmember.natural hnatural.2
    exact (hmember.alignment_dvd hdata hx he).2 hrule

/-- Where aggregates are aligned to sixteen, each level of a type starts with a slot, so a vector
keeps to the slots of the whole as it does to those of its structure. -/
theorem keepsSlot (hrule : rule.roundsAggregates = true)
    (h : PartAt options rule whole o k part o') (hdata : whole.isNaturalData = true)
    (hx : extentAt options rule whole o = .ok x) (hpart : part.asVector? = some (elem, count)) :
    KeepsSlot (count * elem.bytes options) k := by
  induction h generalizing x with
  | refl => exact keepsSlot_of_sixteen_dvd (by decide)
  | aliased _ ih => exact ih hdata hx hpart
  | oriented _ ih => exact ih hdata hx hpart
  | @element elem _ _ o _ _ _ _ hstride _ _ ih =>
    obtain ⟨e, he, harray⟩ := bind_eq_ok_iff.1 hstride
    obtain ⟨-, -, hsixteen, hpadded⟩ :=
      Extent.alignment_ofArray (isAlignment_extentAt elem o.element hdata he) harray
    have hstart := Nat.dvd_trans (hsixteen hrule) (hpadded (Rule.isTight_eq_false hrule)).1
    exact (ih hdata he hpart).add (Nat.dvd_mul_left_of_dvd hstart _)
  | @member _ _ _ member _ _ _ r k hmember hin ih =>
    have hnatural := hmember.isNatural hdata
    obtain ⟨e, -, he, -⟩ := hmember.natural hnatural.2
    cases hvector : member.ty.shape.asVector? with
    | some w =>
      -- the member is the vector
      obtain ⟨rfl, rfl⟩ := hin.eq_shape_of_asVector? (by rw [hvector]; exact nofun) hpart
      exact hmember.keepsSlot (Rule.isRelaxed_of_alignsToElement hrule) hdata hpart
    | none =>
      -- the member is an aggregate around the vector
      have hstart := Nat.dvd_trans (hin.sixteen_dvd_alignment hrule hnatural.1 he hvector hpart)
        (hmember.alignment_dvd_of_not_vector hdata he hvector)
      exact (ih hnatural.1 he hpart).add hstart

end PartAt

/-- A vector in a whole is a member of a structure in it: the structure stands at `s` in the whole,
and the vector at `r` in the structure. -/
def IsMemberAt (options : Options) (rule : Rule) (whole : Ty) (o : Orientation) (k : Nat)
    (part : Ty) : Prop :=
  ∃ s name base fields o' r member,
    PartAt options rule whole o s (.struct name base fields) o' ∧
    MemberAt options rule ⟨name, base, fields⟩ r member ∧ member.ty.shape = part ∧ k = s + r

namespace IsMemberAt

variable {outer whole part : Ty} {o o' : Orientation} {start k : Nat}

/-- What is a member of a structure in a part is one in the whole. -/
theorem of_part (h : IsMemberAt options rule whole o k part)
    (hwhole : PartAt options rule outer o' start whole o) :
    IsMemberAt options rule outer o' (start + k) part := by
  obtain ⟨s, name, base, fields, o'', r, member, hstruct, hmember, hpart, rfl⟩ := h
  exact ⟨start + s, name, base, fields, o'', r, member, hwhole.trans hstruct, hmember, hpart,
    (Nat.add_assoc start s r).symm⟩

theorem of_wrapped (h : IsMemberAt options rule whole o k part)
    (hwhole : PartAt options rule outer o' 0 whole o) :
    IsMemberAt options rule outer o' k part :=
  Nat.zero_add k ▸ h.of_part hwhole

end IsMemberAt

/-- Where no array is packed, a vector stands at its own alignment or is a member of a structure. -/
theorem PartAt.alignment_dvd_or_isMemberAt {whole part : Ty} {o o' : Orientation} {k : Nat}
    {x : Extent} {v : Scalar × Nat} (htight : rule.isTight = false)
    (h : PartAt options rule whole o k part o') (hdata : whole.isNaturalData = true)
    (hx : extentAt options rule whole o = .ok x) (hpart : part.asVector? = some v) :
    (∃ y, extentAt options rule part o' = .ok y ∧ y.alignment ∣ k) ∨
      IsMemberAt options rule whole o k part := by
  induction h generalizing x with
  | refl => exact .inl ⟨x, hx, Nat.dvd_zero _⟩
  | aliased _ ih =>
    exact (ih hdata hx hpart).imp_right fun h => h.of_wrapped (.aliased (.refl _ _))
  | oriented _ ih =>
    exact (ih hdata hx hpart).imp_right fun h => h.of_wrapped (.oriented (.refl _ _))
  | element harray hi hin ih =>
    rw [extentAt] at hx
    obtain ⟨e, he, -⟩ := bind_eq_ok_iff.1 hx
    rcases ih hdata he hpart with ⟨y, hy, hk⟩ | h
    · exact .inl ⟨y, hy, Nat.dvd_add (hin.alignment_dvd_start htight hdata harray hy _) hk⟩
    · exact .inr (h.of_part (.element harray hi (.refl _ _)))
  | @member name base fields member _ o _ q k hmember hin ih =>
    have hnatural := hmember.isNatural hdata
    obtain ⟨e, -, he, -⟩ := hmember.natural hnatural.2
    cases hvector : member.ty.shape.asVector? with
    | some w =>
      -- the member is the vector
      obtain ⟨rfl, hshape⟩ := hin.eq_shape_of_asVector? (by rw [hvector]; exact nofun) hpart
      exact .inr ⟨0, name, base, fields, o, q, member, .refl _ _, hmember, hshape, by omega⟩
    | none =>
      -- the member is an aggregate around the vector
      rcases ih hnatural.1 he hpart with ⟨y, hy, hk⟩ | h
      · have hstart := hmember.alignment_dvd_of_not_vector hdata he hvector
        have hdvd := hin.alignment_dvd hnatural.1 he hy
        exact .inl ⟨y, hy, Nat.dvd_add (Nat.dvd_trans hdvd hstart) hk⟩
      · exact .inr (h.of_part (.member hmember (.refl _ _)))

/-! ## Rules of constant buffers -/

/-- **Under the rules of constant buffers all vectors keep to the slots**, at any depth of
structures, base structures and arrays. -/
theorem vectors_keep_slots {ty : Ty} {x : Extent}
    (hrule : rule = .std140 ∨ rule = .relaxedStd140 ∨ rule = .registerConstant)
    (hdata : ty.isNaturalData = true) (hx : extent options rule ty = .ok x) :
    VectorsKeepSlots options rule ty := by
  have hrounds : rule.roundsAggregates = true := by rcases hrule with rfl | rfl | rfl <;> rfl
  intro k part o elem count hpart hvector
  exact hpart.keepsSlot hrounds hdata hx hvector

/-- Vectors behind an array that is not padded at its end, and in a structure behind them. -/
def registerStruct : Ty :=
  .struct "S" (.present (.struct "B" .absent (.cons "row" (.matrix .single 1 3) {} {} .nil)))
    (.cons "xs" (.array (.scalar .single) (some 2)) {} {}
      (.cons "v" (.vector .single 3) {} {} (.cons "s" (.struct "T" .absent
          (.cons "h" (.scalar .half) {} {} (.cons "w" (.vector .double 3) {} {} .nil)))
        {} {} .nil)))

theorem vectors_keep_slots_registerStruct :
    (Rule.registerConstant = .std140 ∨ Rule.registerConstant = .relaxedStd140 ∨
      Rule.registerConstant = .registerConstant) ∧
    registerStruct.isNaturalData = true ∧
    extent {} .registerConstant registerStruct = .ok ⟨16, 88, 88⟩ ∧
    VectorsKeepSlots {} .registerConstant registerStruct :=
  ⟨.inr (.inr rfl), rfl, rfl, vectors_keep_slots (x := ⟨16, 88, 88⟩) (.inr (.inr rfl)) rfl rfl⟩

/-! ## The relaxed rule of storage buffers -/

/-- No structure in a type puts a vector across the place where a slot begins, if the structure
itself starts inside one. -/
def StructsKeepSlots (options : Options) (rule : Rule) (ty : Ty) : Prop :=
  ∀ s name base fields o r member elem count,
    PartAt options rule ty {} s (.struct name base fields) o →
    MemberAt options rule ⟨name, base, fields⟩ r member →
    member.ty.shape.asVector? = some (elem, count) →
    16 ∣ s ∨ count * elem.bytes options ≤ 16 ∧
      (s % 16 + r % 16 + count * elem.bytes options ≤ 16 ∨ 16 ≤ s % 16 + r % 16)

/-- **Under the relaxed rule vectors leave their slots only with their structures.**  A vector in an
array, or one in a structure that starts with a slot, keeps to the slots of the whole; one in a
structure that starts inside a slot does so exactly if it does not lie across the place where the
next slot begins. -/
theorem vectors_keep_slots_iff {ty : Ty} {x : Extent} (hdata : ty.isNaturalData = true)
    (hx : extent options .relaxedStd430 ty = .ok x) :
    VectorsKeepSlots options .relaxedStd430 ty ↔ StructsKeepSlots options .relaxedStd430 ty := by
  constructor
  · intro h s name base fields o r member elem count hstruct hin hvector
    obtain ⟨o', hshape⟩ : ∃ o', PartAt options .relaxedStd430 member.ty {} 0 member.ty.shape o' :=
      PartAt.exists_shape member.ty {}
    have hpart := hstruct.trans (.member hin hshape)
    have hown := hin.keepsSlot (fun h => by cases h) (hstruct.isNaturalData hdata) hvector
    exact (keepsSlot_add_iff hown).1 (h _ _ _ _ _ hpart hvector)
  · intro h k part o elem count hpart hvector
    rcases hpart.alignment_dvd_or_isMemberAt rfl hdata hx hvector with
      ⟨y, hy, hk⟩ | ⟨s, name, base, fields, o', r, member, hstruct, hin, rfl, rfl⟩
    · -- at its own alignment
      have hof := ofVector_of_shape part o (by rw [Ty.shape_of_asVector? hvector, hvector]) hy
      obtain ⟨helem, hcount⟩ := bounds_of_asVector? (hpart.isNaturalData hdata) hvector
      rw [← Extent.size_ofVector hof]
      exact keepsSlot_of_dvd (Extent.isAlignment_ofVector helem hcount hof)
        (Extent.size_le_alignment_ofVector (.inr rfl) hof) hk
    · -- a member of a structure, whose start decides
      have hown := hin.keepsSlot (fun h => by cases h) (hstruct.isNaturalData hdata) hvector
      exact (keepsSlot_add_iff hown).2 (h _ _ _ _ _ _ _ _ _ hstruct hin hvector)

/-- A structure that is aligned to eight bytes, behind a float. -/
def shiftedStruct : Ty :=
  .struct "Outer" .absent
    (.cons "x" (.scalar .single) {} {} (.cons "s" (.struct "Inner" .absent
        (.cons "a" (.scalar .single) {} {} (.cons "b" (.vector .single 2) {} {} .nil)))
      {} {} .nil))

theorem vectors_keep_slots_iff_shiftedStruct :
    shiftedStruct.isNaturalData = true ∧
    extent {} .relaxedStd430 shiftedStruct = .ok ⟨8, 24, 24⟩ ∧
    (VectorsKeepSlots {} .relaxedStd430 shiftedStruct
      ↔ StructsKeepSlots {} .relaxedStd430 shiftedStruct) :=
  ⟨rfl, rfl, vectors_keep_slots_iff (x := ⟨8, 24, 24⟩) rfl rfl⟩

theorem partAt_shiftedStruct :
    PartAt {} .relaxedStd430 shiftedStruct {} 12 (.vector .single 2) {} := by
  refine PartAt.member (r := 8) (k := 4) ⟨[0, 8], 1, rfl, rfl, rfl⟩ ?_
  exact PartAt.member (r := 4) (k := 0) ⟨[0, 4], 1, rfl, rfl, rfl⟩ (.refl _ _)

/-- The inner structure starts in the middle of a slot, and its vector lies across the end. -/
theorem not_vectorsKeepSlots_shiftedStruct :
    shiftedStruct.isNaturalData = true ∧
    extent {} .relaxedStd430 shiftedStruct = .ok ⟨8, 24, 24⟩ ∧
    ¬VectorsKeepSlots {} .relaxedStd430 shiftedStruct := by
  refine ⟨rfl, rfl, fun h => ?_⟩
  have hslot : KeepsSlot 8 12 := h 12 _ _ .single 2 partAt_shiftedStruct rfl
  exact absurd hslot (by decide)

end Layout

end ShaderLowering
