import ShaderLowering.Proofs.Layout.Slots

/-!
# Scalar components of packed data

Every scalar component of a type stands at an offset from the start of the whole (`ComponentAt`): a
scalar for itself, or one of those of a vector or a matrix.

Under the packed rules a type is aligned to the largest of its components, and each member of a
structure stands at its own alignment.  Arrays are another matter: the elements follow each other
without a gap, and a packed structure is not padded at its end.  So components stand at multiples of
their sizes exactly if the distance between elements is a multiple of the size of each component in
them (`components_aligned_iff`).
-/

namespace ShaderLowering

namespace Source

/-- Whether a scalar, or that of a vector or a matrix, is of a usual width. -/
def Ty.isSizedLeaf : Ty → Bool
  | .scalar elem | .vector elem _ | .matrix elem _ _ => elem.isSized
  | _ => false

/-- Whether a type is data in natural places, with vectors and matrices of any size. -/
def Ty.isSizedData (ty : Ty) : Bool := ty.isDataOf Ty.isSizedLeaf

end Source

namespace Layout

open Source (Ty Scalar)

variable {options : Options} {rule : Rule} {elem : Scalar} {x : Extent}

theorem Rule.alignsToElement_of_isTight (h : rule.isTight = true) : rule.alignsToElement = true := by
  revert h
  cases rule <;> decide

theorem Rule.isRelaxed_of_isTight (h : rule.isTight = true) : rule.isRelaxed = false := by
  revert h
  cases rule <;> decide

/-! ## Scalars, vectors and matrices -/

namespace Extent

theorem alignment_ofVector_of_isTight {count : Nat} (htight : rule.isTight = true)
    (h : ofVector options rule elem count = .ok x) : x.alignment = elem.bytes options := by
  rw [alignment_ofVector h, vectorAlignment,
    if_pos (.inr (Rule.alignsToElement_of_isTight htight))]

theorem alignment_ofMatrix_of_isTight {rows cols : Nat} {byRows : Bool}
    (htight : rule.isTight = true) (h : ofMatrix options rule elem rows cols byRows = .ok x) :
    x.alignment = elem.bytes options := by
  by_cases h1 : rows = 1 ∨ cols = 1
  · exact alignment_ofVector_of_isTight htight (ofMatrix_of_one h1 h)
  · rw [ofMatrix, if_neg h1] at h
    dsimp only at h
    rw [if_pos htight] at h
    obtain ⟨_, -, h⟩ := bind_eq_ok_iff.1 h
    obtain ⟨_, -, h⟩ := bind_eq_ok_iff.1 h
    obtain ⟨_, -, h⟩ := bind_eq_ok_iff.1 h
    cases h
    rfl

end Extent

/-- The packed rules align vectors and matrices of any size to their components. -/
theorem alignsLeaves_of_isTight (htight : rule.isTight = true) :
    AlignsLeaves options rule Ty.isSizedLeaf where
  scalar hdata := Extent.isAlignment_bytes hdata
  vector hdata h := by
    rw [Extent.alignment_ofVector_of_isTight htight h]
    exact Extent.isAlignment_bytes hdata
  matrix hdata h := by
    rw [Extent.alignment_ofMatrix_of_isTight htight h]
    exact Extent.isAlignment_bytes hdata

/-- A scalar component stands at an offset from the start of a scalar, vector or matrix.  A matrix
consists of its rows or columns, one at each multiple of its stride. -/
inductive LeafComponent (options : Options) (rule : Rule) :
    Ty → Orientation → Nat → Scalar → Prop
  | scalar (elem : Scalar) (o : Orientation) : LeafComponent options rule (.scalar elem) o 0 elem
  | vector {ty : Ty} {o : Orientation} {elem : Scalar} {count i : Nat} :
    ty.asVector? = some (elem, count) → i < count →
    LeafComponent options rule ty o (i * elem.bytes options) elem
  | matrix {elem : Scalar} {rows cols i j : Nat} {o : Orientation} {x : Extent} :
    ¬(rows = 1 ∨ cols = 1) → extentAt options rule (.matrix elem rows cols) o = .ok x →
    i < (if o.byRows options then rows else cols) → j < (if o.byRows options then cols else rows) →
    LeafComponent options rule (.matrix elem rows cols) o (i * x.stride + j * elem.bytes options) elem

namespace LeafComponent

variable {ty : Ty} {o : Orientation} {k : Nat}

theorem bytes_dvd_alignment (htight : rule.isTight = true)
    (h : LeafComponent options rule ty o k elem) (hx : extentAt options rule ty o = .ok x) :
    elem.bytes options ∣ x.alignment := by
  cases h with
  | scalar =>
    rw [extentAt] at hx
    cases hx
    exact Nat.dvd_refl _
  | vector hvector =>
    have hof := ofVector_of_shape ty o (by rw [Ty.shape_of_asVector? hvector, hvector]) hx
    rw [Extent.alignment_ofVector_of_isTight htight hof]
  | matrix =>
    rw [extentAt] at hx
    rw [Extent.alignment_ofMatrix_of_isTight htight hx]

theorem bytes_dvd (htight : rule.isTight = true) (h : LeafComponent options rule ty o k elem) :
    elem.bytes options ∣ k := by
  cases h with
  | scalar => exact Nat.dvd_zero _
  | vector => exact Nat.dvd_mul_left _ _
  | matrix h1 hx =>
    rw [extentAt] at hx
    rw [(Extent.stride_ofMatrix h1 hx).1, Extent.vectorStride, if_pos htight]
    exact Nat.dvd_add (Nat.dvd_mul_left_of_dvd (Nat.dvd_mul_left _ _) _) (Nat.dvd_mul_left _ _)

end LeafComponent

/-! ## Components at any depth -/

/-- A scalar component stands at an offset from the start of a whole. -/
def ComponentAt (options : Options) (rule : Rule) (whole : Ty) (o : Orientation) (k : Nat)
    (elem : Scalar) : Prop :=
  ∃ start part o' j, PartAt options rule whole o start part o' ∧
    LeafComponent options rule part o' j elem ∧ k = start + j

/-- Every scalar component of a type stands at a multiple of its size. -/
def ComponentsAligned (options : Options) (rule : Rule) (ty : Ty) : Prop :=
  ∀ k elem, ComponentAt options rule ty {} k elem → elem.bytes options ∣ k

/-- The stride of every array of several elements in a type is a multiple of the size of each scalar
component of an element. -/
def StridesAligned (options : Options) (rule : Rule) (whole : Ty) (o : Orientation) : Prop :=
  ∀ start elem length o' a k component, PartAt options rule whole o start (.array elem length) o' →
    extentAt options rule (.array elem length) o' = .ok a → (∀ n, length = some n → 1 < n) →
    ComponentAt options rule elem o'.element k component → component.bytes options ∣ a.stride

section

variable {whole part : Ty} {o o' : Orientation} {k j : Nat}

theorem StridesAligned.of_part (h : StridesAligned options rule whole o)
    (hpart : PartAt options rule whole o k part o') : StridesAligned options rule part o' :=
  fun _ _ _ _ _ _ _ harray => h _ _ _ _ _ _ _ (hpart.trans harray)

namespace PartAt

/-- A whole is aligned to each of its components. -/
theorem bytes_dvd_alignment (htight : rule.isTight = true)
    (h : PartAt options rule whole o k part o') (hdata : whole.isSizedData = true)
    (hx : extentAt options rule whole o = .ok x)
    (hleaf : LeafComponent options rule part o' j elem) : elem.bytes options ∣ x.alignment := by
  have hleaves : AlignsLeaves options rule Ty.isSizedLeaf := alignsLeaves_of_isTight htight
  induction h generalizing x with
  | refl => exact hleaf.bytes_dvd_alignment htight hx
  | aliased _ ih => exact ih hdata hx hleaf
  | oriented _ ih => exact ih hdata hx hleaf
  | @element element _ _ o _ _ _ _ _ _ _ ih =>
    rw [extentAt] at hx
    obtain ⟨e, he, hx⟩ := bind_eq_ok_iff.1 hx
    have halignment := isAlignment_of_alignsLeaves hleaves element o.element hdata he
    exact Nat.dvd_trans (ih hdata he hleaf) (Extent.alignment_ofArray halignment hx).2.1
  | member hmember _ ih =>
    have hnatural := hmember.isDataOf hdata
    obtain ⟨e, -, he, -⟩ := hmember.natural hnatural.2
    have hdvd := (hmember.alignment_dvd_of_alignsLeaves hleaves hdata hx he).1
    exact Nat.dvd_trans (ih hnatural.1 he hleaf) hdvd

/-- Where the strides are right, every part starts at a multiple of the size of each component
in it. -/
theorem bytes_dvd_start (htight : rule.isTight = true) (h : PartAt options rule whole o k part o')
    (hstrides : StridesAligned options rule whole o) (hdata : whole.isSizedData = true)
    (hx : extentAt options rule whole o = .ok x)
    (hleaf : LeafComponent options rule part o' j elem) : elem.bytes options ∣ k := by
  induction h generalizing x with
  | refl => exact Nat.dvd_zero _
  | aliased _ ih => exact ih (hstrides.of_part (.aliased (.refl _ _))) hdata hx hleaf
  | oriented _ ih => exact ih (hstrides.of_part (.oriented (.refl _ _))) hdata hx hleaf
  | @element _ _ length o _ k i a harray hi hin ih =>
    rw [extentAt] at hx
    obtain ⟨e, he, -⟩ := bind_eq_ok_iff.1 hx
    have hfirst : ∀ n, length = some n → 0 < n := fun n hn => Nat.zero_lt_of_lt (hi n hn)
    have hk := ih (hstrides.of_part (.element harray hfirst (.refl _ _))) hdata he hleaf
    refine Nat.dvd_add ?_ hk
    cases i with
    | zero =>
      rw [Nat.zero_mul]
      exact Nat.dvd_zero _
    | succ i =>
      -- behind another element
      have hseveral : ∀ n, length = some n → 1 < n := fun n hn =>
        Nat.lt_of_le_of_lt (Nat.succ_pos i) (hi n hn)
      exact Nat.dvd_mul_left_of_dvd (hstrides 0 _ _ o a _ _ (.refl _ _) harray hseveral
        ⟨k, _, _, j, hin, hleaf, rfl⟩) _
  | member hmember hin ih =>
    have hnatural := hmember.isDataOf hdata
    obtain ⟨e, nextFree, he, hoffset⟩ := hmember.natural hnatural.2
    have hleaves : AlignsLeaves options rule Ty.isSizedLeaf := alignsLeaves_of_isTight htight
    have hpos := (isAlignment_of_alignsLeaves hleaves _ {} hnatural.1 he).pos
    have hstart := alignment_dvd_naturalOffset hpos (.inr (Rule.isRelaxed_of_isTight htight)) hoffset
    have hdvd := hin.bytes_dvd_alignment htight hnatural.1 he hleaf
    refine Nat.dvd_add (Nat.dvd_trans hdvd hstart) (ih ?_ hnatural.1 he hleaf)
    exact hstrides.of_part (.member hmember (.refl _ _))

end PartAt

end

/-- **Under the packed rules components are aligned where strides are.**  In data of any depth, every
scalar component stands at a multiple of its size from the start of the whole exactly if in every
array of several elements, the stride, which is the size of an element, is a multiple of the size of
each scalar component of an element. -/
theorem components_aligned_iff {ty : Ty} (htight : rule.isTight = true)
    (hdata : ty.isSizedData = true) (hx : extent options rule ty = .ok x) :
    ComponentsAligned options rule ty ↔ StridesAligned options rule ty {} := by
  constructor
  · rintro h start elem length o a - component harray ha hseveral ⟨k, part, o', j, hin, hleaf, rfl⟩
    -- the component in the first element, and in the second
    have hcomponent : ∀ i < 2, component.bytes options ∣ start + (i * a.stride + k) + j := by
      intro i hi
      have hlength : ∀ n, length = some n → i < n := fun n hn =>
        Nat.lt_of_le_of_lt (Nat.le_of_lt_succ hi) (hseveral n hn)
      exact h _ _ ⟨_, part, o', j, harray.trans (.element ha hlength hin), hleaf, rfl⟩
    have hnext : start + (1 * a.stride + k) + j = start + (0 * a.stride + k) + j + a.stride := by
      omega
    have hsecond := hcomponent 1 (by decide)
    rw [hnext] at hsecond
    exact (Nat.dvd_add_right (hcomponent 0 (by decide))).1 hsecond
  · rintro hstrides - elem ⟨k, part, o, j, hpart, hleaf, rfl⟩
    exact Nat.dvd_add (hpart.bytes_dvd_start htight hstrides hdata hx hleaf)
      (hleaf.bytes_dvd htight)

/-- Structures of a double and a float, one behind the other. -/
def packedStructs : Ty :=
  .struct "Outer" .absent
    (.cons "s" (.array (.struct "Inner" .absent
        (.cons "d" (.scalar .double) {} {} (.cons "f" (.scalar .single) {} {} .nil))) (some 2))
      {} {} .nil)

theorem components_aligned_iff_packedStructs :
    Rule.scalar.isTight = true ∧ packedStructs.isSizedData = true ∧
    extent {} .scalar packedStructs = .ok ⟨8, 24, 24⟩ ∧
    (ComponentsAligned {} .scalar packedStructs ↔ StridesAligned {} .scalar packedStructs {}) :=
  ⟨rfl, rfl, rfl, components_aligned_iff (x := ⟨8, 24, 24⟩) rfl rfl rfl⟩

/-- The second double stands behind twelve bytes. -/
theorem componentAt_packedStructs : ComponentAt {} .scalar packedStructs {} 12 .double := by
  refine ⟨12, .scalar .double, {}, 0, ?_, .scalar _ _, rfl⟩
  refine PartAt.member (r := 0) (k := 12) ⟨[0], 0, rfl, rfl, rfl⟩ ?_
  refine PartAt.element (x := ⟨8, 24, 12⟩) (i := 1) (k := 0) rfl (by simp) ?_
  exact PartAt.member (r := 0) (k := 0) ⟨[0, 8], 0, rfl, rfl, rfl⟩ (.refl _ _)

/-- The structures are aligned to eight bytes, and twelve bytes long. -/
theorem not_componentsAligned_packedStructs :
    packedStructs.isSizedData = true ∧
    extent {} .scalar packedStructs = .ok ⟨8, 24, 24⟩ ∧
    ¬ComponentsAligned {} .scalar packedStructs := by
  refine ⟨rfl, rfl, fun h => ?_⟩
  have hdvd : 8 ∣ 12 := h 12 .double componentAt_packedStructs
  exact absurd hdvd (by decide)

end Layout

end ShaderLowering
