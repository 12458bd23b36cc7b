import ShaderLowering.Proofs.Emission.Totality
import ShaderLowering.Proofs.Layout.Alignment
import ShaderLowering.Proofs.Spirv.Footprint
import ShaderLowering.Proofs.Spirv.Nodes

/-!
# Strides and elements of emitted arrays

The elements of an emitted array are apart if its stride has room for one of them.  The stride is
computed from the source type alone; the elements are emitted with the scalar that is expected of
them, which may make a literal wider than the layout takes it for.  In arrays of scalars or vectors,
nested to any depth, the strides have room for the elements exactly if the innermost one has room
for the emitted vector (`Emit.elementsApart_iff`).  The arrays around it always have room: each of
them is laid out from the extent of the array inside it.
-/

namespace ShaderLowering

open Source (Ty Scalar)
open Spirv (TypeTree TypeDecoration TypeId)

/-! ## Elements of an emitted array -/

namespace Spirv

namespace TypeTree

/-- The bytes that a scalar, a vector or an array takes: the components of a vector follow each
other, and an array takes its stride for each element.  An open array has no elements of its
own. -/
def bytes : TypeTree → Nat
  | .node _ (.scalar s) _ => s.width
  | .node _ (.vector size s) _ => size.toNat * s.width
  | .node _ (.array _ length) ds => length * (TypeDecoration.arrayStride? ds).getD 0
  | _ => 0

/-- Whether the stride of an array has no room for one of its elements. -/
def crowdsElements : TypeTree → Bool
  | .node _ (.array elem _) ds | .node _ (.runtimeArray elem) ds =>
    ds.any fun
      | .arrayStride stride => decide (stride < elem.bytes)
      | _ => false
  | _ => false

/-- Whether every array in the type has room for its elements. -/
def elementsApart (tree : TypeTree) : Bool := !tree.any crowdsElements

variable {name : Option String} {elem : TypeTree} {length stride : Nat}

theorem elementsApart_array :
    (node name (.array elem length) [.arrayStride stride]).elementsApart = true ↔
      elem.bytes ≤ stride ∧ elem.elementsApart = true := by
  simp [elementsApart, any, TreeForm.any, crowdsElements]

theorem elementsApart_runtimeArray :
    (node name (.runtimeArray elem) [.arrayStride stride]).elementsApart = true ↔
      elem.bytes ≤ stride ∧ elem.elementsApart = true := by
  simp [elementsApart, any, TreeForm.any, crowdsElements]

end TypeTree

end Spirv

namespace Source.Ty

/-- The scalar and the number of components of the scalar or vector below all arrays and wrappers,
if there is one. -/
def innermostVector? : Ty → Option (Scalar × Nat)
  | .alias _ target | .oriented _ target => target.innermostVector?
  | .array elem _ => elem.innermostVector?
  | .scalar elem => some (elem, 1)
  | .vector elem count => some (elem, count)
  | .void | .matrix _ _ _ | .struct _ _ _ | .resource _ _ => none

theorem isResourceArray_of_innermostVector? : (ty : Ty) → {leaf : Scalar × Nat} →
    ty.innermostVector? = some leaf → ty.isResourceArray = false
  | .alias _ target, _, h => target.isResourceArray_of_innermostVector? h
  | .oriented _ target, _, h => target.isResourceArray_of_innermostVector? h
  | .array elem _, _, h => elem.isResourceArray_of_innermostVector? h
  | .scalar _, _, _ | .vector _ _, _, _ => rfl

end Source.Ty

/-! ## Strides of laid out arrays -/

/-- Of two multiples the one that is less than a step above the other is not above it. -/
theorem Nat.le_of_dvd_of_lt_add {a m r : Nat} (hm : a ∣ m) (hr : a ∣ r) (h : m < r + a) :
    m ≤ r := by
  obtain ⟨i, rfl⟩ := hm
  obtain ⟨j, rfl⟩ := hr
  rw [← Nat.mul_succ] at h
  exact Nat.mul_le_mul_left a (Nat.le_of_lt_succ (Nat.lt_of_mul_lt_mul_left h))

namespace Layout.Extent

variable {options : Options} {rule : Rule} {elem : Scalar} {element x y : Extent}
  {length length' : Option Nat}

/-- How an array is laid out: without a gap, or with every element at a multiple of the alignment,
where at most the padding behind the last element is left out. -/
theorem ofArray_spec (helement : IsAlignment element.alignment)
    (h : ofArray rule element length = .ok x) :
    (rule.isTight = true ∧ x.stride = element.size ∧ x.size = length.getD 0 * x.stride) ∨
      (rule.isTight = false ∧ aggregateAlignment rule element.alignment = .ok x.alignment ∧
        Word.roundUp element.size x.alignment = .ok x.stride ∧
        length.getD 0 * x.stride < x.size + x.alignment) := by
  rw [ofArray] at h
  split at h
  · rename_i htight
    obtain ⟨size, hsize, h⟩ := bind_eq_ok_iff.1 h
    cases h
    exact .inl ⟨htight, rfl, (Word.mul_eq_ok_iff.1 hsize).1.trans (Nat.mul_comm _ _)⟩
  · rename_i htight
    obtain ⟨alignment, halignment, h⟩ := bind_eq_ok_iff.1 h
    obtain ⟨stride, hstride, h⟩ := bind_eq_ok_iff.1 h
    have hpos : 0 < alignment := (aggregateAlignment_spec helement halignment).1.pos
    refine .inr ⟨Bool.eq_false_of_not_eq_true htight, ?_⟩
    split at h
    · split at h
      · rename_i h0
        cases h
        refine ⟨halignment, hstride, ?_⟩
        rw [h0, Nat.zero_mul, Nat.zero_add]
        exact hpos
      · -- the last element has no padding behind it
        rename_i h0
        obtain ⟨rest, hrest, h⟩ := bind_eq_ok_iff.1 h
        obtain ⟨size, hsum, h⟩ := bind_eq_ok_iff.1 h
        cases h
        refine ⟨halignment, hstride, ?_⟩
        have hpadding := ((Word.roundUp_eq_ok_iff hpos).1 hstride).2.2.1
        have hsize := (Word.add_eq_ok_iff.1 hsum).1
        rw [(Word.mul_eq_ok_iff.1 hrest).1, Nat.mul_comm stride] at hsize
        have hcount : length.getD 0 * stride = (length.getD 0 - 1) * stride + stride := by
          rw [← Nat.succ_mul]
          exact congrArg (· * stride) (by omega)
        change length.getD 0 * stride < size + alignment
        omega
    · obtain ⟨rest, hrest, h⟩ := bind_eq_ok_iff.1 h
      obtain ⟨size, hround, h⟩ := bind_eq_ok_iff.1 h
      cases h
      refine ⟨halignment, hstride, ?_⟩
      have hsize := Word.le_of_roundUp hround
      rw [(Word.mul_eq_ok_iff.1 hrest).1, Nat.mul_comm stride] at hsize
      change length.getD 0 * stride < size + alignment
      omega

/-- An array of arrays has room for the elements of each of them. -/
theorem le_stride_ofArray (helement : IsAlignment element.alignment)
    (hx : ofArray rule element length = .ok x) (hy : ofArray rule x length' = .ok y) :
    length.getD 0 * x.stride ≤ y.stride := by
  obtain ⟨halignment, -, -, hpadded⟩ := alignment_ofArray helement hx
  obtain ⟨-, hdvd, -, hpadded'⟩ := alignment_ofArray halignment hy
  obtain ⟨htight, -, hsize⟩ | ⟨htight, -, -, hsize⟩ := ofArray_spec helement hx
  · obtain ⟨-, hstride, -⟩ | ⟨hloose, -⟩ := ofArray_spec halignment hy
    · exact Nat.le_of_eq (hsize.symm.trans hstride.symm)
    · rw [htight] at hloose
      cases hloose
  · obtain ⟨hmultiple, -⟩ := hpadded htight
    obtain ⟨hmultiple', hroom⟩ := hpadded' htight
    refine Nat.le_of_dvd_of_lt_add (Nat.dvd_mul_left_of_dvd hmultiple _) (hdvd.trans hmultiple') ?_
    omega

/-- The alignment of a vector under a rule with gaps that packs no registers. -/
theorem alignment_ofVector_of_padded {count : Nat} (htight : rule.isTight = false)
    (hregister : rule ≠ .registerConstant) (h : ofVector options rule elem count = .ok x) :
    x.alignment = elem.bytes options * lanes count := by
  have helement : rule.alignsToElement = false := by
    cases rule <;> first | exact absurd rfl hregister | rfl | cases htight
  rw [alignment_ofVector h, vectorAlignment]
  split
  · rename_i hone
    obtain rfl : count = 1 := hone.resolve_right (by rw [helement]; exact Bool.false_ne_true)
    exact (Nat.mul_one _).symm
  · rfl

/-- An array of vectors has the stride of a matrix that stores such vectors. -/
theorem stride_of_ofVector {count : Nat} (helem : elem.isSized = true)
    (hcount : 1 ≤ count ∧ count ≤ 4) (helement : ofVector options rule elem count = .ok element)
    (hx : ofArray rule element length = .ok x) :
    x.stride = vectorStride rule (elem.bytes options) count := by
  have hsize := size_ofVector helement
  have hbytes := elem.bytes_of_isSized options helem
  have helementAlignment := isAlignment_ofVector helem hcount helement
  obtain ⟨htight, hstride, -⟩ | ⟨htight, halignment, hstride, -⟩ :=
    ofArray_spec helementAlignment hx
  · rw [hstride, vectorStride, if_pos htight, hsize]
  · have hpos : 0 < x.alignment := (aggregateAlignment_spec helementAlignment halignment).1.pos
    obtain ⟨hmultiple, hroom, hnext, -⟩ := (Word.roundUp_eq_ok_iff hpos).1 hstride
    rw [hsize] at hroom hnext
    by_cases hregister : rule = .registerConstant
    · -- a vector is aligned to its element, the array to sixteen
      subst hregister
      have hsixteen : x.alignment = 16 := by
        rw [Word.roundUp_sixteen halignment, alignment_ofVector helement, vectorAlignment,
          if_pos (.inr rfl)]
        omega
      rw [hsixteen] at hmultiple hnext
      change x.stride = (elem.bytes options * lanes count + 15) / 16 * 16
      obtain rfl | rfl | rfl | rfl : count = 1 ∨ count = 2 ∨ count = 3 ∨ count = 4 := by omega
      all_goals
        simp +decide only [lanes, if_true, if_false]
        omega
    · -- a vector has room in the place that it is aligned to
      have hsame : x.alignment = vectorStride rule (elem.bytes options) count := by
        rw [aggregateAlignment, alignment_ofVector_of_padded htight hregister helement]
          at halignment
        rw [vectorStride, if_neg (by rw [htight]; exact Bool.false_ne_true)]
        split at halignment
        · rename_i hrounds
          rw [if_pos hrounds, Word.roundUp_sixteen halignment]
        · rename_i hrounds
          rw [if_neg hrounds]
          exact (Except.ok.inj halignment).symm
      have hle : count * elem.bytes options ≤ x.alignment := hsame ▸ le_vectorStride rule _ count
      have hsome : 0 < count * elem.bytes options := Nat.mul_pos hcount.1 (by omega)
      rw [← hsame]
      refine Nat.le_antisymm ?_ (Nat.le_of_dvd (by omega) hmultiple)
      exact Nat.le_of_dvd_of_lt_add hmultiple (Nat.dvd_refl _) (by omega)

end Layout.Extent

/-! ## Written arrays -/

namespace Written

open Layout (Orientation Extent IsAlignment)

variable {options : Options} {rule : Layout.Rule} {o : Orientation} {expected : Option Scalar}
  {s : Scalar} {n : Nat} {tree base : TypeTree}

/-- A written vector has up to four components, which follow each other. -/
theorem bytes_ofVector {elem : Scalar} {count : Nat}
    (h : ofVector options rule expected elem count = .ok tree) :
    (1 ≤ count ∧ count ≤ 4) ∧ tree.bytes = count * (elem.stored options rule expected).width ∧
      tree.elementsApart = true := by
  rw [ofVector] at h
  split at h
  · rename_i h1
    cases h
    rw [h1, Nat.one_mul]
    exact ⟨⟨Nat.le_refl 1, by omega⟩, rfl, rfl⟩
  · obtain ⟨size, hsize, h⟩ := bind_eq_ok_iff.1 h
    cases h
    obtain rfl := Layout.size_of_vectorSize hsize
    refine ⟨?_, rfl, rfl⟩
    cases size <;> decide

/-- A written array has room for its elements if its stride has room for one of them, and they have
room for theirs. -/
theorem elementsApart_ofArray {elem : Ty} {length : Option Nat} (hrule : rule ≠ .unlaid)
    (hdata : elem.isResourceArray = false)
    (h : ofArray options rule o elem length base = .ok tree) :
    ∃ x, Layout.extentAt options rule (.array elem length) o = .ok x ∧
      (tree.elementsApart = true ↔ base.bytes ≤ x.stride ∧ base.elementsApart = true) ∧
      tree.bytes = length.getD 0 * x.stride := by
  rw [ofArray, hdata, if_neg Bool.false_ne_true, strideOf, if_neg hrule] at h
  obtain ⟨ds, hds, h⟩ := bind_eq_ok_iff.1 h
  obtain ⟨x, hx, hds⟩ := bind_eq_ok_iff.1 hds
  cases hds
  refine ⟨x, ofChecked_eq_ok_iff.1 hx, ?_⟩
  cases length with
  | some n =>
    cases h
    exact ⟨TypeTree.elementsApart_array, rfl⟩
  | none =>
    cases h
    exact ⟨TypeTree.elementsApart_runtimeArray, (Nat.zero_mul _).symm⟩

/-- What stands as an element of arrays: every array of it, laid out from the given extent, has
room for its elements at every depth exactly under the condition. -/
structure Spaced (rule : Layout.Rule) (element : Extent) (tree : TypeTree) (condition : Prop) :
    Prop where
  alignment : IsAlignment element.alignment
  fits : ∀ length x, Extent.ofArray rule element length = .ok x →
    (tree.bytes ≤ x.stride ∧ tree.elementsApart = true ↔ condition)

theorem spaced_ofVector {element : Extent} {count : Nat} (hs : s.isSized = true)
    (hx : Extent.ofVector options rule s count = .ok element)
    (h : ofVector options rule expected s count = .ok tree) :
    Spaced rule element tree (count * (s.stored options rule expected).width
      ≤ Extent.vectorStride rule (s.bytes options) count) := by
  obtain ⟨hcount, hbytes, hapart⟩ := bytes_ofVector h
  refine ⟨Extent.isAlignment_ofVector hs hcount hx, fun length x harray => ?_⟩
  rw [hbytes, Extent.stride_of_ofVector hs hcount hx harray]
  exact and_iff_left hapart

/-- An array that is spaced as an element has room for its elements under the condition of the
vector below it. -/
theorem elementsApart_ofTy (hrule : rule ≠ .unlaid) (hs : s.isSized = true) :
    (ty : Ty) → (o : Orientation) → {tree : TypeTree} → ty.innermostVector? = some (s, n) →
    ofTy options ty rule o expected = .ok tree →
    (∀ x, Layout.extentAt options rule ty o = .ok x →
      Spaced rule x tree (n * (s.stored options rule expected).width
        ≤ Extent.vectorStride rule (s.bytes options) n)) ∧
      ∀ elem length, ty.shape = .array elem length →
        (tree.elementsApart = true ↔ n * (s.stored options rule expected).width
          ≤ Extent.vectorStride rule (s.bytes options) n)
  | .alias _ target, o, tree, hty, h => by
    rw [ofTy] at h
    exact elementsApart_ofTy hrule hs target o hty h
  | .oriented order target, o, tree, hty, h => by
    rw [ofTy] at h
    exact elementsApart_ofTy hrule hs target (o.annotate order) hty h
  | .scalar elem, o, tree, hty, h => by
    obtain ⟨rfl, rfl⟩ := Prod.mk.inj (Option.some.inj hty)
    refine ⟨fun x hx => spaced_ofVector hs hx h, fun elem length hshape => ?_⟩
    cases hshape
  | .vector elem count, o, tree, hty, h => by
    obtain ⟨rfl, rfl⟩ := Prod.mk.inj (Option.some.inj hty)
    refine ⟨fun x hx => spaced_ofVector hs hx h, fun elem length hshape => ?_⟩
    cases hshape
  | .array elem length, o, tree, hty, h => by
    rw [ofTy] at h
    obtain ⟨base, hbase, h⟩ := bind_eq_ok_iff.1 h
    obtain ⟨hspaced, -⟩ := elementsApart_ofTy hrule hs elem o.element hty hbase
    have hdata := elem.isResourceArray_of_innermostVector? hty
    obtain ⟨x, hx, hapart, hbytes⟩ := elementsApart_ofArray hrule hdata h
    have hextent := hx
    rw [Layout.extentAt] at hextent
    obtain ⟨element, helement, harray⟩ := bind_eq_ok_iff.1 hextent
    obtain ⟨halignment, hfits⟩ := hspaced element helement
    rw [hfits length x harray] at hapart
    -- the layout is a function, so there is only the one extent to speak of
    refine ⟨fun x' hx' => ?_, fun _ _ _ => hapart⟩
    obtain rfl : x = x' := Except.ok.inj (hx.symm.trans hx')
    refine ⟨(Extent.alignment_ofArray halignment harray).1, fun length' y hy => ?_⟩
    rw [hbytes, hapart]
    exact and_iff_right (Extent.le_stride_ofArray halignment harray hy)

end Written

namespace Emit

variable {options : Options} {e e' : Emitter} {rule : Layout.Rule} {s : Scalar} {n : Nat}

/-- **The strides of an array have room for its elements exactly if the innermost one has room for
the emitted vector.**  This is about every array of scalars or vectors, nested to any depth, under
every memory rule and whatever scalar is expected: the vector is emitted with the width that the
expected scalar settles, and the stride is that of the vector as it was declared. -/
theorem elementsApart_iff (he : Emitter.Attained options e) (hrule : rule ≠ .unlaid)
    {ty elem : Ty} {length : Option Nat} (hty : ty.shape = .array elem length)
    (hvector : ty.innermostVector? = some (s, n)) (hs : s.isSized = true) (expected : Option Ty)
    {id : TypeId} (hrun : (typeExpecting ty rule expected).runOn e = (.ok id, e')) :
    ∃ tree, e'.target.tree? id = some tree ∧
      (tree.elementsApart = true ↔
        n * (s.stored options rule (expected.bind (·.elementScalar?))).width
          ≤ Layout.Extent.vectorStride rule (s.bytes options) n) := by
  obtain ⟨hsound, rfl⟩ := he.sound
  obtain ⟨tree, htree, hid⟩ := (realizes_typeExpecting hsound ty rule expected).exists_of_run hrun
  exact ⟨tree, hid, (Written.elementsApart_ofTy hrule hs ty {} hvector htree).2 elem length hty⟩

/-- Pairs of literals, which are laid out in 32 bits each: three rows of two. -/
def literalPairs : Ty :=
  .alias "Pairs" (.array (.array (.vector (.literalInt 32) 2) (some 2)) (some 3))

/-- Sixteen bytes are room enough for two numbers of 64 bits. -/
theorem elementsApart_iff_literalPairs :
    Emitter.Attained {} afterWideVector ∧ Layout.Rule.std140 ≠ .unlaid ∧
    literalPairs.shape = .array (.array (.vector (.literalInt 32) 2) (some 2)) (some 3) ∧
    literalPairs.innermostVector? = some (.literalInt 32, 2) ∧
    Scalar.isSized (.literalInt 32) = true ∧
    ∃ id e' tree, (typeExpecting literalPairs .std140 (some (.scalar (.int 64 true)))).runOn
        afterWideVector = (.ok id, e') ∧
      e'.target.tree? id = some tree ∧ tree.elementsApart = true := by
  have hattained : Emitter.Attained {} afterWideVector :=
    .inl (.typeExpecting (.vector .single 5) .std140 none .start)
  have hrule : Layout.Rule.std140 ≠ .unlaid := by decide
  have hshape : literalPairs.shape
      = .array (.array (.vector (.literalInt 32) 2) (some 2)) (some 3) := by rfl
  have hvector : literalPairs.innermostVector? = some (.literalInt 32, 2) := by rfl
  have hsized : Scalar.isSized (.literalInt 32) = true := by rfl
  obtain ⟨id, hid⟩ : ∃ id,
      ((typeExpecting literalPairs .std140 (some (.scalar (.int 64 true)))).runOn
        afterWideVector).1 = .ok id := ⟨3, by rfl⟩
  obtain ⟨tree, htree, hiff⟩ := elementsApart_iff hattained hrule hshape hvector hsized
    (some (.scalar (.int 64 true))) (Prod.ext hid rfl)
  refine ⟨hattained, hrule, hshape, hvector, hsized, id, _, tree, Prod.ext hid rfl, htree, ?_⟩
  exact hiff.2 (by decide)

/-- A pair of literals, of which numbers of 64 bits are expected, gets a stride of four bytes for
elements of eight. -/
theorem not_elementsApart :
    ∃ id e' tree,
      (typeExpecting (.array (.scalar (.literalInt 32)) (some 2)) .std430
        (some (.scalar (.int 64 true)))).runOn (.start {}) = (.ok id, e') ∧
      e'.target.tree? id = some tree ∧
      tree = .node none (.array (Written.plain (.scalar .int64)) 2) [.arrayStride 4] ∧
      tree.elementsApart = false := by
  refine ⟨2, _, _, Prod.ext (by rfl) rfl, ?_, rfl, by decide⟩
  decide +kernel

end Emit

end ShaderLowering
