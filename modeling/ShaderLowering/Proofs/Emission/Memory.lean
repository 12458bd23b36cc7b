import ShaderLowering.Proofs.Emission.Reachable
import ShaderLowering.Proofs.Layout.Parts

/-!
# Memory of emitted structures

What a client sees of the agreement between layout and emission: it asks an emitter for a structure
under a memory rule, reads the decorations of the answer, and compares with the size of the
structure.

For structures without integer matrices any two scalar components lie apart from each other and
within that size (`components_apart`).  An integer matrix is emitted as an array of its rows, and
the rows keep to the room of the matrix exactly where `Layout.rowsFit` holds (`rows_apart_iff`): a
column-major matrix with more rows than columns, among others, reaches into the member behind it.
-/

namespace ShaderLowering

open Source (Ty OptionalTy Fields Scalar)
open Spirv (TypeTree TypeId PartStep Span)

/-! ## Structures have an extent -/

namespace Source.Ty

/-- Whether all matrices with several rows and columns in a type are floating-point. -/
def hasFloatMatricesOnly (ty : Ty) : Bool :=
  ty.everyMatrix (fun _ elem rows cols => elem.isFloat || decide (rows = 1) || decide (cols = 1)) {}

theorem isFloatMatrixArray_of_isSome_record? : (ty : Ty) → ty.record?.isSome = true →
    ty.isFloatMatrixArray = false
  | .struct _ _ _, _ => rfl
  | .alias _ target, h => target.isFloatMatrixArray_of_isSome_record? h
  | .oriented _ target, h => target.isFloatMatrixArray_of_isSome_record? h

end Source.Ty

variable {options : Options} {rule : Layout.Rule}

/-- A structure that is emitted under a memory rule has an extent. -/
theorem Written.extentAt_of_isSome_record? (hrule : rule ≠ .unlaid) : (ty : Ty) →
    (o : Layout.Orientation) → {tree : TypeTree} → ty.record?.isSome = true →
    Written.ofTy options ty rule o none = .ok tree →
    ∃ x, Layout.extentAt options rule ty o = .ok x
  | .alias _ target, o, tree, hstruct, h => by
    rw [Written.ofTy] at h
    rw [Layout.extentAt]
    exact extentAt_of_isSome_record? hrule target o hstruct h
  | .oriented order target, o, tree, hstruct, h => by
    rw [Written.ofTy] at h
    rw [Layout.extentAt]
    exact extentAt_of_isSome_record? hrule target (o.annotate order) hstruct h
  | .struct name base fields, o, tree, _, h => by
    rw [Written.ofTy] at h
    obtain ⟨inherited, -, h⟩ := bind_eq_ok_iff.1 h
    obtain ⟨own, -, h⟩ := bind_eq_ok_iff.1 h
    obtain ⟨ds, hds, h⟩ := bind_eq_ok_iff.1 h
    rw [Written.layoutDecorations, if_neg hrule, Layout.unplacedParts_parts] at hds
    obtain ⟨layout, hlayout, -⟩ := bind_eq_ok_iff.1 hds
    obtain ⟨ms, hms, hlayout⟩ := bind_eq_ok_iff.1 (Written.ofChecked_eq_ok_iff.1 hlayout)
    obtain ⟨first, hfirst, hms⟩ := bind_eq_ok_iff.1 hms
    obtain ⟨rest, hrest, hms⟩ := bind_eq_ok_iff.1 hms
    cases hms
    refine ⟨layout.extent, ?_⟩
    rw [Layout.extentAt, hfirst, hrest]
    show (do return (← Layout.RecordLayout.of rule (first ++ rest)).extent) = _
    rw [hlayout]
    rfl

/-- Where each matrix fits, the components of a structure keep apart and within its extent. -/
theorem Layout.within_of_everyMatrix {ty : Ty} {tree : TypeTree} (hrule : rule ≠ .unlaid)
    (hstruct : ty.record?.isSome = true) (hplain : ty.isPlainData = true)
    (hfits : ty.everyMatrix (Layout.matrixFits options rule) {} = true)
    (htree : Written.ofTy options ty rule {} none = .ok tree) :
    ∃ spans x, tree.spans none = some spans ∧ Layout.extent options rule ty = .ok x ∧
      Span.Within 0 x.size spans := by
  obtain ⟨x, hx⟩ := Written.extentAt_of_isSome_record? hrule ty {} hstruct htree
  have hstored : Layout.StoredAs options rule ty {} none := by
    intro hfloat
    rw [ty.isFloatMatrixArray_of_isSome_record? hstruct] at hfloat
    cases hfloat
  obtain ⟨spans, hspans, hwithin⟩ :=
    Layout.fitsAt_of_everyMatrix hrule ty {} hplain hfits tree x none htree hx hstored
  exact ⟨spans, x, hspans, hx, hwithin⟩

namespace Emit

variable {e : Emitter} {ty : Ty} {id : TypeId}

/-! ## Structures without integer matrices -/

/-- **Components keep apart.**  In whatever state an emitter is, a structure of plain data without
integer matrices that it emits under a memory rule gives any two scalar components disjoint bytes,
all of them within the size of the structure. -/
theorem components_apart (he : Emitter.Reachable options e) (hrule : rule ≠ .unlaid)
    (hstruct : ty.record?.isSome = true) (hplain : ty.isPlainData = true)
    (hfloat : ty.hasFloatMatricesOnly = true) (hid : ((Emit.type ty rule).runOn e).1 = .ok id) :
    ∃ tree spans x, ((Emit.type ty rule).runOn e).2.target.tree? id = some tree ∧
      tree.spans none = some spans ∧ Layout.extent options rule ty = .ok x ∧
      spans.Pairwise Span.Apart ∧ ∀ s ∈ spans, s.stop ≤ x.size := by
  obtain ⟨tree, htree, hread⟩ := tree?_of_type he hid
  have hfits : ty.everyMatrix (Layout.matrixFits options rule) {} = true :=
    ty.everyMatrix_mono (fun o elem rows cols h => by rw [Layout.matrixFits, h]; rfl) {} hfloat
  obtain ⟨spans, x, hspans, hx, hwithin⟩ :=
    Layout.within_of_everyMatrix hrule hstruct hplain hfits htree
  exact ⟨tree, spans, x, hread, hspans, hx, hwithin.apart, hwithin.stops⟩

/-- A structure with a base, an array of row-major matrices behind a typedef, and an explicit
offset. -/
def mixedStruct : Ty :=
  .struct "S" (.present (.struct "B" .absent
      (.cons "flag" (.scalar .bool) {} {} (.cons "wide" (.vector .double 3) {} {} .nil))))
    (.cons "m" (.alias "Matrices" (.array (.oriented .rowMajor (.matrix .half 2 3)) (some 2))) {} {}
      (.cons "v" (.matrix (.int 16 true) 1 3) { offset := some 200 } {} .nil))

theorem components_apart_mixedStruct :
    Layout.Rule.std140 ≠ .unlaid ∧ mixedStruct.record?.isSome = true ∧
    mixedStruct.isPlainData = true ∧ mixedStruct.hasFloatMatricesOnly = true ∧
    ((Emit.type mixedStruct .std140).runOn (.start {})).1 = .ok 7 ∧
    ∃ tree spans x,
      ((Emit.type mixedStruct .std140).runOn (.start {})).2.target.tree? 7 = some tree ∧
      tree.spans none = some spans ∧ Layout.extent {} .std140 mixedStruct = .ok x ∧
      spans.Pairwise Span.Apart ∧ ∀ s ∈ spans, s.stop ≤ x.size := by
  have hid : ((Emit.type mixedStruct .std140).runOn (.start {})).1 = .ok 7 := by decide +kernel
  exact ⟨by decide, rfl, rfl, rfl, hid, components_apart .start (by decide) rfl rfl rfl hid⟩

/-! ## Integer matrices -/

/-- **Rows keep apart exactly where they fit.**  In whatever state an emitter is, an integer or
boolean matrix anywhere in a structure of plain data is emitted as an array of one vector for each
of its rows.  The rows keep apart and within the extent of the matrix exactly if `Layout.rowsFit`
holds, and if it holds for all such matrices, all components of the structure keep apart and within
the size of the structure. -/
theorem rows_apart_iff (he : Emitter.Reachable options e) (hrule : rule ≠ .unlaid)
    (hstruct : ty.record?.isSome = true) (hplain : ty.isPlainData = true)
    (hid : ((Emit.type ty rule).runOn e).1 = .ok id) :
    ∃ tree, ((Emit.type ty rule).runOn e).2.target.tree? id = some tree ∧
      (∀ path elem rows cols o, ty.part? {} path = some (.matrix elem rows cols, o) →
        elem.isFloat = false → 2 ≤ rows → 2 ≤ cols →
        ∃ array spans x, tree.part? path = some array ∧ array.rowSpans = some spans ∧
          spans.length = rows ∧ Layout.extentAt options rule (.matrix elem rows cols) o = .ok x ∧
          (spans.Pairwise Span.Apart ∧ (∀ s ∈ spans, s.stop ≤ x.size)
            ↔ Layout.rowsFit rule (elem.bytes options) rows cols (o.byRows options) = true)) ∧
      (ty.everyMatrix (Layout.matrixFits options rule) {} = true →
        ∃ spans x, tree.spans none = some spans ∧ Layout.extent options rule ty = .ok x ∧
          spans.Pairwise Span.Apart ∧ ∀ s ∈ spans, s.stop ≤ x.size) := by
  obtain ⟨tree, htree, hread⟩ := tree?_of_type he hid
  refine ⟨tree, hread, ?_, ?_⟩
  · intro path elem rows cols o hpart hfloat hrows hcols
    -- what is emitted at the end of the path is what is emitted for the matrix alone
    have hmatrix := ty.isPlainData_of_part? {} path hplain hpart
    simp only [Ty.isPlainData, Bool.and_eq_true, decide_eq_true_eq] at hmatrix
    obtain ⟨⟨helem, -, hrows'⟩, -, hcols'⟩ := hmatrix
    obtain ⟨array, harray, hwritten⟩ := Written.part?_ofTy ty {} path htree hpart
    rw [Written.ofTy] at hwritten
    obtain ⟨x, hx⟩ := Layout.extent_of_ofMatrix hrule (by omega) hfloat hwritten
    obtain ⟨spans, hspans, hlength, hiff⟩ := Layout.within_rowSpans_iff helem hrule
      ⟨hrows, hrows'⟩ ⟨hcols, hcols'⟩ hfloat hwritten hx
    refine ⟨array, spans, x, harray, hspans, hlength, ?_, ?_⟩
    · rw [Layout.extentAt, hx]
    · rw [← hiff]
      exact ⟨fun h => ⟨h.1, fun _ _ => Nat.zero_le _, h.2⟩, fun h => ⟨h.apart, h.stops⟩⟩
  · intro hfits
    obtain ⟨spans, x, hspans, hx, hwithin⟩ :=
      Layout.within_of_everyMatrix hrule hstruct hplain hfits htree
    exact ⟨spans, x, hspans, hx, hwithin.apart, hwithin.stops⟩

/-- A column-major integer matrix with more rows than columns, and a member behind it. -/
def overrunStruct : Ty :=
  .struct "S" .absent
    (.cons "m" (.matrix .int32 3 2) {} {} (.cons "x" (.scalar .int32) {} {} .nil))

/-- The type that is emitted for it: three rows at the stride of two columns. -/
def overrunTree : TypeTree :=
  .node (some "S") (.struct
    (.cons (some "m") (.node none (.array (.node none (.vector .two .int32) []) 3) [.arrayStride 16])
      (.cons (some "x") (.node none (.scalar .int32) []) .nil)))
    [.offset 0 0, .offset 1 32]

theorem tree?_overrunStruct :
    ((Emit.type overrunStruct .std140).runOn (.start {})).1 = .ok 4 ∧
      ((Emit.type overrunStruct .std140).runOn (.start {})).2.target.tree? 4 = some overrunTree :=
  ⟨by decide +kernel, by decide +kernel⟩

theorem rows_apart_iff_overrunStruct :
    Layout.Rule.std140 ≠ .unlaid ∧ overrunStruct.record?.isSome = true ∧
    overrunStruct.isPlainData = true ∧
    ((Emit.type overrunStruct .std140).runOn (.start {})).1 = .ok 4 ∧
    ∃ tree, ((Emit.type overrunStruct .std140).runOn (.start {})).2.target.tree? 4 = some tree ∧
      (∀ path elem rows cols o, overrunStruct.part? {} path = some (.matrix elem rows cols, o) →
        elem.isFloat = false → 2 ≤ rows → 2 ≤ cols →
        ∃ array spans x, tree.part? path = some array ∧ array.rowSpans = some spans ∧
          spans.length = rows ∧ Layout.extentAt {} .std140 (.matrix elem rows cols) o = .ok x ∧
          (spans.Pairwise Span.Apart ∧ (∀ s ∈ spans, s.stop ≤ x.size)
            ↔ Layout.rowsFit .std140 (elem.bytes {}) rows cols (o.byRows {}) = true)) ∧
      (overrunStruct.everyMatrix (Layout.matrixFits {} .std140) {} = true →
        ∃ spans x, tree.spans none = some spans ∧ Layout.extent {} .std140 overrunStruct = .ok x ∧
          spans.Pairwise Span.Apart ∧ ∀ s ∈ spans, s.stop ≤ x.size) :=
  ⟨by decide, rfl, rfl, tree?_overrunStruct.1,
    rows_apart_iff .start (by decide) rfl rfl tree?_overrunStruct.1⟩

/-- The third row of the matrix ends behind the matrix, in the bytes of the member behind it. -/
theorem rows_overrun :
    ∃ tree rows x spans,
      ((Emit.type overrunStruct .std140).runOn (.start {})).2.target.tree? 4 = some tree ∧
      (tree.part? [.member 0]).bind (·.rowSpans) = some rows ∧
      Layout.extent {} .std140 (.matrix .int32 3 2) = .ok x ∧ (¬∀ s ∈ rows, s.stop ≤ x.size) ∧
      tree.spans none = some spans ∧ ¬spans.Pairwise Span.Apart :=
  ⟨overrunTree, [⟨0, 8⟩, ⟨16, 8⟩, ⟨32, 8⟩], ⟨16, 32, 16⟩,
    [⟨0, 4⟩, ⟨4, 4⟩, ⟨16, 4⟩, ⟨20, 4⟩, ⟨32, 4⟩, ⟨36, 4⟩, ⟨32, 4⟩], tree?_overrunStruct.2, rfl, rfl,
    by decide, rfl, by decide⟩

end Emit

end ShaderLowering
