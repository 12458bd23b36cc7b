import ShaderLowering.Emission.Records
import ShaderLowering.Emission.Images

/-!
# Types without typedef names

What is computed from a type before it is emitted takes no notice of typedef names: extents,
member decorations and the elements of images are the same for the type without them, whether the
names stand at the top, in arrays, in fields and base structures or in the elements of resources.
Matrix orders are kept where they are.
-/

namespace ShaderLowering

open Source (Ty OptionalTy Fields Field Record)

/-! ## Removal of typedef names -/

namespace Source

mutual

/-- The type without typedef names at any depth. -/
def Ty.unaliased : Ty → Ty
  | .alias _ target => target.unaliased
  | .oriented order target => .oriented order target.unaliased
  | .array elem length => .array elem.unaliased length
  | .struct name base fields => .struct name base.unaliased fields.unaliased
  | .resource kind elem => .resource kind elem.unaliased
  | .void => .void
  | .scalar elem => .scalar elem
  | .vector elem count => .vector elem count
  | .matrix elem rows cols => .matrix elem rows cols

/-- The type without typedef names, if there is one. -/
def OptionalTy.unaliased : OptionalTy → OptionalTy
  | .absent => .absent
  | .present ty => .present ty.unaliased

/-- The fields with types without typedef names. -/
def Fields.unaliased : Fields → Fields
  | .nil => .nil
  | .cons name ty attributes position rest =>
    .cons name ty.unaliased attributes position rest.unaliased

end

/-- The field with a type without typedef names. -/
def Field.unaliased (f : Field) : Field := { f with ty := f.ty.unaliased }

namespace Ty

/-- A structure keeps its name. -/
theorem name_record?_unaliased : (ty : Ty) →
    ty.unaliased.record?.map (·.name) = ty.record?.map (·.name)
  | .alias _ target | .oriented _ target => target.name_record?_unaliased
  | .void | .scalar _ | .vector _ _ | .matrix _ _ _ | .array _ _ | .struct _ _ _
  | .resource _ _ => rfl

theorem isFloatMatrixArray_unaliased : (ty : Ty) →
    ty.unaliased.isFloatMatrixArray = ty.isFloatMatrixArray
  | .alias _ target | .oriented _ target => target.isFloatMatrixArray_unaliased
  | .array elem _ => elem.isFloatMatrixArray_unaliased
  | .void | .scalar _ | .vector _ _ | .matrix _ _ _ | .struct _ _ _ | .resource _ _ => rfl

theorem isResourceArray_unaliased : (ty : Ty) →
    ty.unaliased.isResourceArray = ty.isResourceArray
  | .alias _ target | .oriented _ target => target.isResourceArray_unaliased
  | .array elem _ => elem.isResourceArray_unaliased
  | .void | .scalar _ | .vector _ _ | .matrix _ _ _ | .struct _ _ _ | .resource _ _ => rfl

end Ty

theorem Fields.toList_unaliased (fields : Fields) :
    fields.unaliased.toList = fields.toList.map Field.unaliased := by
  cases fields with
  | nil => rfl
  | cons name ty attributes position rest =>
    rw [unaliased, toList, toList, rest.toList_unaliased, List.map_cons, Field.unaliased]

theorem Record.parts_unaliased (name : String) (base : OptionalTy) (fields : Fields) :
    Record.parts ⟨name, base.unaliased, fields.unaliased⟩
      = (Record.parts ⟨name, base, fields⟩).map Field.unaliased := by
  cases base with
  | absent => exact fields.toList_unaliased
  | present ty => exact congrArg (_ :: ·) fields.toList_unaliased

end Source

/-! ## Extents -/

namespace Layout

variable {options : Options} {rule : Rule}

theorem vectorScalar?_unaliased : (ty : Ty) → vectorScalar? ty.unaliased = vectorScalar? ty
  | .alias _ target | .oriented _ target => vectorScalar?_unaliased target
  | .void | .scalar _ | .vector _ _ | .matrix _ _ _ | .array _ _ | .struct _ _ _
  | .resource _ _ => rfl

theorem Unplaced.ofTy_unaliased (name : String) (ty : Ty) (attributes : Source.Attributes)
    (position : Source.Position) (extent : Extent) :
    Unplaced.ofTy options name ty.unaliased attributes position extent
      = Unplaced.ofTy options name ty attributes position extent := by
  rw [Unplaced.ofTy, Unplaced.ofTy, vectorScalar?_unaliased]

mutual

/-- **A type has the same extent without typedef names.** -/
theorem extentAt_unaliased : (ty : Ty) → (o : Orientation) →
    extentAt options rule ty.unaliased o = extentAt options rule ty o
  | .alias _ target, o => by
    rw [Ty.unaliased, extentAt, extentAt_unaliased target o]
  | .oriented order target, o => by
    rw [Ty.unaliased, extentAt, extentAt, extentAt_unaliased target]
  | .array elem length, o => by
    rw [Ty.unaliased, extentAt, extentAt, extentAt_unaliased elem]
  | .struct name base fields, o => by
    rw [Ty.unaliased, extentAt, extentAt, unplacedBase_unaliased base,
      unplacedFields_unaliased fields]
  | .resource kind elem, o => by
    rw [Ty.unaliased, extentAt, extentAt, contentExtent_unaliased kind elem]
  | .void, o | .scalar _, o | .vector _ _, o | .matrix _ _ _, o => by
    rw [Ty.unaliased]

theorem contentExtent_unaliased (kind : Source.Resource) : (elem : OptionalTy) →
    contentExtent options rule kind elem.unaliased = contentExtent options rule kind elem
  | .absent => rfl
  | .present elem => by
    simp only [OptionalTy.unaliased, contentExtent, extentAt_unaliased elem]

theorem unplacedBase_unaliased : (base : OptionalTy) →
    unplacedBase options rule base.unaliased = unplacedBase options rule base
  | .absent => rfl
  | .present ty => by
    simp only [OptionalTy.unaliased, unplacedBase, extentAt_unaliased ty, Unplaced.ofTy_unaliased]

theorem unplacedFields_unaliased : (fields : Fields) →
    unplacedFields options rule fields.unaliased = unplacedFields options rule fields
  | .nil => rfl
  | .cons name ty attributes position rest => by
    simp only [Fields.unaliased, unplacedFields, extentAt_unaliased ty, Unplaced.ofTy_unaliased,
      unplacedFields_unaliased rest]

end

theorem extent_unaliased (ty : Ty) : extent options rule ty.unaliased = extent options rule ty :=
  extentAt_unaliased ty {}

theorem innermost_unaliased : (ty : Ty) → (o : Orientation) →
    innermost ty.unaliased o = ((innermost ty o).1.unaliased, (innermost ty o).2)
  | .alias _ target, o => innermost_unaliased target o
  | .oriented order target, o => innermost_unaliased target (o.annotate order)
  | .array elem _, o => innermost_unaliased elem o.element
  | .void, _ | .scalar _, _ | .vector _ _, _ | .matrix _ _ _, _ | .struct _ _ _, _
  | .resource _ _, _ => rfl

theorem matrixStride?_unaliased (ty : Ty) :
    matrixStride? options rule ty.unaliased = matrixStride? options rule ty := by
  simp only [matrixStride?, Ty.isFloatMatrixArray_unaliased, innermost_unaliased,
    extentAt_unaliased]

/-! ## Members -/

theorem unplacedParts_unaliased (parts : List Field) :
    unplacedParts options rule (parts.map Field.unaliased) = unplacedParts options rule parts := by
  simp only [unplacedParts, List.mapM_map, Function.comp_def, Field.unaliased, extent_unaliased,
    Unplaced.ofTy_unaliased]

theorem partDecorations_unaliased (first : Nat) (parts : List Field) (placed : List Placed) :
    partDecorations options rule first (parts.map Field.unaliased) placed
      = partDecorations options rule first parts placed := by
  induction parts generalizing first placed with
  | nil => rfl
  | cons part parts ih =>
    cases placed with
    | nil => rfl
    | cons here rest =>
      simp only [List.map_cons, partDecorations, memberDecorations, Field.unaliased,
        matrixStride?_unaliased, ih]

end Layout

/-! ## Elements of images -/

namespace Texel

theorem ofVector?_unaliased : (ty : Ty) → ofVector? ty.unaliased = ofVector? ty
  | .alias _ target | .oriented _ target => ofVector?_unaliased target
  | .void | .scalar _ | .vector _ _ | .matrix _ _ _ | .array _ _ | .struct _ _ _
  | .resource _ _ => rfl

theorem joinFields_unaliased (texel : Option Texel) (fields : List Field) :
    joinFields texel (fields.map Field.unaliased) = joinFields texel fields := by
  induction fields generalizing texel with
  | nil => rfl
  | cons f rest ih =>
    simp only [List.map_cons, joinFields, Field.unaliased, ofVector?_unaliased, ih]

end Texel

end ShaderLowering
