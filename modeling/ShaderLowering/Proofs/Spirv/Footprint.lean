import ShaderLowering.Proofs.Spirv.Span
import ShaderLowering.Proofs.Spirv.TypeTree

/-!
# The footprint of a type

Where the scalar components of a value lie, read off the type and its decorations alone.  An array
puts its elements at the multiples of its stride and a structure its members at their offsets; a
matrix is stored as vectors, whose stride and direction are decorations of the structure member
that holds the matrix or the array of matrices.

A type with a part that has no place in memory, or without a decoration that is needed, has no
footprint.
-/

namespace ShaderLowering.Spirv

/-- How the vectors of a matrix are stored. -/
structure MatrixStorage where
  /-- The distance from one stored vector to the next. -/
  stride : Nat
  /-- Whether a stored vector is a row, else it is a column. -/
  byRows : Bool
deriving DecidableEq, Repr

/-! ## Reading decorations -/

namespace TypeDecoration

/-- The member that a decoration is about. -/
def member? : TypeDecoration → Option Nat
  | offset m _ | matrixStride m _ | rowMajor m | columnMajor m | nonWritable m => some m
  | arrayStride _ | block | bufferBlock => none

/-- The decorations of one member. -/
def ofOneMember (member : Nat) (ds : List TypeDecoration) : List TypeDecoration :=
  ds.filter (·.member? = some member)

def arrayStride? (ds : List TypeDecoration) : Option Nat :=
  ds.findSome? fun
    | arrayStride bytes => some bytes
    | _ => none

/-- The offset that the decorations of a member give it. -/
def offset? (ds : List TypeDecoration) : Option Nat :=
  ds.findSome? fun
    | offset _ bytes => some bytes
    | _ => none

/-- The storage that the decorations of a member give to its matrices. -/
def matrixStorage? (ds : List TypeDecoration) : Option MatrixStorage := do
  let stride ← ds.findSome? fun
    | matrixStride _ bytes => some bytes
    | _ => none
  let byRows ← ds.findSome? fun
    | rowMajor _ => some true
    | columnMajor _ => some false
    | _ => none
  return ⟨stride, byRows⟩

end TypeDecoration

/-! ## Reading types -/

/-- A scalar; a truth value has no place in memory. -/
def Scalar.spans (s : Scalar) : Option (List Span) :=
  if s.kind = .bool then none else some [⟨0, s.width⟩]

/-- A vector, its components one after the other. -/
def VectorSize.spans (size : VectorSize) (s : Scalar) : Option (List Span) :=
  s.spans.map (Span.every size.toNat s.width)

/-- A matrix with a given column, as vectors in the order in which they are stored. -/
def VectorSize.matrixSpans (columns : VectorSize) (storage : MatrixStorage) :
    TypeTree → Option (List Span)
  | .node _ (.vector rows s) _ =>
    if storage.byRows then
      (columns.spans s).map (Span.every rows.toNat storage.stride)
    else
      (rows.spans s).map (Span.every columns.toNat storage.stride)
  | _ => none

mutual

/-- The components of a value of a type, whose matrices are stored as given. -/
def TypeTree.spans (storage : Option MatrixStorage) : TypeTree → Option (List Span)
  | .node _ form ds => form.spans storage ds

/-- The components of a value that consists of a form with some decorations. -/
def TreeForm.spans (storage : Option MatrixStorage) (ds : List TypeDecoration) :
    TreeForm → Option (List Span)
  | .scalar s => s.spans
  | .vector size s => size.spans s
  | .matrix column columns => storage.bind fun storage => columns.matrixSpans storage column
  | .array elem length =>
    (TypeDecoration.arrayStride? ds).bind fun stride =>
      (elem.spans storage).map (Span.every length stride)
  | .struct members => members.spans ds 0
  | .void | .runtimeArray _ | .image .. | .sampler | .pointer .. => none

/-- The components of members, numbered from `first`, of a structure with some decorations. -/
def TreeMembers.spans (ds : List TypeDecoration) : Nat → TreeMembers → Option (List Span)
  | _, .nil => some []
  | first, .cons _ ty rest =>
    (TypeDecoration.offset? (TypeDecoration.ofOneMember first ds)).bind fun offset =>
      (ty.spans (TypeDecoration.matrixStorage? (TypeDecoration.ofOneMember first ds))).bind
        fun here =>
          (rest.spans ds (first + 1)).map fun others => here.map (Span.shift offset) ++ others

end

/-! ## Reading parts of a type -/

/-- A step from a type to a part of it. -/
inductive PartStep
  | element
  | member (index : Nat)
deriving DecidableEq, Repr

mutual

/-- The part at the end of a path. -/
def TypeTree.part? : TypeTree → List PartStep → Option TypeTree
  | t, [] => some t
  | .node _ form _, step :: path => form.part? step path

/-- The part of a form at the end of a path. -/
def TreeForm.part? : TreeForm → PartStep → List PartStep → Option TypeTree
  | .array elem _, .element, path | .runtimeArray elem, .element, path => elem.part? path
  | .struct members, .member i, path => members.part? i path
  | _, _, _ => none

/-- The part of a member at the end of a path. -/
def TreeMembers.part? : TreeMembers → Nat → List PartStep → Option TypeTree
  | .nil, _, _ => none
  | .cons _ ty _, 0, path => ty.part? path
  | .cons _ _ rest, i + 1, path => rest.part? i path

end

/-- The rows of an array of vectors, each as a whole. -/
def TypeTree.rowSpans : TypeTree → Option (List Span)
  | .node _ (.array (.node _ (.vector size s) _) rows) ds =>
    (TypeDecoration.arrayStride? ds).map fun stride =>
      Span.every rows stride [⟨0, size.toNat * s.width⟩]
  | _ => none

/-! ## Vectors and matrices -/

namespace Scalar

variable {s : Scalar}

theorem spans_of_ne (h : s.kind ≠ .bool) : s.spans = some [⟨0, s.width⟩] := if_neg h

end Scalar

namespace VectorSize

variable {s : Scalar} {size columns : VectorSize} {stride last : Nat}

/-- The components of a vector fill it. -/
theorem within_every_width (size : VectorSize) (width : Nat) :
    Span.Within 0 (size.toNat * width) (Span.every size.toNat width [⟨0, width⟩]) :=
  (Span.within_singleton width).every (Nat.le_refl width) fun _ hi =>
    Span.mul_add_le_mul hi (Nat.le_refl width)

/-- Vectors at a stride that leaves room for one of them. -/
theorem within_every_vector {count : Nat} (size : VectorSize) {width : Nat}
    (hstride : size.toNat * width ≤ stride)
    (hlast : ∀ i < count, i * stride + size.toNat * width ≤ last) :
    Span.Within 0 last
      (Span.every count stride (Span.every size.toNat width [⟨0, width⟩])) :=
  (size.within_every_width width).every hstride hlast

end VectorSize

end ShaderLowering.Spirv
