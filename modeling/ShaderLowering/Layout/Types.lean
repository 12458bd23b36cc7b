import ShaderLowering.Layout.Members

/-!
# Layout of types

The extent of a type under a memory rule.  A matrix order may be written at any level of wrappers
and arrays above a matrix: at one level the outermost order holds, and an array hands its order to
an element that has none of its own.  `Orientation` carries what is known on the way down.
-/

namespace ShaderLowering.Layout

open Source (Ty OptionalTy Fields MatrixOrder Scalar Attributes)

/-- The matrix orders seen on the way down into a type. -/
structure Orientation where
  /-- The outermost order among the wrappers passed since the last array. -/
  own : Option MatrixOrder := none
  /-- The order that the enclosing array has. -/
  inherited : Option MatrixOrder := none
deriving DecidableEq, Repr, Inhabited

namespace Orientation

/-- Below a wrapper that asks for an order. -/
def annotate (o : Orientation) (order : MatrixOrder) : Orientation :=
  ⟨o.own.or (some order), o.inherited⟩

/-- The order in force, if any wrapper gave one. -/
def order? (o : Orientation) : Option MatrixOrder := o.own.or o.inherited

/-- Inside the array that stands here. -/
def element (o : Orientation) : Orientation := ⟨none, o.order?⟩

/-- Whether matrices are stored by rows here. -/
def byRows (options : Options) (o : Orientation) : Bool :=
  match o.order? with
  | some .rowMajor => true
  | some .columnMajor => false
  | none => options.rowMajor

end Orientation

/-- The scalar of a vector of several components; a matrix with exactly one row or one column is
such a vector. -/
def vectorScalar? (ty : Ty) : Option Scalar :=
  match ty.shape with
  | .vector elem count => if 1 < count then some elem else none
  | .matrix elem rows cols => if (rows = 1) = (cols = 1) then none else some elem
  | _ => none

/-- A member of a given type and extent, before it is placed. -/
def Unplaced.ofTy (options : Options) (name : String) (ty : Ty) (attributes : Attributes)
    (position : Source.Position) (extent : Extent) : Unplaced :=
  ⟨name, attributes, position, (vectorScalar? ty).map (·.bytes options), extent⟩

mutual

/-- The extent of a type at a point with the given matrix orders. -/
def extentAt (options : Options) (rule : Rule) : Ty → Orientation → Checked Extent
  | .alias _ target, o => extentAt options rule target o
  | .oriented order target, o => extentAt options rule target (o.annotate order)
  | .void, _ => .ok .empty
  | .scalar elem, _ => .ok (.ofScalar options elem)
  | .vector elem count, _ => Extent.ofVector options rule elem count
  | .matrix elem rows cols, o => Extent.ofMatrix options rule elem rows cols (o.byRows options)
  | .array elem length, o => do
    Extent.ofArray rule (← extentAt options rule elem o.element) length
  | .struct _ base fields, _ => do
    let inherited ← unplacedBase options rule base
    return (← RecordLayout.of rule (inherited ++ (← unplacedFields options rule fields))).extent
  | .resource kind elem, _ => contentExtent options rule kind elem

/-- The extent of a resource: only those that describe a stage interface take room. -/
def contentExtent (options : Options) (rule : Rule) (kind : Source.Resource) :
    OptionalTy → Checked Extent
  | .absent => .ok .empty
  | .present elem =>
    match kind with
    | .inputPatch points | .outputPatch points => do
      Extent.ofArray rule (← extentAt options rule elem {}) (some points)
    | .stream _ => extentAt options rule elem {}
    | _ => .ok .empty

/-- The base structure as a member, if there is one. -/
def unplacedBase (options : Options) (rule : Rule) : OptionalTy → Checked (List Unplaced)
  | .absent => .ok []
  | .present ty => do
    return [.ofTy options "" ty {} {} (← extentAt options rule ty {})]

/-- Fields as members. -/
def unplacedFields (options : Options) (rule : Rule) : Fields → Checked (List Unplaced)
  | .nil => .ok []
  | .cons name ty attributes position rest => do
    let extent ← extentAt options rule ty {}
    return .ofTy options name ty attributes position extent :: (← unplacedFields options rule rest)

end

/-- The extent of a type under a memory rule. -/
def extent (options : Options) (rule : Rule) (ty : Ty) : Checked Extent :=
  extentAt options rule ty {}

/-- The members of a structure, ready to be placed. -/
def unplaced (options : Options) (rule : Rule) (base : OptionalTy) (fields : Fields) :
    Checked (List Unplaced) := do
  return (← unplacedBase options rule base) ++ (← unplacedFields options rule fields)

/-- The type below all arrays, and the matrix orders there. -/
def innermost : Ty → Orientation → Ty × Orientation
  | .alias _ target, o => innermost target o
  | .oriented order target, o => innermost target (o.annotate order)
  | .array elem _, o => innermost elem o.element
  | ty, o => (ty, o)

/-- The stride and the storage order of a floating-point matrix or an array of such. -/
def matrixStride? (options : Options) (rule : Rule) (ty : Ty) : Checked (Option (Nat × Bool)) :=
  if ty.isFloatMatrixArray then do
    let (matrix, o) := innermost ty {}
    return some ((← extentAt options rule matrix o).stride, o.byRows options)
  else
    .ok none

end ShaderLowering.Layout
