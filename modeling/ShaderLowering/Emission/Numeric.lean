import ShaderLowering.Emission.Emitter

/-!
# Emission of scalars, vectors and matrices

A source scalar is emitted with its stored width.  A floating-point matrix becomes a matrix whose
columns are the source rows; any other matrix becomes an array of its rows.
-/

namespace ShaderLowering

open Source (Ty Scalar)
open Spirv (TypeId)

namespace Source.Scalar

/-- The kind of a scalar in the module. -/
def kind (s : Scalar) : Spirv.ScalarKind :=
  if s = .bool then .bool
  else if s.isFloat then .float
  else if s.isSigned then .signed
  else .unsigned

/-- The scalar of the module that stores a source scalar.  A truth value stays one only where no
memory layout is asked for.  The width field has eight bits. -/
def stored (options : Options) (rule : Layout.Rule) (expected : Option Scalar) (s : Scalar) :
    Spirv.Scalar :=
  if s = .bool then
    if rule = .unlaid then .bool else .uint32
  else
    ⟨(s.settled expected).kind, s.expectedBits options expected / 8 % 256⟩

/-- The capability that the width of a stored scalar asks for. -/
def widthCapability? (options : Options) (expected : Option Scalar) (s : Scalar) :
    Option Spirv.Capability :=
  if s = .bool then none
  else
    match (s.settled expected).isFloat, s.expectedBits options expected with
    | true, 16 => some .float16
    | true, 64 => some .float64
    | false, 16 => some .int16
    | false, 64 => some .int64
    | _, _ => none

end Source.Scalar

namespace Emit

/-- The scalar that stores a source scalar, with its capability declared. -/
def storedScalar (rule : Layout.Rule) (expected : Option Scalar) (s : Scalar) :
    Emit Spirv.Scalar := do
  let options := (← get).options
  declare (s.widthCapability? options expected) none
  return s.stored options rule expected

/-- The type of a scalar. -/
def ofScalar (rule : Layout.Rule) (expected : Option Scalar) (s : Scalar) : Emit TypeId := do
  scalarType (← storedScalar rule expected s)

/-- The size of a vector, which has to exist in the module. -/
def vectorSize (count : Nat) : Emit Spirv.VectorSize := do
  match Spirv.VectorSize.ofNat? count with
  | some size => return size
  | none => abort (.unsupportedVectorSize count)

/-- The type of a vector. -/
def ofVector (rule : Layout.Rule) (expected : Option Scalar) (elem : Scalar) (count : Nat) :
    Emit TypeId := do
  let stored ← storedScalar rule expected elem
  if count = 1 then
    scalarType stored
  else
    plainType (.vector (← vectorSize count) stored)

/-- The stride decoration of an array of a given source type. -/
def strideOf (rule : Layout.Rule) (ty : Ty) (o : Layout.Orientation) :
    Emit (List Spirv.TypeDecoration) := do
  if rule = .unlaid then
    return []
  else
    return [.arrayStride (← .ofChecked (Layout.extentAt (← get).options rule ty o)).stride]

/-- The type of a matrix. -/
def ofMatrix (rule : Layout.Rule) (o : Layout.Orientation) (expected : Option Scalar)
    (elem : Scalar) (rows cols : Nat) : Emit TypeId := do
  if rows = 1 ∨ cols = 1 then
    ofVector rule expected elem (← .ofChecked (Word.mul rows cols))
  else
    let row ← ofVector rule expected elem cols
    if elem.isFloat then
      plainType (.matrix row (← vectorSize rows))
    else
      let length ← constant rows
      let decorations ← strideOf rule (.matrix elem rows cols) o
      insertType ⟨none, .array row length, decorations⟩

/-- The type of an array whose element type is emitted.  Arrays of descriptors have no stride;
those of open length need an extension. -/
def ofArray (rule : Layout.Rule) (o : Layout.Orientation) (elem : Ty) (length : Option Nat)
    (base : TypeId) : Emit TypeId := do
  let ofDescriptors := elem.isResourceArray
  let decorations ← if ofDescriptors then pure [] else strideOf rule (.array elem length) o
  match length with
  | some n => insertType ⟨none, .array base (← constant n), decorations⟩
  | none =>
    if ofDescriptors then
      declare (some .runtimeDescriptorArray) (some .descriptorIndexing)
    insertType ⟨none, .runtimeArray base, decorations⟩

end Emit

end ShaderLowering
