import ShaderLowering.Spirv.Scalar
import ShaderLowering.Spirv.Builtin

/-!
# Entries of the module tables

Types, constants and variables refer to each other by number.  The decorations of a type belong to
its identity, since one shape laid out under two rules is two types; those of a variable are added
over time.
-/

namespace ShaderLowering.Spirv

/-- The number of a type in its table. -/
abbrev TypeId := Nat

/-- The number of a constant in its table. -/
abbrev ConstantId := Nat

/-- The number of a variable in its table. -/
abbrev VariableId := Nat

/-- A decoration of a type, some of them of one of its members. -/
inductive TypeDecoration
  | offset (member bytes : Nat)
  | arrayStride (bytes : Nat)
  | matrixStride (member bytes : Nat)
  | rowMajor (member : Nat)
  | columnMajor (member : Nat)
  | nonWritable (member : Nat)
  /-- A uniform or push constant block. -/
  | block
  /-- A storage block in the uniform storage class. -/
  | bufferBlock
deriving DecidableEq, Repr, Inhabited

namespace TypeDecoration

/-- A member decoration in a listing. -/
def ofMember (member : Nat) (what : String) : String := "[" ++ toString member ++ "] " ++ what

/-- The decoration in a listing. -/
def text : TypeDecoration → String
  | offset member bytes => ofMember member ("Offset " ++ toString bytes)
  | arrayStride bytes => "ArrayStride " ++ toString bytes
  | matrixStride member bytes => ofMember member ("MatrixStride " ++ toString bytes)
  | rowMajor member => ofMember member "RowMajor"
  | columnMajor member => ofMember member "ColMajor"
  | nonWritable member => ofMember member "NonWritable"
  | block => "Block"
  | bufferBlock => "BufferBlock"

end TypeDecoration

/-- A member of a structure type. -/
structure Member where
  name : Option String
  ty : TypeId
deriving DecidableEq, Repr, Inhabited

/-- An image type. -/
structure Image where
  /-- The type of a sample. -/
  sampledType : TypeId
  dim : ImageDim
  arrayed : Bool
  multisampled : Bool
  /-- 1 for a sampled image, 2 for a storage image. -/
  sampled : Nat
  format : ImageFormat
  /-- 0 for no depth image, 1 for one, 2 if that is open. -/
  depth : Nat
deriving DecidableEq, Repr, Inhabited

/-- What a type consists of. -/
inductive Shape
  | void
  | scalar (s : Scalar)
  | vector (size : VectorSize) (s : Scalar)
  /-- A floating-point matrix, as a number of column vectors. -/
  | matrix (column : TypeId) (columns : VectorSize)
  | array (elem : TypeId) (length : ConstantId)
  | runtimeArray (elem : TypeId)
  | struct (members : List Member)
  | image (i : Image)
  | sampler
  | pointer (target : TypeId) (storage : StorageClass)
deriving DecidableEq, Repr, Inhabited

/-- The types that a shape refers to. -/
def Shape.parts : Shape → List TypeId
  | .void | .scalar _ | .vector _ _ | .sampler => []
  | .matrix part _ | .array part _ | .runtimeArray part | .pointer part _ => [part]
  | .struct members => members.map (·.ty)
  | .image i => [i.sampledType]

/-- An entry of the type table. -/
structure TypeEntry where
  name : Option String := none
  shape : Shape
  decorations : List TypeDecoration := []
deriving DecidableEq, Repr, Inhabited

namespace TypeEntry

/-- The array stride of a type. -/
def arrayStride? (t : TypeEntry) : Option Nat :=
  t.decorations.findSome? fun
    | .arrayStride bytes => some bytes
    | _ => none

/-- The offset of a member. -/
def memberOffset? (t : TypeEntry) (member : Nat) : Option Nat :=
  t.decorations.findSome? fun
    | .offset m bytes => if m = member then some bytes else none
    | _ => none

end TypeEntry

/-- An unsigned 32-bit constant. -/
structure Constant where
  ty : TypeId
  value : Nat
deriving DecidableEq, Repr, Inhabited

/-- A decoration of a variable. -/
inductive VariableDecoration
  | location (n : Nat)
  /-- The blend source of a pixel shader output. -/
  | index (n : Nat)
  | builtin (b : Builtin)
  | descriptorSet (n : Nat)
  | binding (n : Nat)
  | patch
  | flat
  | noPerspective
  | centroid
  | sample
  | relaxedPrecision
deriving DecidableEq, Repr, Inhabited

/-- The decoration in a listing. -/
def VariableDecoration.text : VariableDecoration → String
  | location n => "Location " ++ toString n
  | index n => "Index " ++ toString n
  | builtin b => "BuiltIn " ++ b.text
  | descriptorSet n => "DescriptorSet " ++ toString n
  | binding n => "Binding " ++ toString n
  | patch => "Patch"
  | flat => "Flat"
  | noPerspective => "NoPerspective"
  | centroid => "Centroid"
  | sample => "Sample"
  | relaxedPrecision => "RelaxedPrecision"

/-- A descriptor set and a binding in it. -/
structure ResourceBinding where
  set : Nat
  binding : Nat
deriving DecidableEq, Repr, Inhabited

/-- A resource binding in a listing. -/
def ResourceBinding.text (b : ResourceBinding) : String :=
  "set=" ++ toString b.set ++ " binding=" ++ toString b.binding

/-- A variable of any storage class. -/
structure Variable where
  name : Option String := none
  /-- The type of the value stored in it. -/
  ty : TypeId
  storage : StorageClass
  decorations : List VariableDecoration := []
deriving DecidableEq, Repr, Inhabited

namespace Variable

/-- The first location of a variable. -/
def location? (v : Variable) : Option Nat :=
  v.decorations.findSome? fun
    | .location n => some n
    | _ => none

/-- The builtin that a variable stands for. -/
def builtin? (v : Variable) : Option Builtin :=
  v.decorations.findSome? fun
    | .builtin b => some b
    | _ => none

/-- The last descriptor set given to a variable. -/
def descriptorSet? (v : Variable) : Option Nat :=
  v.decorations.reverse.findSome? fun
    | .descriptorSet n => some n
    | _ => none

/-- The last binding given to a variable. -/
def binding? (v : Variable) : Option Nat :=
  v.decorations.reverse.findSome? fun
    | .binding n => some n
    | _ => none

/-- The place of a resource variable, once it has both set and binding. -/
def resourceBinding? (v : Variable) : Option ResourceBinding := do
  return ⟨← v.descriptorSet?, ← v.binding?⟩

end Variable

end ShaderLowering.Spirv
