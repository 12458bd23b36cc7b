import ShaderLowering.Source.Scalar
import ShaderLowering.Source.Resource
import ShaderLowering.Source.Attributes

/-!
# Types of the shading language

A source type is a tree of scalars, vectors, matrices, arrays, structures and resources.  Two kinds
of wrapper may stand at any level: a typedef name, and a matrix order (`row_major`,
`column_major`).  The wrapper-free type below them is the *shape*; nearly every question about a
type is a question about its shape.

The optional types (a base structure, a resource element) and the fields of a structure are
inductive families of their own, so that functions on types are structurally recursive and types
have decidable equality.
-/

namespace ShaderLowering.Source

/-- The storage order of a matrix. -/
inductive MatrixOrder
  | rowMajor
  | columnMajor
deriving DecidableEq, Repr, Inhabited

mutual

/-- A type as written in the source. -/
inductive Ty
  /-- No value. -/
  | void
  /-- One scalar. -/
  | scalar (elem : Scalar)
  /-- A vector of `count` components; a vector of one component is a scalar. -/
  | vector (elem : Scalar) (count : Nat)
  /-- A matrix of `rows` rows and `cols` columns. -/
  | matrix (elem : Scalar) (rows cols : Nat)
  /-- An array, of open length if none is given. -/
  | array (elem : Ty) (length : Option Nat)
  /-- A structure; the fields of a base structure come before its own. -/
  | struct (name : String) (base : OptionalTy) (fields : Fields)
  /-- A resource, for most kinds with an element type. -/
  | resource (kind : Resource) (elem : OptionalTy)
  /-- A typedef name for a type. -/
  | alias (name : String) (target : Ty)
  /-- A type with a matrix order. -/
  | oriented (order : MatrixOrder) (target : Ty)
deriving DecidableEq, Repr, Inhabited

/-- A type that may be absent. -/
inductive OptionalTy
  | absent
  | present (ty : Ty)
deriving DecidableEq, Repr, Inhabited

/-- The fields of a structure, in declaration order. -/
inductive Fields
  | nil
  | cons (name : String) (ty : Ty) (attributes : Attributes) (position : Position) (rest : Fields)
deriving DecidableEq, Repr, Inhabited

end

/-- A structure field, or a member of a constant buffer. -/
structure Field where
  name : String
  ty : Ty
  attributes : Attributes := {}
  position : Position := {}
deriving DecidableEq, Repr, Inhabited

/-- The declaration behind a structure type. -/
structure Record where
  name : String
  base : OptionalTy
  fields : Fields
deriving DecidableEq, Repr, Inhabited

/-- An optional type as an option. -/
def OptionalTy.toOption : OptionalTy → Option Ty
  | .absent => none
  | .present ty => some ty

/-- An option as an optional type. -/
def OptionalTy.ofOption : Option Ty → OptionalTy
  | none => .absent
  | some ty => .present ty

namespace Fields

/-- The fields as a list. -/
def toList : Fields → List Field
  | nil => []
  | cons name ty attributes position rest => ⟨name, ty, attributes, position⟩ :: rest.toList

/-- The fields of a list. -/
def ofList : List Field → Fields
  | [] => nil
  | f :: rest => cons f.name f.ty f.attributes f.position (ofList rest)

theorem toList_ofList (fs : List Field) : (ofList fs).toList = fs := by
  induction fs with
  | nil => rfl
  | cons f rest ih => simp [ofList, toList, ih]

/-- How many fields there are. -/
def length : Fields → Nat
  | nil => 0
  | cons _ _ _ _ rest => rest.length + 1

theorem length_toList : (fs : Fields) → fs.toList.length = fs.length
  | nil => rfl
  | cons _ _ _ _ rest => by simp [toList, length, length_toList rest]

end Fields

namespace Ty

/-- The type below all typedef names and matrix orders. -/
def shape : Ty → Ty
  | .alias _ target | .oriented _ target => target.shape
  | ty => ty

/-- The outermost matrix order among the wrappers of a type. -/
def order? : Ty → Option MatrixOrder
  | .alias _ target => target.order?
  | .oriented order _ => some order
  | _ => none

/-- The scalar of a scalar, vector or matrix type. -/
def elementScalar? (ty : Ty) : Option Scalar :=
  match ty.shape with
  | .scalar elem | .vector elem _ | .matrix elem _ _ => some elem
  | _ => none

/-- Whether the type has no value. -/
def isVoid (ty : Ty) : Bool :=
  match ty.shape with
  | .void => true
  | _ => false

/-- The declaration of a structure type. -/
def record? (ty : Ty) : Option Record :=
  match ty.shape with
  | .struct name base fields => some ⟨name, base, fields⟩
  | _ => none

/-- The kind and element of a resource type. -/
def resource? (ty : Ty) : Option (Resource × Option Ty) :=
  match ty.shape with
  | .resource kind elem => some (kind, elem.toOption)
  | _ => none

/-- Whether the type is a floating-point matrix with several rows and columns. -/
def isFloatMatrix (ty : Ty) : Bool :=
  match ty.shape with
  | .matrix elem rows cols => elem.isFloat && decide (1 < rows) && decide (1 < cols)
  | _ => false

/-- Whether the type is a floating-point matrix or an array of such, to any depth. -/
def isFloatMatrixArray : Ty → Bool
  | .alias _ target | .oriented _ target => target.isFloatMatrixArray
  | .array elem _ => elem.isFloatMatrixArray
  | ty => ty.isFloatMatrix

/-- Whether the type is a resource that is bound to a descriptor, or an array of such. -/
def isResourceArray : Ty → Bool
  | .alias _ target | .oriented _ target => target.isResourceArray
  | .array elem _ => elem.isResourceArray
  | .resource kind _ => !kind.isStageInterface
  | _ => false

/-- The type with every truth value replaced by an unsigned integer.  Structures keep their
fields. -/
def onInterface : Ty → Ty
  | .scalar elem => .scalar elem.onInterface
  | .vector elem count => .vector elem.onInterface count
  | .matrix elem rows cols => .matrix elem.onInterface rows cols
  | .array elem length => .array elem.onInterface length
  | .alias name target => .alias name target.onInterface
  | .oriented order target => .oriented order target.onInterface
  | ty => ty

/-- A type in the spelling of the shading language. -/
def text : Ty → String
  | .void => "void"
  | .scalar elem => elem.text
  | .vector elem count => elem.text ++ toString count
  | .matrix elem rows cols => elem.text ++ toString rows ++ "x" ++ toString cols
  | .array elem (some length) => elem.text ++ "[" ++ toString length ++ "]"
  | .array elem none => elem.text ++ "[]"
  | .struct name _ _ => name
  | .resource kind (.present elem) => kind.name ++ "<" ++ elem.text ++ ">"
  | .resource kind .absent => kind.name
  | .alias name _ => name
  | .oriented .rowMajor target => "row_major " ++ target.text
  | .oriented .columnMajor target => "column_major " ++ target.text

/-- Whether two types have the same shape, at the top and at every array level. -/
def sameShape : Ty → Ty → Bool
  | .alias _ target, other | .oriented _ target, other => target.sameShape other
  | .array elem length, other =>
    match other.shape with
    | .array elem' length' => decide (length = length') && elem.sameShape elem'
    | _ => false
  | ty, other => decide (ty = other.shape)

end Ty

mutual

/-- Whether the type is or holds a buffer that a local variable can alias. -/
def Ty.holdsAliasable : Ty → Bool
  | .alias _ target | .oriented _ target => target.holdsAliasable
  | .array elem _ => elem.holdsAliasable
  | .struct _ base fields => base.holdsAliasable || fields.holdAliasable
  | .resource kind _ => kind.isAliasable
  | _ => false

/-- Whether the type, if present, holds a buffer that a local variable can alias. -/
def OptionalTy.holdsAliasable : OptionalTy → Bool
  | .absent => false
  | .present ty => ty.holdsAliasable

/-- Whether some field holds a buffer that a local variable can alias. -/
def Fields.holdAliasable : Fields → Bool
  | .nil => false
  | .cons _ ty _ _ rest => ty.holdsAliasable || rest.holdAliasable

end

/-- The direct parts of a structure: the base structure as a nameless part without annotations,
then the fields. -/
def Record.parts (r : Record) : List Field :=
  match r.base with
  | .absent => r.fields.toList
  | .present base => ⟨"", base, {}, {}⟩ :: r.fields.toList

end ShaderLowering.Source
