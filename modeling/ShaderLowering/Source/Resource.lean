/-!
# Resource kinds

The closed set of resource types of the shading language, with the predicates that decide how a
declaration of such a type is lowered.
-/

namespace ShaderLowering.Source

/-- The dimensionality of a texture. -/
inductive TextureDim
  | one
  | two
  | three
  | cube
deriving DecidableEq, Repr, Inhabited

/-- The primitive that a geometry shader emits to an output stream. -/
inductive StreamPrimitive
  | point
  | line
  | triangle
deriving DecidableEq, Repr, Inhabited

/-- How a structured buffer is accessed. -/
inductive StructuredAccess
  | read
  | readWrite
  | append
  | consume
deriving DecidableEq, Repr, Inhabited

/-- A resource type without its element. -/
inductive Resource
  /-- A sampled texture, or a storage one if `writable`. -/
  | texture (dim : TextureDim) (arrayed multisampled writable : Bool)
  /-- A typed buffer. -/
  | buffer (writable : Bool)
  /-- A sampler. -/
  | sampler (comparison : Bool)
  /-- A buffer of structures. -/
  | structured (access : StructuredAccess)
  /-- A buffer of untyped bytes. -/
  | byteAddress (writable : Bool)
  /-- A constant buffer with a structure as its content. -/
  | constantBuffer
  /-- A texture buffer with a structure as its content. -/
  | textureBuffer
  /-- The control points that a hull shader reads. -/
  | inputPatch (points : Nat)
  /-- The control points that a domain shader reads. -/
  | outputPatch (points : Nat)
  /-- The vertices that a geometry shader emits. -/
  | stream (primitive : StreamPrimitive)
  /-- An attachment of the current render pass. -/
  | subpassInput (multisampled : Bool)
deriving DecidableEq, Repr, Inhabited

namespace Resource

/-- Whether a hidden counter belongs to the buffer. -/
def hasCounter : Resource → Bool
  | .structured .read => false
  | .structured _ => true
  | _ => false

/-- Whether this is a structured buffer of any access. -/
def isStructured : Resource → Bool
  | .structured _ => true
  | _ => false

/-- Whether a local variable can alias a resource of this kind. -/
def isAliasable : Resource → Bool
  | .structured _ | .byteAddress _ => true
  | _ => false

/-- Whether the kind only describes a stage interface and never becomes a resource variable. -/
def isStageInterface : Resource → Bool
  | .inputPatch _ | .outputPatch _ | .stream _ => true
  | _ => false

/-- Whether the kind wraps a structure into a constant or texture buffer. -/
def isBlock : Resource → Bool
  | .constantBuffer | .textureBuffer => true
  | _ => false

/-- The name of the kind in the shading language. -/
def name : Resource → String
  | .texture .one arrayed _ writable =>
    (if writable then "RW" else "") ++ "Texture1D" ++ (if arrayed then "Array" else "")
  | .texture .two arrayed true _ => "Texture2DMS" ++ (if arrayed then "Array" else "")
  | .texture .two arrayed false writable =>
    (if writable then "RW" else "") ++ "Texture2D" ++ (if arrayed then "Array" else "")
  | .texture .three _ _ writable => (if writable then "RW" else "") ++ "Texture3D"
  | .texture .cube arrayed _ _ => "TextureCube" ++ (if arrayed then "Array" else "")
  | .buffer writable => (if writable then "RW" else "") ++ "Buffer"
  | .sampler comparison => if comparison then "SamplerComparisonState" else "SamplerState"
  | .structured .read => "StructuredBuffer"
  | .structured .readWrite => "RWStructuredBuffer"
  | .structured .append => "AppendStructuredBuffer"
  | .structured .consume => "ConsumeStructuredBuffer"
  | .byteAddress writable => (if writable then "RW" else "") ++ "ByteAddressBuffer"
  | .constantBuffer => "ConstantBuffer"
  | .textureBuffer => "TextureBuffer"
  | .inputPatch _ => "InputPatch"
  | .outputPatch _ => "OutputPatch"
  | .stream .point => "PointStream"
  | .stream .line => "LineStream"
  | .stream .triangle => "TriangleStream"
  | .subpassInput multisampled => if multisampled then "SubpassInputMS" else "SubpassInput"

end Resource

end ShaderLowering.Source
