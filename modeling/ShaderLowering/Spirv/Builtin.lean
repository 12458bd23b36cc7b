/-!
# Storage classes, builtins and image properties

The closed vocabularies of the target module, with the names that a listing gives them.
-/

namespace ShaderLowering.Spirv

/-- Where a variable is stored. -/
inductive StorageClass
  | function
  | privateGlobal
  | input
  | output
  /-- Uniform and storage blocks. -/
  | uniform
  /-- Images and samplers. -/
  | uniformConstant
  | pushConstant
  | workgroup
deriving DecidableEq, Repr, Inhabited

/-- The name of a storage class. -/
def StorageClass.text : StorageClass → String
  | function => "Function"
  | privateGlobal => "Private"
  | input => "Input"
  | output => "Output"
  | uniform => "Uniform"
  | uniformConstant => "UniformConstant"
  | pushConstant => "PushConstant"
  | workgroup => "Workgroup"

/-- A variable that the pipeline provides or consumes. -/
inductive Builtin
  | position
  | fragCoord
  | pointSize
  | clipDistance
  | cullDistance
  | vertexIndex
  | instanceIndex
  | baseVertex
  | baseInstance
  | drawIndex
  | deviceIndex
  | frontFacing
  | fragDepth
  | fragStencilRef
  | helperInvocation
  | sampleId
  | sampleMask
  | fullyCovered
  | primitiveId
  | invocationId
  | layer
  | viewportIndex
  | viewIndex
  | tessLevelOuter
  | tessLevelInner
  | tessCoord
  | globalInvocationId
  | localInvocationId
  | localInvocationIndex
  | workgroupId
deriving DecidableEq, Repr, Inhabited

/-- The name of a builtin. -/
def Builtin.text : Builtin → String
  | position => "Position"
  | fragCoord => "FragCoord"
  | pointSize => "PointSize"
  | clipDistance => "ClipDistance"
  | cullDistance => "CullDistance"
  | vertexIndex => "VertexIndex"
  | instanceIndex => "InstanceIndex"
  | baseVertex => "BaseVertex"
  | baseInstance => "BaseInstance"
  | drawIndex => "DrawIndex"
  | deviceIndex => "DeviceIndex"
  | frontFacing => "FrontFacing"
  | fragDepth => "FragDepth"
  | fragStencilRef => "FragStencilRef"
  | helperInvocation => "HelperInvocation"
  | sampleId => "SampleId"
  | sampleMask => "SampleMask"
  | fullyCovered => "FullyCovered"
  | primitiveId => "PrimitiveId"
  | invocationId => "InvocationId"
  | layer => "Layer"
  | viewportIndex => "ViewportIndex"
  | viewIndex => "ViewIndex"
  | tessLevelOuter => "TessLevelOuter"
  | tessLevelInner => "TessLevelInner"
  | tessCoord => "TessCoord"
  | globalInvocationId => "GlobalInvocationId"
  | localInvocationId => "LocalInvocationId"
  | localInvocationIndex => "LocalInvocationIndex"
  | workgroupId => "WorkgroupId"

/-- The dimensionality of an image. -/
inductive ImageDim
  | one
  | two
  | three
  | cube
  | buffer
  | subpassData
deriving DecidableEq, Repr, Inhabited

/-- The name of an image dimensionality. -/
def ImageDim.text : ImageDim → String
  | one => "1D"
  | two => "2D"
  | three => "3D"
  | cube => "Cube"
  | buffer => "Buffer"
  | subpassData => "SubpassData"

/-- The texel format of a storage image: one, two or four channels of 32 bits. -/
inductive ImageFormat
  | unknown
  | r32f
  | rg32f
  | rgba32f
  | r32i
  | rg32i
  | rgba32i
  | r32ui
  | rg32ui
  | rgba32ui
deriving DecidableEq, Repr, Inhabited

namespace ImageFormat

/-- The name of a texel format. -/
def text : ImageFormat → String
  | unknown => "Unknown"
  | r32f => "R32f"
  | rg32f => "Rg32f"
  | rgba32f => "Rgba32f"
  | r32i => "R32i"
  | rg32i => "Rg32i"
  | rgba32i => "Rgba32i"
  | r32ui => "R32ui"
  | rg32ui => "Rg32ui"
  | rgba32ui => "Rgba32ui"

/-- Whether the format has two channels. -/
def isTwoChannel : ImageFormat → Bool
  | rg32f | rg32i | rg32ui => true
  | _ => false

end ImageFormat

end ShaderLowering.Spirv
