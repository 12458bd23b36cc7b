import ShaderLowering.Semantic
import ShaderLowering.Stage
import ShaderLowering.Spirv.Builtin
import ShaderLowering.Spirv.Capability

/-!
# Placement of semantics

Where a value with a given semantic lives at a given signature point: at an interface location, in
a builtin variable, or in one of the two packed arrays of distances.  Some placements require a
capability and an extension.  A semantic without a placement is not allowed at the point.
-/

namespace ShaderLowering

open Spirv (Builtin Capability Extension)

/-- The two kinds of distances that are packed into one array each. -/
inductive DistanceKind
  | clip
  | cull
deriving DecidableEq, Repr, Inhabited

/-- The kind of distance that a semantic asks for. -/
def SemanticKind.distance? : SemanticKind → Option DistanceKind
  | .clipDistance => some .clip
  | .cullDistance => some .cull
  | _ => none

/-- Where a value lives. -/
inductive Site
  | location
  | builtin (b : Builtin)
  /-- The packed array of clip or cull distances. -/
  | packed
deriving DecidableEq, Repr, Inhabited

/-- A site and what the module has to declare for it. -/
structure Placement where
  site : Site
  capability : Option Capability := none
  extension : Option Extension := none
deriving DecidableEq, Repr, Inhabited

namespace Placement

/-- An interface location. -/
def location : Placement := ⟨.location, none, none⟩

/-- A builtin variable with its requirements. -/
def builtin (b : Builtin) (capability : Option Capability := none)
    (extension : Option Extension := none) : Placement :=
  ⟨.builtin b, capability, extension⟩

/-- The placement of a render target or viewport index, which some stages pass on as an ordinary
value. -/
def ofArrayIndex? (b : Builtin) : SignaturePoint → Option Placement
  | .vertexIn | .hullPointIn | .hullPointOut | .patchConstantIn | .domainIn | .domainPointIn
  | .geometryVertexIn => some location
  | .vertexOut | .domainOut =>
    some (builtin b (some .shaderViewportIndexLayer) (some .shaderViewportIndexLayer))
  | .geometryOut | .pixelIn => some (builtin b (some .geometry))
  | _ => none

/-- The placement of a semantic at a signature point. -/
def ofSemantic? : SemanticKind → SignaturePoint → Option Placement
  | .arbitrary, .computeIn => none
  | .arbitrary, _ => some location
  | .vertexId, .vertexIn => some (builtin .vertexIndex)
  | .instanceId, .vertexIn => some (builtin .instanceIndex)
  | .vertexId, .computeIn | .vertexId, .pixelOut => none
  | .instanceId, .computeIn | .instanceId, .pixelOut => none
  | .vertexId, _ | .instanceId, _ => some location
  | .position, .vertexIn => some location
  | .position, .pixelIn => some (builtin .fragCoord)
  | .position, point =>
    match point with
    | .vertexOut | .hullPointIn | .hullPointOut | .domainPointIn | .domainOut | .geometryVertexIn
    | .geometryOut => some (builtin .position)
    | _ => none
  | .clipDistance, point | .cullDistance, point =>
    match point with
    | .vertexIn => some location
    | .vertexOut | .hullPointIn | .hullPointOut | .domainPointIn | .domainOut | .geometryVertexIn
    | .geometryOut | .pixelIn => some ⟨.packed, none, none⟩
    | _ => none
  | .isFrontFace, .pixelIn => some (builtin .frontFacing)
  | .depth, .pixelOut | .depthGreaterEqual, .pixelOut | .depthLessEqual, .pixelOut =>
    some (builtin .fragDepth)
  | .target, .pixelOut => some location
  | .dispatchThreadId, .computeIn => some (builtin .globalInvocationId)
  | .groupId, .computeIn => some (builtin .workgroupId)
  | .groupThreadId, .computeIn => some (builtin .localInvocationId)
  | .groupIndex, .computeIn => some (builtin .localInvocationIndex)
  | .outputControlPointId, .hullIn | .gsInstanceId, .geometryIn => some (builtin .invocationId)
  | .primitiveId, point =>
    match point with
    | .patchConstantIn | .hullIn | .domainIn | .geometryIn | .geometryOut | .pixelIn =>
      some (builtin .primitiveId)
    | _ => none
  | .tessFactor, .patchConstantOut | .tessFactor, .domainIn => some (builtin .tessLevelOuter)
  | .insideTessFactor, .patchConstantOut | .insideTessFactor, .domainIn =>
    some (builtin .tessLevelInner)
  | .domainLocation, .domainIn => some (builtin .tessCoord)
  | .sampleIndex, .pixelIn => some (builtin .sampleId (some .sampleRateShading))
  | .coverage, .pixelIn | .coverage, .pixelOut => some (builtin .sampleMask)
  | .innerCoverage, .pixelIn =>
    some (builtin .fullyCovered (some .fragmentFullyCovered) (some .fragmentFullyCovered))
  | .stencilRef, .pixelOut =>
    some (builtin .fragStencilRef (some .stencilExport) (some .shaderStencilExport))
  | .renderTargetArrayIndex, point => ofArrayIndex? .layer point
  | .viewportArrayIndex, point => ofArrayIndex? .viewportIndex point
  | .viewId, point =>
    match point with
    | .vertexIn | .patchConstantIn | .hullIn | .domainIn | .geometryIn | .pixelIn =>
      some (builtin .viewIndex (some .multiView) (some .multiview))
    | _ => none
  | _, _ => none

/-- The builtins that can be asked for by name. -/
def namedBuiltins : List (String × Builtin) :=
  [("PointSize", .pointSize), ("HelperInvocation", .helperInvocation),
    ("BaseVertex", .baseVertex), ("BaseInstance", .baseInstance), ("DrawIndex", .drawIndex),
    ("DeviceIndex", .deviceIndex)]

/-- The placement of a builtin that was asked for by name. -/
def ofBuiltin? (b : Builtin) (point : SignaturePoint) : Option Placement :=
  match b, point with
  | .pointSize, .vertexOut | .pointSize, .hullPointIn | .pointSize, .hullPointOut
  | .pointSize, .domainPointIn | .pointSize, .domainOut | .pointSize, .geometryVertexIn
  | .pointSize, .geometryOut => some (builtin .pointSize)
  | .helperInvocation, .pixelIn => some (builtin .helperInvocation)
  | .baseVertex, .vertexIn | .baseInstance, .vertexIn | .drawIndex, .vertexIn =>
    some (builtin b (some .drawParameters) (some .shaderDrawParameters))
  | .deviceIndex, _ =>
    if point.direction = .input then
      some (builtin .deviceIndex (some .deviceGroup) (some .deviceGroup))
    else none
  | _, _ => none

end Placement

end ShaderLowering
